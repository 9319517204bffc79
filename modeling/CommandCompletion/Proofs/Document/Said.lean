import CommandCompletion.Document
import CommandCompletion.Proofs.Text.Arity
import Mathlib.Data.List.Induction
import Mathlib.Data.List.Nodup

/-!
# What data say a document

A command, an option or a positional is said by a record whose members are fields of it, each at
most once and in any order (`Datum.Fields`). A field is given with a value that says it, or it is
left out, which is allowed where it is empty or has its default (`Datum.Given`). An arity is said by
one of its text forms, or by the count (`Arity.SaidBy`). In JSON a value that may be missing may also
be given as nothing.

Whatever data say a document, decoding them gives this document, with every field in its place
(`CommandDocument.decode_of_saidBy`).
-/

set_option autoImplicit false

namespace CommandCompletion

variable {α β : Type}

/-! ## Fields of records -/

namespace Datum

/-- The members of a record are fields of the given names, none of them twice. -/
structure Fields (names : List String) (members : List (String × Datum)) : Prop where
  distinct : (members.map (·.1)).Nodup
  known : ∀ member ∈ members, member.1 ∈ names

/-- A field among the members of a record: given with a value that says it, or left out where this
is allowed. -/
inductive Given (members : List (String × Datum)) (name : String) (omissible : Prop)
    (said : Datum → Prop) : Prop where
  | given {value : Datum} (member : (name, value) ∈ members) (isSaid : said value)
  | leftOut (allowed : omissible) (absent : ∀ value, (name, value) ∉ members)

/-- What the members of a record hold of a field, if they hold it. -/
def held? (decode : Datum → Except DecodingFault α) (members : List (String × Datum))
    (name : String) : Option α :=
  (members.lookup name).bind fun value => (decode value).toOption

variable {decode : Datum → Except DecodingFault α} {members : List (String × Datum)} {name : String}

theorem lookup_of_absent (absent : ∀ value, (name, value) ∉ members) :
    members.lookup name = none := by
  rw [List.lookup_eq_none_iff]
  rintro ⟨other, value⟩ member
  rw [bne_iff_ne]
  rintro rfl
  exact absent value member

theorem held?_of_absent (absent : ∀ value, (name, value) ∉ members) :
    held? decode members name = none := by
  rw [held?, lookup_of_absent absent, Option.bind_none]

theorem held?_of_mem {value : Datum} {decoded : α} (distinct : (members.map (·.1)).Nodup)
    (member : (name, value) ∈ members) (decodes : decode value = .ok decoded) :
    held? decode members name = some decoded := by
  rw [held?, (Table.lookup_eq_some_iff_mem distinct).mpr member, Option.bind_some, decodes]
  rfl

theorem held?_concat_self {value : Datum} {decoded : α} (absent : ∀ value, (name, value) ∉ members)
    (decodes : decode value = .ok decoded) :
    held? decode (members ++ [(name, value)]) name = some decoded := by
  simp [held?, List.lookup_append, lookup_of_absent absent, decodes, Except.toOption]

theorem held?_concat_ne {other : String} (different : other ≠ name) (value : Datum) :
    held? decode (members ++ [(other, value)]) name = held? decode members name := by
  rw [held?, held?, List.lookup_append, List.lookup_cons, beq_eq_false_iff_ne.mpr different.symm]
  simp

/-- A field that is met for the first time is held from then on. -/
theorem once_held? {value : Datum} {decoded : α} (absent : ∀ value, (name, value) ∉ members)
    (decodes : decode value = .ok decoded) :
    once name (held? decode members name) (decode value) =
      .ok (held? decode (members ++ [(name, value)]) name) := by
  rw [held?_of_absent absent, decodes, held?_concat_self absent decodes]
  rfl

/-- Members of different names are worked off one after the other, in any order, if each may come
behind those of other names. -/
theorem foldlM_members {ε σ : Type} {step : σ → String × Datum → Except ε σ}
    (state : List (String × Datum) → σ) {fits : String → Datum → Prop}
    (adds : ∀ {members name value}, (∀ value, (name, value) ∉ members) → fits name value →
      step (state members) (name, value) = .ok (state (members ++ [(name, value)])))
    {members : List (String × Datum)} (distinct : (members.map (·.1)).Nodup)
    (all : ∀ member ∈ members, fits member.1 member.2) :
    members.foldlM step (state []) = .ok (state members) := by
  induction members using List.reverseRecOn with
  | nil => rfl
  | append_singleton members member ih =>
    rw [List.map_append, List.nodup_append] at distinct
    obtain ⟨distinctBefore, _, apart⟩ := distinct
    have absent : ∀ value, (member.1, value) ∉ members := fun value found =>
      apart member.1 (List.mem_map.mpr ⟨_, found, rfl⟩) member.1 (List.mem_singleton.mpr rfl) rfl
    have here := all member (List.mem_append_right _ (List.mem_singleton.mpr rfl))
    have before := ih distinctBefore fun other found => all other (List.mem_append_left _ found)
    rw [List.foldlM_append, before]
    exact (bind_pure _).trans (adds absent here)

namespace Given

variable {omissible : Prop} {said : Datum → Prop}

/-- A value is given for a field only where it says it. -/
theorem said_of_mem (given : Given members name omissible said)
    (distinct : (members.map (·.1)).Nodup) {value : Datum} (member : (name, value) ∈ members) :
    said value := by
  cases given with
  | given other isSaid =>
    have found := (Table.lookup_eq_some_iff_mem distinct).mpr member
    cases found.symm.trans ((Table.lookup_eq_some_iff_mem distinct).mpr other)
    exact isSaid
  | leftOut allowed absent => exact absurd member (absent value)

/-- A field that is given is decoded from its value, and one that is left out has its default. -/
theorem reads (given : Given members name omissible said) (distinct : (members.map (·.1)).Nodup)
    {value default : α} (decodes : ∀ datum, said datum → decode datum = .ok value)
    (isDefault : omissible → value = default) :
    (∀ datum, (name, datum) ∈ members → decode datum = .ok value) ∧
      (held? decode members name).getD default = value := by
  refine ⟨fun datum member => decodes datum (given.said_of_mem distinct member), ?_⟩
  cases given with
  | given member isSaid => rw [held?_of_mem distinct member (decodes _ isSaid), Option.getD_some]
  | leftOut allowed absent => rw [held?_of_absent absent, Option.getD_none, isDefault allowed]

/-- A field that may not be left out is decoded from its value. -/
theorem reads_required (given : Given members name False said)
    (distinct : (members.map (·.1)).Nodup) {value : α}
    (decodes : ∀ datum, said datum → decode datum = .ok value) :
    (∀ datum, (name, datum) ∈ members → decode datum = .ok value) ∧
      held? decode members name = some value := by
  refine ⟨fun datum member => decodes datum (given.said_of_mem distinct member), ?_⟩
  cases given with
  | given member isSaid => exact held?_of_mem distinct member (decodes _ isSaid)
  | leftOut allowed => exact allowed.elim

end Given

/-! ## Texts, lists and values that may be missing -/

/-- A list of texts. -/
def ofTexts (texts : List String) : Datum :=
  .list (texts.map .text) true

theorem textsOf_map (texts : List String) : textsOf (texts.map .text) = .ok texts := by
  induction texts with
  | nil => rfl
  | cons text rest ih =>
    rw [List.map_cons, textsOf, ih]
    rfl

theorem asTexts_ofTexts (texts : List String) : asTexts (ofTexts texts) = .ok texts := by
  rw [ofTexts, asTexts, textsOf_map]
  rfl

/-- A list whose items say the items of another one. -/
def SaysList (said : α → Datum → Prop) (items : List α) (datum : Datum) : Prop :=
  ∃ data, datum = .list data true ∧ List.Forall₂ said items data

theorem asList_of_saysList {said : α → Datum → Prop}
    (decodes : ∀ item datum, said item datum → decode datum = .ok item) {items : List α}
    {datum : Datum} (list : SaysList said items datum) : asList decode datum = .ok items := by
  obtain ⟨data, rfl, matched⟩ := list
  have all : data.mapM decode = .ok items := by
    induction matched with
    | nil => rfl
    | cons here _ ih =>
      rw [List.mapM_cons, decodes _ _ here, ih]
      rfl
  rw [asList, all]
  rfl

/-- A value that may be missing: its own datum, or nothing where the format has a datum for that. -/
inductive SaysOptional (format : DocumentFormat) (ofValue : α → Datum) : Option α → Datum → Prop where
  | nothing (hasNothing : format = .json) : SaysOptional format ofValue none .nothing
  | value (value : α) : SaysOptional format ofValue (some value) (ofValue value)

theorem asOptional_of_saysOptional {format : DocumentFormat} {ofValue : α → Datum}
    (decodes : ∀ value, asOptional decode (ofValue value) = .ok (some value)) {value : Option α}
    {datum : Datum} (optional : SaysOptional format ofValue value datum) :
    asOptional decode datum = .ok value := by
  cases optional with
  | nothing => rfl
  | value value => exact decodes value

theorem asOptional_ofTexts (texts : List String) :
    asOptional asTexts (ofTexts texts) = .ok (some texts) := by
  have decoded := asTexts_ofTexts texts
  rw [ofTexts] at decoded ⊢
  rw [asOptional, decoded]
  · rfl
  · exact Datum.noConfusion

end Datum

/-- An arity is said by each of its text forms, and a count by the number. -/
inductive Arity.SaidBy : Arity → Datum → Prop where
  | text {arity : Arity} {text : String} (spelled : arity.SpelledBy (Text.trim text.toList)) :
      SaidBy arity (.text text)
  | count (count : Nat) : SaidBy (.exactly count) (.count count)

theorem Arity.decode_eq_ok_iff {datum : Datum} {arity : Arity} :
    Arity.decode datum = .ok arity ↔ arity.SaidBy datum := by
  constructor
  · intro decoded
    unfold decode at decoded
    split at decoded
    · cases decoded
      exact .count _
    · rename_i text
      cases read : ofText text with
      | ok found =>
        rw [read] at decoded
        cases decoded
        exact .text (ofText_eq_ok_iff.mp read)
      | error =>
        rw [read] at decoded
        cases decoded
    · cases decoded
  · intro said
    cases said with
    | text spelled => exact decode_text spelled
    | count => rfl

theorem Datum.asText_text (value : String) : asText (.text value) = .ok value := rfl

theorem Datum.reads_text {format : DocumentFormat} {members : List (String × Datum)}
    {name : String} {text : Option String}
    (given : Given members name (text = none) (SaysOptional format .text text))
    (distinct : (members.map (·.1)).Nodup) :
    (∀ value, (name, value) ∈ members → value.asOptional asText = .ok text) ∧
      (held? (asOptional asText) members name).getD none = text :=
  given.reads distinct (fun _ => asOptional_of_saysOptional fun _ => rfl) id

/-! ## Options and positionals -/

/-- Members that say what an option or positional takes, with its usual arity. -/
structure Datum.SaysSlot (format : DocumentFormat) (usual arity : Arity)
    (choices : Option (List String)) (provider : Option String) (members : List (String × Datum)) :
    Prop where
  arity : Given members "nargs" (arity = usual) arity.SaidBy
  choices : Given members "choices" (choices = none) (SaysOptional format ofTexts choices)
  provider : Given members "provider" (provider = none) (SaysOptional format .text provider)

namespace Datum.SaysSlot

variable {format : DocumentFormat} {usual arity : Arity} {choices : Option (List String)}
  {provider : Option String} {members : List (String × Datum)}

theorem reads_arity (slot : SaysSlot format usual arity choices provider members)
    (distinct : (members.map (·.1)).Nodup) :
    (∀ value, ("nargs", value) ∈ members → Arity.decode value = .ok arity) ∧
      (held? Arity.decode members "nargs").getD usual = arity :=
  slot.arity.reads distinct (fun _ => Arity.decode_eq_ok_iff.mpr) id

theorem reads_choices (slot : SaysSlot format usual arity choices provider members)
    (distinct : (members.map (·.1)).Nodup) :
    (∀ value, ("choices", value) ∈ members → value.asOptional asTexts = .ok choices) ∧
      (held? (asOptional asTexts) members "choices").getD none = choices :=
  slot.choices.reads distinct (fun _ => asOptional_of_saysOptional asOptional_ofTexts) id

theorem reads_provider (slot : SaysSlot format usual arity choices provider members)
    (distinct : (members.map (·.1)).Nodup) :
    (∀ value, ("provider", value) ∈ members → value.asOptional asText = .ok provider) ∧
      (held? (asOptional asText) members "provider").getD none = provider :=
  reads_text slot.provider distinct

end Datum.SaysSlot

/-- A record whose members say the fields of an option. -/
inductive OptionDocument.SaidBy (format : DocumentFormat) (option : OptionDocument) : Datum → Prop
  where
  | record {members : List (String × Datum)} (fields : Datum.Fields OptionFields.names members)
      (flags : Datum.Given members "flags" False (· = Datum.ofTexts option.flags))
      (slot : Datum.SaysSlot format (.exactly 0) option.arity option.choices option.provider members) :
      SaidBy format option (.record members true)

/-- A record whose members say the fields of a positional. -/
inductive PositionalDocument.SaidBy (format : DocumentFormat) (positional : PositionalDocument) :
    Datum → Prop where
  | record {members : List (String × Datum)} (fields : Datum.Fields PositionalFields.names members)
      (name : Datum.Given members "name" (positional.name = none)
        (Datum.SaysOptional format .text positional.name))
      (slot : Datum.SaysSlot format (.exactly 1) positional.arity positional.choices
        positional.provider members) :
      SaidBy format positional (.record members true)

namespace OptionFields

/-- A member that can be decoded as the field of its name. -/
inductive Fits : String → Datum → Prop where
  | flags {value : Datum} {flags : List String} (decodes : value.asTexts = .ok flags) :
      Fits "flags" value
  | arity {value : Datum} {arity : Arity} (decodes : Arity.decode value = .ok arity) :
      Fits "nargs" value
  | choices {value : Datum} {choices : Option (List String)}
      (decodes : value.asOptional Datum.asTexts = .ok choices) : Fits "choices" value
  | provider {value : Datum} {provider : Option String}
      (decodes : value.asOptional Datum.asText = .ok provider) : Fits "provider" value

/-- What the members of a record hold of each field. -/
def ofMembers (members : List (String × Datum)) : OptionFields :=
  { flags := Datum.held? Datum.asTexts members "flags"
    arity := Datum.held? Arity.decode members "nargs"
    choices := Datum.held? (Datum.asOptional Datum.asTexts) members "choices"
    provider := Datum.held? (Datum.asOptional Datum.asText) members "provider" }

theorem add_ofMembers {members : List (String × Datum)} {name : String} {value : Datum}
    (absent : ∀ value, (name, value) ∉ members) (fits : Fits name value) :
    (ofMembers members).add name value = .ok (ofMembers (members ++ [(name, value)])) := by
  cases fits with
  | flags decodes | arity decodes | choices decodes | provider decodes =>
    simp (disch := decide) only [add, ofMembers, Datum.once_held? absent decodes,
      Datum.held?_concat_ne]
    rfl

theorem foldlM_add {members : List (String × Datum)} (distinct : (members.map (·.1)).Nodup)
    (fits : ∀ member ∈ members, Fits member.1 member.2) :
    members.foldlM (fun fields member => fields.add member.1 member.2) ({} : OptionFields) =
      .ok (ofMembers members) :=
  Datum.foldlM_members ofMembers add_ofMembers distinct fits

end OptionFields

/-- Whatever says an option is decoded as this option. -/
theorem OptionDocument.decode_of_saidBy {format : DocumentFormat} {option : OptionDocument}
    {datum : Datum} (said : option.SaidBy format datum) :
    OptionDocument.decode format datum = .ok option := by
  cases said with
  | @record members fields flags slot =>
    obtain ⟨flagsFit, flagsHeld⟩ := flags.reads_required fields.distinct
      fun _ same => same ▸ Datum.asTexts_ofTexts option.flags
    obtain ⟨arityFits, arityHeld⟩ := slot.reads_arity fields.distinct
    obtain ⟨choicesFit, choicesHeld⟩ := slot.reads_choices fields.distinct
    obtain ⟨providerFits, providerHeld⟩ := slot.reads_provider fields.distinct
    have fits : ∀ member ∈ members, OptionFields.Fits member.1 member.2 := by
      rintro ⟨name, value⟩ member
      have known := fields.known _ member
      simp only [OptionFields.names, List.mem_cons, List.not_mem_nil, or_false] at known
      rcases known with rfl | rfl | rfl | rfl
      · exact .flags (flagsFit value member)
      · exact .arity (arityFits value member)
      · exact .choices (choicesFit value member)
      · exact .provider (providerFits value member)
    have finished : (OptionFields.ofMembers members).finish (.missingField "flags") = .ok option := by
      simp only [OptionFields.finish, OptionFields.ofMembers, flagsHeld, arityHeld, choicesHeld,
        providerHeld]
      rfl
    rw [OptionDocument.decode, OptionFields.foldlM_add fields.distinct fits]
    exact finished

namespace PositionalFields

/-- A member that can be decoded as the field of its name. -/
inductive Fits : String → Datum → Prop where
  | name {value : Datum} {name : Option String}
      (decodes : value.asOptional Datum.asText = .ok name) : Fits "name" value
  | arity {value : Datum} {arity : Arity} (decodes : Arity.decode value = .ok arity) :
      Fits "nargs" value
  | choices {value : Datum} {choices : Option (List String)}
      (decodes : value.asOptional Datum.asTexts = .ok choices) : Fits "choices" value
  | provider {value : Datum} {provider : Option String}
      (decodes : value.asOptional Datum.asText = .ok provider) : Fits "provider" value

/-- What the members of a record hold of each field. -/
def ofMembers (members : List (String × Datum)) : PositionalFields :=
  { name := Datum.held? (Datum.asOptional Datum.asText) members "name"
    arity := Datum.held? Arity.decode members "nargs"
    choices := Datum.held? (Datum.asOptional Datum.asTexts) members "choices"
    provider := Datum.held? (Datum.asOptional Datum.asText) members "provider" }

theorem add_ofMembers {members : List (String × Datum)} {name : String} {value : Datum}
    (absent : ∀ value, (name, value) ∉ members) (fits : Fits name value) :
    (ofMembers members).add name value = .ok (ofMembers (members ++ [(name, value)])) := by
  cases fits with
  | name decodes | arity decodes | choices decodes | provider decodes =>
    simp (disch := decide) only [add, ofMembers, Datum.once_held? absent decodes,
      Datum.held?_concat_ne]
    rfl

theorem foldlM_add {members : List (String × Datum)} (distinct : (members.map (·.1)).Nodup)
    (fits : ∀ member ∈ members, Fits member.1 member.2) :
    members.foldlM (fun fields member => fields.add member.1 member.2) ({} : PositionalFields) =
      .ok (ofMembers members) :=
  Datum.foldlM_members ofMembers add_ofMembers distinct fits

end PositionalFields

/-- Whatever says a positional is decoded as this positional. -/
theorem PositionalDocument.decode_of_saidBy {format : DocumentFormat}
    {positional : PositionalDocument} {datum : Datum} (said : positional.SaidBy format datum) :
    PositionalDocument.decode format datum = .ok positional := by
  cases said with
  | @record members fields name slot =>
    obtain ⟨nameFits, nameHeld⟩ := Datum.reads_text name fields.distinct
    obtain ⟨arityFits, arityHeld⟩ := slot.reads_arity fields.distinct
    obtain ⟨choicesFit, choicesHeld⟩ := slot.reads_choices fields.distinct
    obtain ⟨providerFits, providerHeld⟩ := slot.reads_provider fields.distinct
    have fits : ∀ member ∈ members, PositionalFields.Fits member.1 member.2 := by
      rintro ⟨name, value⟩ member
      have known := fields.known _ member
      simp only [PositionalFields.names, List.mem_cons, List.not_mem_nil, or_false] at known
      rcases known with rfl | rfl | rfl | rfl
      · exact .name (nameFits value member)
      · exact .arity (arityFits value member)
      · exact .choices (choicesFit value member)
      · exact .provider (providerFits value member)
    have finished : (PositionalFields.ofMembers members).finish = positional := by
      simp only [PositionalFields.finish, PositionalFields.ofMembers, nameHeld, arityHeld,
        choicesHeld, providerHeld]
    rw [PositionalDocument.decode, PositionalFields.foldlM_add fields.distinct fits]
    exact congrArg Except.ok finished

/-! ## Commands -/

/-- Members that say the fields of a command, the subcommands being said by the values of a
predicate. -/
structure CommandDocument.SaysFields (format : DocumentFormat) (document : CommandDocument)
    (saysSubcommands : Datum → Prop) (members : List (String × Datum)) : Prop where
  fields : Datum.Fields CommandFields.names members
  name : Datum.Given members "name" False (· = .text document.name)
  options : Datum.Given members "options" (document.options = [])
    (Datum.SaysList (OptionDocument.SaidBy format) document.options)
  positionals : Datum.Given members "positionals" (document.positionals = [])
    (Datum.SaysList (PositionalDocument.SaidBy format) document.positionals)
  subcommands : Datum.Given members "subcommands" (document.subcommands = []) saysSubcommands

namespace CommandDocument

mutual
/-- A record whose members say the fields of a command, and the subcommands in the same way. -/
def SaidBy (format : DocumentFormat) : CommandDocument → Datum → Prop
  | ⟨name, options, positionals, subcommands⟩, datum =>
    ∃ members, datum = .record members true ∧
      SaysFields format ⟨name, options, positionals, subcommands⟩
        (fun value => ∃ items, value = .list items true ∧ AllSaidBy format subcommands items)
        members

/-- Data that say commands one by one. -/
def AllSaidBy (format : DocumentFormat) : List CommandDocument → List Datum → Prop
  | [], items => items = []
  | document :: rest, items =>
    ∃ item others, items = item :: others ∧ document.SaidBy format item ∧
      AllSaidBy format rest others
end

end CommandDocument

namespace CommandFields

variable {format : DocumentFormat}

/-- A member that can be decoded as the field of its name. -/
inductive Fits (format : DocumentFormat) : String → Datum → Prop where
  | name {value : Datum} {name : String} (decodes : value.asText = .ok name) :
      Fits format "name" value
  | options {value : Datum} {options : List OptionDocument}
      (decodes : value.asList (OptionDocument.decode format) = .ok options) :
      Fits format "options" value
  | positionals {value : Datum} {positionals : List PositionalDocument}
      (decodes : value.asList (PositionalDocument.decode format) = .ok positionals) :
      Fits format "positionals" value
  | subcommands {value : Datum} {subcommands : List CommandDocument}
      (decodes : CommandDocument.decodeList format value = .ok subcommands) :
      Fits format "subcommands" value

/-- What the members of a record hold of each field. -/
def ofMembers (format : DocumentFormat) (members : List (String × Datum)) : CommandFields :=
  { name := Datum.held? Datum.asText members "name"
    options := Datum.held? (Datum.asList (OptionDocument.decode format)) members "options"
    positionals :=
      Datum.held? (Datum.asList (PositionalDocument.decode format)) members "positionals"
    subcommands := Datum.held? (CommandDocument.decodeList format) members "subcommands" }

theorem decodeMembers_ofMembers {members : List (String × Datum)} {name : String} {value : Datum}
    (absent : ∀ value, (name, value) ∉ members) (fits : Fits format name value) :
    CommandDocument.decodeMembers format (ofMembers format members) [(name, value)] =
      .ok (ofMembers format (members ++ [(name, value)])) := by
  cases fits with
  | name decodes | options decodes | positionals decodes | subcommands decodes =>
    simp (disch := decide) only [CommandDocument.decodeMembers, ofMembers,
      Datum.once_held? absent decodes, Datum.held?_concat_ne]
    rfl

theorem decodeMembers_cons (fields : CommandFields) (member : String × Datum)
    (rest : List (String × Datum)) :
    CommandDocument.decodeMembers format fields (member :: rest) =
      CommandDocument.decodeMembers format fields [member] >>= fun extended =>
        CommandDocument.decodeMembers format extended rest := by
  obtain ⟨name, value⟩ := member
  rw [CommandDocument.decodeMembers.eq_def, CommandDocument.decodeMembers.eq_def format fields [_]]
  simp only
  split <;> simp only [bind_assoc] <;> rfl

/-- The members are worked off one by one. -/
theorem decodeMembers_eq_foldlM (fields : CommandFields) (members : List (String × Datum)) :
    CommandDocument.decodeMembers format fields members =
      members.foldlM (fun fields member => CommandDocument.decodeMembers format fields [member])
        fields := by
  induction members generalizing fields with
  | nil => rfl
  | cons member rest ih =>
    rw [List.foldlM_cons, decodeMembers_cons]
    simp only [ih]

theorem decodeMembers_eq {members : List (String × Datum)} (distinct : (members.map (·.1)).Nodup)
    (fits : ∀ member ∈ members, Fits format member.1 member.2) :
    CommandDocument.decodeMembers format {} members = .ok (ofMembers format members) := by
  rw [decodeMembers_eq_foldlM]
  exact Datum.foldlM_members (ofMembers format) decodeMembers_ofMembers distinct fits

end CommandFields

namespace CommandDocument

variable {format : DocumentFormat}

mutual
/-- **Data say what they are decoded as.** Whatever says a document, with its fields in any order
and with defaults given or left out, is decoded as this document. -/
theorem decode_of_saidBy : ∀ (document : CommandDocument) {datum : Datum},
    document.SaidBy format datum → decode format datum = .ok document
  | ⟨command, options, positionals, subcommands⟩, _, said => by
    rw [SaidBy] at said
    obtain ⟨members, rfl, meant⟩ := said
    have distinct := meant.fields.distinct
    obtain ⟨nameFits, nameHeld⟩ := meant.name.reads_required distinct
      fun _ same => same ▸ Datum.asText_text command
    have readsOptions : ∀ datum, Datum.SaysList (OptionDocument.SaidBy format) options datum →
        datum.asList (OptionDocument.decode format) = .ok options :=
      fun _ => Datum.asList_of_saysList fun _ _ said => OptionDocument.decode_of_saidBy said
    obtain ⟨optionsFit, optionsHeld⟩ := meant.options.reads distinct readsOptions id
    have readsPositionals : ∀ datum,
        Datum.SaysList (PositionalDocument.SaidBy format) positionals datum →
        datum.asList (PositionalDocument.decode format) = .ok positionals :=
      fun _ => Datum.asList_of_saysList fun _ _ said => PositionalDocument.decode_of_saidBy said
    obtain ⟨positionalsFit, positionalsHeld⟩ := meant.positionals.reads distinct readsPositionals id
    have readsAll : ∀ datum, (∃ items, datum = .list items true ∧
        AllSaidBy format subcommands items) → decodeList format datum = .ok subcommands := by
      rintro _ ⟨items, rfl, all⟩
      rw [decodeList, decodeAll_of_allSaidBy subcommands all]
      rfl
    obtain ⟨subcommandsFit, subcommandsHeld⟩ := meant.subcommands.reads distinct readsAll id
    have fits : ∀ member ∈ members, CommandFields.Fits format member.1 member.2 := by
      rintro ⟨name, value⟩ member
      have known := meant.fields.known _ member
      simp only [CommandFields.names, List.mem_cons, List.not_mem_nil, or_false] at known
      rcases known with rfl | rfl | rfl | rfl
      · exact .name (nameFits value member)
      · exact .options (optionsFit value member)
      · exact .positionals (positionalsFit value member)
      · exact .subcommands (subcommandsFit value member)
    have finished : (CommandFields.ofMembers format members).finish (.missingField "name") =
        .ok ⟨command, options, positionals, subcommands⟩ := by
      simp only [CommandFields.finish, CommandFields.ofMembers, nameHeld, optionsHeld,
        positionalsHeld, subcommandsHeld]
      rfl
    rw [decode, CommandFields.decodeMembers_eq distinct fits]
    exact finished

theorem decodeAll_of_allSaidBy : ∀ (documents : List CommandDocument) {items : List Datum},
    AllSaidBy format documents items → decodeAll format items = .ok documents
  | [], _, said => by
    rw [AllSaidBy] at said
    subst said
    rfl
  | document :: rest, _, said => by
    rw [AllSaidBy] at said
    obtain ⟨item, others, rfl, here, later⟩ := said
    rw [decodeAll, decode_of_saidBy document here, decodeAll_of_allSaidBy rest later]
    rfl
end

end CommandDocument

end CommandCompletion
