import CommandCompletion.Proofs.Document.Stated
import CommandCompletion.Proofs.Toml.Printed

/-!
# Documents can be written

A document whose counts are below two to the sixty-fourth can be written out: every field that has
a value is given, and the arities are texts. In JSON this is one datum (`CommandDocument.datum`), in
TOML a group of statements for every option, positional and subcommand (`CommandDocument.sections`).
How deep commands may be inside each other is limited by how far the readers of the formats go
(`CommandDocument.nesting`).
-/

set_option autoImplicit false

namespace CommandCompletion

/-! ## Options and positionals -/

/-- Members that say what an option or positional takes. -/
def Datum.slotMembers (arity : Arity) (choices : Option (List String)) (provider : Option String) :
    List (String × Datum) :=
  ("nargs", .text arity.text) :: choices.toList.map (("choices", ofTexts ·)) ++
    provider.toList.map (("provider", .text ·))

/-- Members that say an option. -/
def OptionDocument.members (option : OptionDocument) : List (String × Datum) :=
  ("flags", Datum.ofTexts option.flags) ::
    Datum.slotMembers option.arity option.choices option.provider

/-- Members that say a positional. -/
def PositionalDocument.members (positional : PositionalDocument) : List (String × Datum) :=
  positional.name.toList.map (("name", .text ·)) ++
    Datum.slotMembers positional.arity positional.choices positional.provider

namespace Datum

/-- A value that is given if there is one. -/
theorem given_of_iff {α : Type} {format : DocumentFormat} {ofValue : α → Datum}
    {members : List (String × Datum)} {name : String} {value : Option α}
    (same : ∀ datum, (name, datum) ∈ members ↔ ∃ found, value = some found ∧ datum = ofValue found) :
    Given members name (value = none) (SaysOptional format ofValue value) := by
  cases value with
  | none => exact .leftOut rfl fun datum member => by simpa using (same datum).mp member
  | some found => exact .given ((same _).mpr ⟨found, rfl, rfl⟩) (.value found)

variable {format : DocumentFormat} {arity usual : Arity} {choices : Option (List String)}
  {provider : Option String} {members : List (String × Datum)}

theorem name_mem_of_mem_slotMembers {member : String × Datum}
    (found : member ∈ slotMembers arity choices provider) :
    member.1 ∈ ["nargs", "choices", "provider"] := by
  simp only [slotMembers, List.cons_append, List.mem_cons, List.mem_append, List.mem_map] at found
  rcases found with rfl | ⟨_, _, rfl⟩ | ⟨_, _, rfl⟩ <;> simp

theorem saysSlot_slotMembers (inRange : arity.InRange)
    (same : ∀ name ∈ ["nargs", "choices", "provider"], ∀ datum,
      (name, datum) ∈ members ↔ (name, datum) ∈ slotMembers arity choices provider) :
    SaysSlot format usual arity choices provider members where
  arity := .given ((same "nargs" (by decide) _).mpr List.mem_cons_self)
    (.text (Arity.spelledBy_text inRange))
  choices := given_of_iff fun datum => by
    rw [same "choices" (by decide)]
    simp [slotMembers, eq_comm]
  provider := given_of_iff fun datum => by
    rw [same "provider" (by decide)]
    simp [slotMembers, eq_comm]

end Datum

/-- Values of options and positionals. -/
inductive Datum.IsPlain : Datum → Prop where
  | text (value : String) : IsPlain (.text value)
  | texts (values : List String) : IsPlain (ofTexts values)

theorem Datum.isPlain_of_mem_slotMembers {arity : Arity} {choices : Option (List String)}
    {provider : Option String} {member : String × Datum}
    (found : member ∈ slotMembers arity choices provider) : member.2.IsPlain := by
  simp only [slotMembers, List.cons_append, List.mem_cons, List.mem_append, List.mem_map] at found
  rcases found with rfl | ⟨_, _, rfl⟩ | ⟨_, _, rfl⟩
  · exact .text _
  · exact .texts _
  · exact .text _

theorem OptionDocument.isPlain_of_mem {option : OptionDocument} {member : String × Datum}
    (found : member ∈ option.members) : member.2.IsPlain := by
  rcases List.mem_cons.mp found with rfl | slot
  · exact .texts _
  · exact Datum.isPlain_of_mem_slotMembers slot

theorem PositionalDocument.isPlain_of_mem {positional : PositionalDocument}
    {member : String × Datum} (found : member ∈ positional.members) : member.2.IsPlain := by
  rcases List.mem_append.mp found with named | slot
  · obtain ⟨_, _, rfl⟩ := List.mem_map.mp named
    exact .text _
  · exact Datum.isPlain_of_mem_slotMembers slot

theorem OptionDocument.distinct_members (option : OptionDocument) :
    (option.members.map (·.1)).Nodup := by
  obtain ⟨flags, arity, choices, provider⟩ := option
  cases choices <;> cases provider <;> simp [members, Datum.slotMembers]

theorem PositionalDocument.distinct_members (positional : PositionalDocument) :
    (positional.members.map (·.1)).Nodup := by
  obtain ⟨name, arity, choices, provider⟩ := positional
  cases name <;> cases choices <;> cases provider <;> simp [members, Datum.slotMembers]

theorem OptionDocument.known_members {option : OptionDocument} {member : String × Datum}
    (found : member ∈ option.members) : member.1 ∈ OptionFields.names := by
  rcases List.mem_cons.mp found with rfl | slot
  · exact List.mem_cons_self
  · exact List.mem_cons_of_mem _ (Datum.name_mem_of_mem_slotMembers slot)

theorem PositionalDocument.known_members {positional : PositionalDocument}
    {member : String × Datum} (found : member ∈ positional.members) :
    member.1 ∈ PositionalFields.names := by
  rcases List.mem_append.mp found with named | slot
  · obtain ⟨_, _, rfl⟩ := List.mem_map.mp named
    exact List.mem_cons_self
  · exact List.mem_cons_of_mem _ (Datum.name_mem_of_mem_slotMembers slot)

/-- The members of an option say it, in whatever order. -/
theorem OptionDocument.saidBy_members {format : DocumentFormat} {option : OptionDocument}
    (inRange : option.arity.InRange) {members : List (String × Datum)}
    (distinct : (members.map (·.1)).Nodup)
    (same : ∀ member, member ∈ members ↔ member ∈ option.members) :
    option.SaidBy format (.record members true) := by
  refine .record ⟨distinct, fun member found => known_members ((same member).mp found)⟩
    (.given ((same _).mpr List.mem_cons_self) rfl) (Datum.saysSlot_slotMembers inRange ?_)
  intro name slot datum
  rw [same, OptionDocument.members, List.mem_cons, or_iff_right]
  rintro ⟨⟩
  exact absurd slot (by decide)

theorem PositionalDocument.saidBy_members {format : DocumentFormat}
    {positional : PositionalDocument} (inRange : positional.arity.InRange)
    {members : List (String × Datum)} (distinct : (members.map (·.1)).Nodup)
    (same : ∀ member, member ∈ members ↔ member ∈ positional.members) :
    positional.SaidBy format (.record members true) := by
  refine .record ⟨distinct, fun member found => known_members ((same member).mp found)⟩
    (Datum.given_of_iff fun datum => ?_) (Datum.saysSlot_slotMembers inRange ?_)
  · rw [same]
    simp [PositionalDocument.members, Datum.slotMembers, eq_comm]
  · intro name slot datum
    rw [same, PositionalDocument.members, List.mem_append, or_iff_right]
    intro found
    obtain ⟨_, _, ⟨⟩⟩ := List.mem_map.mp found
    exact absurd slot (by decide)

/-! ## Commands -/

namespace CommandDocument

mutual
/-- All counts in a document are below two to the sixty-fourth. -/
def InRange : CommandDocument → Prop
  | ⟨_, options, positionals, subcommands⟩ =>
    (∀ option ∈ options, option.arity.InRange) ∧
      (∀ positional ∈ positionals, positional.arity.InRange) ∧ AllInRange subcommands

def AllInRange : List CommandDocument → Prop
  | [] => True
  | document :: rest => document.InRange ∧ AllInRange rest
end

mutual
/-- How many commands of a document are inside each other. -/
def nesting : CommandDocument → Nat
  | ⟨_, _, _, subcommands⟩ => nestingAll subcommands + 1

def nestingAll : List CommandDocument → Nat
  | [] => 0
  | document :: rest => max document.nesting (nestingAll rest)
end

/-! ### In JSON -/

mutual
/-- A datum that says a document, with all its fields. -/
def datum : CommandDocument → Datum
  | ⟨name, options, positionals, subcommands⟩ =>
    .record [("name", .text name),
      ("options", .list (options.map fun option => .record option.members true) true),
      ("positionals",
        .list (positionals.map fun positional => .record positional.members true) true),
      ("subcommands", .list (data subcommands) true)] true

def data : List CommandDocument → List Datum
  | [] => []
  | document :: rest => document.datum :: data rest
end

/-- Items one by one with their images. -/
theorem forall₂_map {α β : Type} {said : α → β → Prop} {image : α → β} {items : List α}
    (each : ∀ item ∈ items, said item (image item)) :
    List.Forall₂ said items (items.map image) := by
  rw [List.forall₂_map_right_iff, List.forall₂_same]
  exact each

mutual
theorem saidBy_datum : ∀ (document : CommandDocument), document.InRange →
    document.SaidBy .json document.datum
  | ⟨name, options, positionals, subcommands⟩, inRange => by
    rw [InRange] at inRange
    obtain ⟨ofOptions, ofPositionals, ofSubcommands⟩ := inRange
    have optionsSaid : List.Forall₂ (OptionDocument.SaidBy .json) options
        (options.map fun option => .record option.members true) :=
      forall₂_map fun option member =>
        OptionDocument.saidBy_members (ofOptions option member) option.distinct_members
          fun _ => Iff.rfl
    have positionalsSaid : List.Forall₂ (PositionalDocument.SaidBy .json) positionals
        (positionals.map fun positional => .record positional.members true) :=
      forall₂_map fun positional member =>
        PositionalDocument.saidBy_members (ofPositionals positional member)
          positional.distinct_members fun _ => Iff.rfl
    rw [SaidBy, datum]
    exact ⟨_, rfl, ⟨by simp, by simp [CommandFields.names]⟩, .given (by simp) rfl,
      .given (by simp) ⟨_, rfl, optionsSaid⟩, .given (by simp) ⟨_, rfl, positionalsSaid⟩,
      .given (by simp) ⟨_, rfl, allSaidBy_data subcommands ofSubcommands⟩⟩

theorem allSaidBy_data : ∀ (documents : List CommandDocument), AllInRange documents →
    AllSaidBy .json documents (data documents)
  | [], _ => by rw [AllSaidBy, data]
  | document :: rest, inRange => by
    rw [AllInRange] at inRange
    rw [AllSaidBy, data]
    exact ⟨_, _, rfl, saidBy_datum document inRange.1, allSaidBy_data rest inRange.2⟩
end

theorem exists_written_of_isPlain (room : Nat) {value : Datum} (plain : value.IsPlain) :
    ∃ text, Json.Written (room + 1) value text := by
  cases plain with
  | text value => exact ⟨_, Json.written_quoted _ value⟩
  | texts values =>
    refine Json.exists_written_list fun item member => ?_
    obtain ⟨value, _, rfl⟩ := List.mem_map.mp member
    exact ⟨_, Json.written_quoted _ value⟩

/-- Records of plain values. -/
theorem exists_written_records {α : Type} (room : Nat) (members : α → List (String × Datum))
    (plain : ∀ item, ∀ member ∈ members item, member.2.IsPlain) (items : List α) :
    ∃ text, Json.Written (room + 3) (.list (items.map fun item => .record (members item) true) true)
      text := by
  refine Json.exists_written_list fun record member => ?_
  obtain ⟨item, _, rfl⟩ := List.mem_map.mp member
  exact Json.exists_written_record fun member found =>
    exists_written_of_isPlain room (plain item member found)

mutual
theorem exists_written_datum : ∀ (document : CommandDocument) {room : Nat},
    2 * document.nesting + 2 ≤ room → ∃ text, Json.Written room document.datum text
  | ⟨name, options, positionals, subcommands⟩, room, shallow => by
    rw [nesting] at shallow
    obtain ⟨inner, rfl⟩ : ∃ inner, room = inner + 3 + 1 := ⟨room - 4, by omega⟩
    have subcommandsWritten : ∃ text, Json.Written (inner + 3) (.list (data subcommands) true) text :=
      Json.exists_written_list (exists_written_data subcommands (by omega))
    rw [datum]
    refine Json.exists_written_record ?_
    simp only [List.forall_mem_cons, List.not_mem_nil, false_implies, implies_true, and_true]
    exact ⟨⟨_, Json.written_quoted _ name⟩,
      exists_written_records inner _ (fun _ _ => OptionDocument.isPlain_of_mem) options,
      exists_written_records inner _ (fun _ _ => PositionalDocument.isPlain_of_mem) positionals,
      subcommandsWritten⟩

theorem exists_written_data : ∀ (documents : List CommandDocument) {room : Nat},
    2 * nestingAll documents + 2 ≤ room → ∀ item ∈ data documents, ∃ text, Json.Written room item text
  | [], _, _ => by
    rw [data]
    exact fun _ member => absurd member List.not_mem_nil
  | document :: rest, _, shallow => by
    rw [nestingAll] at shallow
    rw [data, List.forall_mem_cons]
    exact ⟨exists_written_datum document (by omega), exists_written_data rest (by omega)⟩
end

/-! ### In TOML -/

open Toml

mutual
/-- Groups of statements that say a document, with all its fields but the name. -/
def sections : CommandDocument → List Section
  | ⟨_, options, positionals, subcommands⟩ =>
    options.map (.oneMore "options" ·.members) ++
      positionals.map (.oneMore "positionals" ·.members) ++ sectionsOfAll subcommands

def sectionsOfAll : List CommandDocument → List Section
  | [] => []
  | document :: rest =>
    .oneMore "subcommands" [("name", .text document.name)] ::
      document.sections.map (.under "subcommands") ++ sectionsOfAll rest
end

theorem head_sectionsOfAll : ∀ (documents : List CommandDocument),
    ∀ part ∈ sectionsOfAll documents, part.head = "subcommands"
  | [] => by
    rw [sectionsOfAll]
    exact fun _ member => absurd member List.not_mem_nil
  | document :: rest => by
    rw [sectionsOfAll]
    intro part member
    rcases List.mem_append.mp member with here | later
    · rcases List.mem_cons.mp here with rfl | inside
      · rfl
      · obtain ⟨inner, _, rfl⟩ := List.mem_map.mp inside
        rfl
    · exact head_sectionsOfAll rest part later

theorem head_map_oneMore {α : Type} (name : String) (members : α → List (String × Datum))
    (items : List α) :
    ∀ part ∈ items.map fun item => Section.oneMore name (members item), part.head = name := by
  intro part member
  obtain ⟨_, _, rfl⟩ := List.mem_map.mp member
  rfl

/-- Groups of one member among groups of other members. -/
theorem ofMember_self {name : String} {parts : List Section}
    (heads : ∀ part ∈ parts, part.head = name) : Section.ofMember name parts = parts := by
  rw [Section.ofMember, List.filter_eq_self]
  exact fun part member => decide_eq_true (heads part member)

theorem ofMember_other {name other : String} {parts : List Section} (different : other ≠ name)
    (heads : ∀ part ∈ parts, part.head = other) : Section.ofMember name parts = [] :=
  Section.ofMember_eq_nil (fun part member => List.mem_singleton.mpr (heads part member))
    (by simpa using different.symm)

theorem ofMember_append (name : String) (parts others : List Section) :
    Section.ofMember name (parts ++ others) =
      Section.ofMember name parts ++ Section.ofMember name others :=
  List.filter_append ..

/-- The table of the members says what they say in any order. -/
theorem statesItem_members {α : Type} {name : String} {said : α → Datum → Prop}
    {members : α → List (String × Datum)} {item : α} (distinct : ((members item).map (·.1)).Nodup)
    (saidInOrder : ∀ {ordered : List (String × Datum)}, (ordered.map (·.1)).Nodup →
      (∀ member, member ∈ ordered ↔ member ∈ members item) → said item (.record ordered true)) :
    StatesItem name said item (.oneMore name (members item)) := by
  refine ⟨_, rfl, distinct, saidInOrder (Table.nodup_keys _) ?_⟩
  rintro ⟨key, value⟩
  rw [← Table.get?_ofList_eq_some_iff distinct]
  exact (Table.lookup_eq_some_iff_mem (Table.nodup_keys _)).symm

mutual
theorem statedBy_sections : ∀ (document : CommandDocument), document.InRange →
    document.StatedBy [("name", .text document.name)] document.sections
  | ⟨name, options, positionals, subcommands⟩, inRange => by
    rw [InRange] at inRange
    obtain ⟨ofOptions, ofPositionals, ofSubcommands⟩ := inRange
    have optionHeads := head_map_oneMore "options" OptionDocument.members options
    have positionalHeads := head_map_oneMore "positionals" PositionalDocument.members positionals
    have subcommandHeads := head_sectionsOfAll subcommands
    have optionsStated : List.Forall₂ (StatesItem "options" (OptionDocument.SaidBy .toml)) options
        (options.map fun option => .oneMore "options" option.members) :=
      forall₂_map fun option member => statesItem_members option.distinct_members
        (OptionDocument.saidBy_members (ofOptions option member))
    have positionalsStated : List.Forall₂
        (StatesItem "positionals" (PositionalDocument.SaidBy .toml)) positionals
        (positionals.map fun positional => .oneMore "positionals" positional.members) :=
      forall₂_map fun positional member => statesItem_members positional.distinct_members
        (PositionalDocument.saidBy_members (ofPositionals positional member))
    rw [StatedBy, sections]
    refine ⟨⟨by simp, by simp [CommandFields.names]⟩, ?heads, .given (by simp) rfl,
      .tables (by simp) ?optionGroups, .tables (by simp) ?positionalGroups,
      .tables (by simp) ?subcommandGroups⟩
    case heads =>
      intro part member
      simp only [List.mem_append] at member
      rcases member with (option | positional) | subcommand
      · simp [optionHeads part option]
      · simp [positionalHeads part positional]
      · simp [subcommandHeads part subcommand]
    case optionGroups =>
      rwa [ofMember_append, ofMember_append, ofMember_self optionHeads,
        ofMember_other (by decide) positionalHeads, ofMember_other (by decide) subcommandHeads,
        List.append_nil, List.append_nil]
    case positionalGroups =>
      rwa [ofMember_append, ofMember_append, ofMember_other (by decide) optionHeads,
        ofMember_self positionalHeads, ofMember_other (by decide) subcommandHeads,
        List.append_nil, List.nil_append]
    case subcommandGroups =>
      rw [ofMember_append, ofMember_append, ofMember_other (by decide) optionHeads,
        ofMember_other (by decide) positionalHeads, ofMember_self subcommandHeads, List.nil_append,
        List.nil_append]
      exact allStatedBy_sectionsOfAll subcommands ofSubcommands

theorem allStatedBy_sectionsOfAll : ∀ (documents : List CommandDocument), AllInRange documents →
    AllStatedBy documents (sectionsOfAll documents)
  | [], _ => by rw [AllStatedBy, sectionsOfAll]
  | document :: rest, inRange => by
    rw [AllInRange] at inRange
    rw [AllStatedBy, sectionsOfAll]
    exact ⟨_, _, _, rfl, statedBy_sections document inRange.1,
      allStatedBy_sectionsOfAll rest inRange.2⟩
end

/-- A group whose statements can be written, with less than so many names in front of the last one
in its header. -/
structure Spellable (room : Nat) (part : Section) : Prop where
  several : part.several = true
  names : ∀ name ∈ part.key.path ++ [part.key.name],
    name ∈ ["options", "positionals", "subcommands"]
  short : part.key.path.length < room
  assignments : ∀ assignment ∈ part.assignments,
    ∃ text, SpelledStatement (.assignment assignment.1 assignment.2) text

theorem exists_spelled_assignment {name : String} {value : Datum} (bare : isBareName name = true)
    (plain : value.IsPlain) : ∃ text, SpelledStatement (.assignment ⟨[], name⟩ value) text := by
  cases plain with
  | text value => exact ⟨_, spelledStatement_of_bare bare (written_basicLine _ value)⟩
  | texts values => exact ⟨_, spelledStatement_of_bare bare (written_texts 79 values)⟩

/-- The names of fields are written as they are. -/
theorem isBareName_of_field {name : String}
    (field : name ∈ OptionFields.names ++ PositionalFields.names) :
    isBareName name = true := by
  have all : ∀ name ∈ OptionFields.names ++ PositionalFields.names, isBareName name = true := by
    decide +kernel
  exact all name field

theorem spellable_oneMore {name : String} {members : List (String × Datum)} {room : Nat}
    (listed : name ∈ ["options", "positionals", "subcommands"]) (roomy : 0 < room)
    (fields : ∀ member ∈ members, member.1 ∈ OptionFields.names ++ PositionalFields.names)
    (plain : ∀ member ∈ members, member.2.IsPlain) : Spellable room (.oneMore name members) where
  several := rfl
  names := by simpa [Section.oneMore] using listed
  short := roomy
  assignments := by
    intro assignment found
    obtain ⟨member, inside, rfl⟩ := List.mem_map.mp found
    exact exists_spelled_assignment (isBareName_of_field (fields member inside))
      (plain member inside)

theorem Spellable.under {room : Nat} {part : Section} (spellable : Spellable room part) :
    Spellable (room + 1) (part.under "subcommands") where
  several := spellable.several
  names := by
    intro name member
    rcases List.mem_cons.mp member with rfl | inside
    · decide
    · exact spellable.names name inside
  short := Nat.succ_lt_succ spellable.short
  assignments := spellable.assignments

theorem Spellable.mono {room more : Nat} {part : Section} (spellable : Spellable room part)
    (least : room ≤ more) : Spellable more part :=
  { spellable with short := Nat.lt_of_lt_of_le spellable.short least }

mutual
theorem spellable_sections : ∀ (document : CommandDocument), ∀ part ∈ document.sections,
    Spellable document.nesting part
  | ⟨name, options, positionals, subcommands⟩ => by
    rw [sections, nesting]
    intro part member
    simp only [List.mem_append] at member
    rcases member with (inOptions | inPositionals) | inSubcommands
    · obtain ⟨option, _, rfl⟩ := List.mem_map.mp inOptions
      exact spellable_oneMore (by decide) (Nat.succ_pos _)
        (fun _ found => List.mem_append_left _ (OptionDocument.known_members found))
        fun _ => OptionDocument.isPlain_of_mem
    · obtain ⟨positional, _, rfl⟩ := List.mem_map.mp inPositionals
      exact spellable_oneMore (by decide) (Nat.succ_pos _)
        (fun _ found => List.mem_append_right _ (PositionalDocument.known_members found))
        fun _ => PositionalDocument.isPlain_of_mem
    · exact spellable_sectionsOfAll subcommands part inSubcommands

theorem spellable_sectionsOfAll : ∀ (documents : List CommandDocument),
    ∀ part ∈ sectionsOfAll documents, Spellable (nestingAll documents + 1) part
  | [] => by
    rw [sectionsOfAll]
    exact fun _ member => absurd member List.not_mem_nil
  | document :: rest => by
    rw [sectionsOfAll, nestingAll]
    intro part member
    rcases List.mem_append.mp member with here | later
    · rcases List.mem_cons.mp here with rfl | inside
      · refine spellable_oneMore (by decide) (Nat.succ_pos _) ?_ ?_
        · simp [OptionFields.names, PositionalFields.names]
        · simpa using Datum.IsPlain.text document.name
      · obtain ⟨inner, found, rfl⟩ := List.mem_map.mp inside
        exact (spellable_sections document inner found).under.mono (by omega)
    · exact (spellable_sectionsOfAll rest part later).mono (by omega)
end

theorem exists_spelledKey {key : Key} (few : key.path.length < KeyReading.maximalLength)
    (names : ∀ name ∈ key.path ++ [key.name], name ∈ ["options", "positionals", "subcommands"]) :
    ∃ text, SpelledKey key text := by
  have bare : ∀ name ∈ ["options", "positionals", "subcommands"],
      isBareName name = true ∧ '-' ∉ name.toList := by
    decide +kernel
  exact ⟨_, spelledKey_of_bare (fun part member => bare part (names part member)) few⟩

/-- The statements of a document that is not nested too deep can be written. -/
theorem exists_writtenLines_sections (document : CommandDocument)
    (shallow : document.nesting ≤ KeyReading.maximalLength) :
    ∃ text, WrittenLines (statementsOf (Members.simple [("name", .text document.name)])
      document.sections) text := by
  refine exists_writtenLines fun statement member => ?_
  rcases List.mem_append.mp member with own | inside
  · obtain ⟨_, found, rfl⟩ := List.mem_map.mp own
    cases List.mem_singleton.mp found
    have bare : isBareName "name" = true := by decide +kernel
    exact exists_spelled_assignment bare (.text document.name)
  · obtain ⟨part, found, inPart⟩ := List.mem_flatMap.mp inside
    have spellable := document.spellable_sections part found
    rw [spellable.several, if_pos rfl] at inPart
    rcases List.mem_cons.mp inPart with rfl | assigned
    · obtain ⟨text, spelled⟩ :=
        exists_spelledKey (Nat.lt_of_lt_of_le spellable.short shallow) spellable.names
      exact ⟨_, .oneMore spelled .nil .nil⟩
    · obtain ⟨assignment, among, rfl⟩ := List.mem_map.mp assigned
      exact spellable.assignments assignment among

end CommandDocument

end CommandCompletion
