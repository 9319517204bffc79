import CommandCompletion.Proofs.Index.Content
import CommandCompletion.Proofs.Script.Assembled
import CommandCompletion.Proofs.Script.Rows

/-!
# No mark is left in a script

The texts of a script that come from its user are the names, flags and choices of the
specification, the marker and the separator, the name of the program, the caller's own code,
and the functions that are bound to providers (`userTexts`). If none of them holds an at sign,
the header and the tables hold none either, since quoting, escaping and joining add none, and
no mark of a hole stands anywhere in the script.

Together with the equality of a script and the one assembled from pieces this says that no
text of the user's can bring a hole into the templates, and that no hole is missed
(`render_assembled`).
-/

set_option autoImplicit false

namespace CommandCompletion

/-! ## The texts of a user -/

namespace Command

/-- The texts of a command that a script holds: its name, the names of its subcommands, its flags
and its choices. -/
def ownTexts (command : Command) : List String :=
  command.name :: command.subcommandNames ++
    (command.options.flatMap fun option => option.flags ++ option.choices.getD []) ++
    command.positionals.flatMap fun positional => positional.choices.getD []

/-- The texts of a specification that a script holds. -/
def texts (root : Command) : List String :=
  root.preorder.flatMap fun visit => visit.command.ownTexts

theorem mem_texts {root : Command} (place : Place root) {text : String}
    (own : text ∈ place.command.ownTexts) : text ∈ root.texts :=
  List.mem_flatMap.mpr ⟨place.visit, mem_preorder_iff.mpr ⟨place, rfl⟩, own⟩

variable {command : Command}

theorem name_mem_ownTexts : command.name ∈ command.ownTexts := by
  simp [ownTexts]

theorem subcommandName_mem_ownTexts {name : String} (listed : name ∈ command.subcommandNames) :
    name ∈ command.ownTexts := by
  simp [ownTexts, listed]

theorem flag_mem_ownTexts {option : OptionDecl} {flag : String}
    (declared : option ∈ command.options) (listed : flag ∈ option.flags) :
    flag ∈ command.ownTexts := by
  have inside :
      flag ∈ command.options.flatMap fun option => option.flags ++ option.choices.getD [] :=
    List.mem_flatMap.mpr ⟨option, declared, List.mem_append_left _ listed⟩
  exact List.mem_append_left _ (List.mem_append_right _ inside)

theorem choice_mem_ownTexts {slot value : String} {data : SlotData} {values : List String}
    (declares : command.Declares slot data) (given : data.choices = some values)
    (listed : value ∈ values) : value ∈ command.ownTexts := by
  cases declares with
  | @flag option flag declared _ =>
    have inside : value ∈ command.options.flatMap fun option =>
        option.flags ++ option.choices.getD [] := by
      refine List.mem_flatMap.mpr ⟨option, declared, List.mem_append_right _ ?_⟩
      have choices : option.choices = some values := given
      rwa [choices, Option.getD_some]
    exact List.mem_append_left _ (List.mem_append_right _ inside)
  | @positional place positional declared =>
    refine List.mem_append_right _ (List.mem_flatMap.mpr
      ⟨positional, List.mem_of_getElem? declared, ?_⟩)
    have choices : positional.choices = some values := given
    rwa [choices, Option.getD_some]

end Command

namespace Script

/-- The texts of a script that come from its user. -/
def userTexts (root : Command) (description : Description) (shell : Shell)
    (options : ScriptOptions) : List String :=
  root.texts ++ [description.separator, description.marker] ++ options.program.toList ++
    options.preamble.toList ++ options.bindings.entries.filterMap (·.2.get? shell)

/-! ## Quoting and escaping add no at sign -/

/-- Writing a text character by character adds no at sign if writing a character does not. -/
theorem at_notMem_flatMap {text : List Char} {write : Char → List Char}
    (each : ∀ c, c ≠ '@' → '@' ∉ write c) (free : '@' ∉ text) : '@' ∉ text.flatMap write := by
  intro inside
  obtain ⟨c, member, written⟩ := List.mem_flatMap.mp inside
  exact each c (fun same => free (same ▸ member)) written

theorem at_notMem_backslashed {text : List Char} (free : '@' ∉ text) : '@' ∉ backslashed text := by
  refine at_notMem_flatMap (fun c ordinary => ?_) free
  split <;> simp [Ne.symm ordinary]

theorem at_notMem_posixQuote {text : List Char} (free : '@' ∉ text) : '@' ∉ posixQuote text := by
  have inside : '@' ∉ text.flatMap fun c => if c = '\'' then ['\'', '\\', '\'', '\''] else [c] := by
    refine at_notMem_flatMap (fun c ordinary => ?_) free
    split <;> simp [Ne.symm ordinary]
  simpa [posixQuote] using inside

theorem at_notMem_fishQuote {text : List Char} (free : '@' ∉ text) : '@' ∉ fishQuote text := by
  simpa [fishQuote] using at_notMem_backslashed free

theorem at_notMem_quote (shell : Shell) {text : List Char} (free : '@' ∉ text) :
    '@' ∉ (emitterFor shell).quote text := by
  cases shell with
  | bash | zsh => exact at_notMem_posixQuote free
  | fish => exact at_notMem_fishQuote free

theorem at_notMem_joinWith {separator : List Char} {texts : List (List Char)}
    (joint : '@' ∉ separator) (free : ∀ text ∈ texts, '@' ∉ text) :
    '@' ∉ joinWith separator texts := by
  induction texts with
  | nil => exact List.not_mem_nil
  | cons first others ih =>
    obtain ⟨own, rest⟩ := List.forall_mem_cons.mp free
    cases others with
    | nil => exact own
    | cons second further =>
      have later := ih rest
      simp only [joinWith, List.mem_append, not_or]
      exact ⟨⟨own, joint⟩, later⟩

theorem at_notMem_quoteLines (shell : Shell) {values : List (List Char)}
    (free : ∀ value ∈ values, '@' ∉ value) : '@' ∉ quoteLines shell values := by
  have joined (quote : List Char → List Char) (each : ∀ text, '@' ∉ text → '@' ∉ quote text) :
      '@' ∉ joinWith ['\\', 'n'] (values.map quote) := by
    refine at_notMem_joinWith (by decide) fun text member => ?_
    obtain ⟨value, listed, rfl⟩ := List.mem_map.mp member
    exact each value (free value listed)
  cases shell with
  | bash | zsh =>
    have inside := joined backslashed fun _ => at_notMem_backslashed
    simp only [quoteLines, ansiLines]
    split
    · decide
    · simpa using inside
  | fish =>
    have inside := joined fishQuote fun _ => at_notMem_fishQuote
    simp only [quoteLines, fishLines]
    split
    · decide
    · exact inside

/-- The digits of a number are no at signs. -/
theorem at_notMem_toDigits {base : Nat} (large : 1 < base) (value : Nat) :
    '@' ∉ Nat.toDigits base value :=
  Text.notMem_toDigits (fun _ => Nat.digitChar_ne '@' (by decide)) large value

theorem at_notMem_asciiForm {text : String} (free : '@' ∉ text.toList) :
    '@' ∉ (Text.asciiForm text).toList := by
  rw [Text.asciiForm, String.toList_ofList]
  refine at_notMem_flatMap (fun c ordinary => ?_) free
  have digits := at_notMem_toDigits (by decide : 1 < 16) c.toNat
  unfold Text.asciiFormChar Text.numberedForm Text.hexadecimal
  split_ifs <;> simp [Ne.symm ordinary, digits]

theorem at_notMem_header (shell : Shell) {program : String} (free : '@' ∉ program.toList) :
    '@' ∉ (emitterFor shell).header program := by
  have shown := at_notMem_asciiForm free
  have fixed : '@' ∉ generatedLine.toList := by decide
  cases shell <;>
    simp [emitterFor, Bash.emitter, Zsh.emitter, Fish.emitter, Bash.header, Zsh.header,
      Fish.header, lines, shown, fixed]

/-! ## The tables -/

theorem at_notMem_of_isNameCharacter {name : List Char}
    (valid : ∀ c ∈ name, isNameCharacter c = true) : '@' ∉ name := by
  intro member
  exact absurd (valid '@' member) (by decide)

/-- A row without at signs. -/
def RowFree (row : String × List String) : Prop :=
  '@' ∉ row.1.toList ∧ ∀ value ∈ row.2, '@' ∉ value.toList

theorem at_notMem_rows {rows : List (String × List String)}
    (free : ∀ row ∈ rows, RowFree row) {write : String × List String → List Char}
    (each : ∀ row, RowFree row → '@' ∉ write row) : '@' ∉ rows.flatMap write := by
  intro inside
  obtain ⟨row, member, written⟩ := List.mem_flatMap.mp inside
  exact each row (free row member) written

theorem RowFree.quoteLines {row : String × List String} (free : RowFree row) (shell : Shell) :
    '@' ∉ quoteLines shell (row.2.map String.toList) := by
  refine at_notMem_quoteLines shell fun text member => ?_
  obtain ⟨value, listed, rfl⟩ := List.mem_map.mp member
  exact free.2 value listed

theorem at_notMem_table (shell : Shell) {stem : List Char} {table : ScriptTable}
    (valid : ∀ c ∈ (table.written stem).name, isNameCharacter c = true)
    (rows : ∀ row ∈ table.rows, RowFree row) : '@' ∉ writeTable shell stem table := by
  have name := at_notMem_of_isNameCharacter valid
  simp only [ScriptTable.written, tableName, List.mem_append, not_or] at name
  obtain ⟨⟨stem, joint⟩, own⟩ := name
  cases shell with
  | bash =>
    unfold writeTable Bash.table
    simp only [List.mem_append, not_or]
    refine ⟨⟨⟨⟨⟨⟨by decide, stem⟩, joint⟩, own⟩, by decide⟩, ?_⟩, by decide⟩
    refine at_notMem_rows rows fun row free => ?_
    simp only [List.mem_append, not_or]
    exact ⟨⟨⟨⟨by decide, at_notMem_posixQuote free.1⟩, by decide⟩, free.quoteLines .bash⟩,
      by decide⟩
  | zsh =>
    unfold writeTable Zsh.table
    simp only [List.mem_append, not_or]
    refine ⟨⟨⟨⟨⟨⟨by decide, ⟨stem, joint⟩, own⟩, by decide⟩, ⟨stem, joint⟩, own⟩, by decide⟩, ?_⟩,
      by decide⟩
    refine at_notMem_rows rows fun row free => ?_
    simp only [List.mem_append, not_or]
    exact ⟨⟨⟨⟨by decide, at_notMem_posixQuote free.1⟩, by decide⟩, free.quoteLines .zsh⟩,
      by decide⟩
  | fish =>
    unfold writeTable Fish.table Fish.continued
    simp only [List.mem_append, not_or]
    refine ⟨⟨⟨⟨⟨⟨⟨⟨⟨⟨by decide, stem⟩, joint⟩, own⟩, by decide⟩, by decide⟩, ?_⟩, by decide⟩, ?_⟩,
      by decide⟩, by decide⟩
    · refine at_notMem_rows rows fun row free => ?_
      simp only [List.mem_append, not_or]
      exact ⟨by decide, at_notMem_fishQuote free.1⟩
    · refine at_notMem_rows rows fun row free => ?_
      simp only [List.mem_append, not_or]
      exact ⟨by decide, free.quoteLines .fish⟩

/-- The table section of a plan without at signs in its rows and keys holds none. -/
theorem at_notMem_tables (shell : Shell) {plan : Plan} (named : plan.Named)
    (keys : ∀ key ∈ plan.keys, '@' ∉ key.toList)
    (rows : ∀ table ∈ plan.tables, ∀ row ∈ table.rows, RowFree row) :
    '@' ∉ (emitterFor shell).tables plan := by
  have each : '@' ∉ plan.tables.flatMap (writeTable shell plan.function) := by
    intro inside
    obtain ⟨table, member, written⟩ := List.mem_flatMap.mp inside
    exact at_notMem_table shell (named.written member) (rows table member) written
  cases shell with
  | bash | zsh => exact each
  | fish =>
    have stem := at_notMem_of_isNameCharacter named.stem
    have list : '@' ∉ Fish.keyList plan := by
      unfold Fish.keyList Fish.continued
      simp only [List.mem_append, not_or]
      refine ⟨⟨⟨⟨by decide, stem⟩, by decide⟩, fun inside => ?_⟩, by decide⟩
      obtain ⟨key, member, written⟩ := List.mem_flatMap.mp inside
      rcases List.mem_append.mp written with fixed | quoted
      · exact absurd fixed (by decide)
      · exact at_notMem_fishQuote (keys key member) quoted
    exact fun inside => (List.mem_append.mp inside).elim list each

/-! ## What an index holds of its specification -/

theorem mem_foldl_insert {α : Type} {entries : List (String × α)} {table : Table α}
    {entry : String × α}
    (member : entry ∈
      (entries.foldl (fun table entry => table.insert entry.1 entry.2) table).entries) :
    entry ∈ table.entries ∨ entry ∈ entries := by
  induction entries generalizing table with
  | nil => exact .inl member
  | cons first rest ih =>
    rcases ih member with before | later
    · rcases Table.mem_insertEntry before with rfl | old
      · exact .inr List.mem_cons_self
      · exact .inl old
    · exact .inr (List.mem_cons_of_mem first later)

/-- What a table made from a list holds stands in the list. -/
theorem mem_of_mem_ofList {α : Type} {entries : List (String × α)} {entry : String × α}
    (member : entry ∈ (Table.ofList entries).entries) : entry ∈ entries :=
  (mem_foldl_insert member).resolve_left List.not_mem_nil

theorem at_notMem_slotKey {key slot : String} (keyFree : '@' ∉ key.toList)
    (slotFree : '@' ∉ slot.toList) : '@' ∉ (slotKey key slot).toList := by
  simp [slotKey, keyFree, slotFree]

theorem at_notMem_text (arity : Arity) : '@' ∉ arity.text.toList := by
  cases arity with
  | «exactly» count =>
    rw [Arity.text, Nat.toString_eq_ofList_toDigits, String.toList_ofList]
    exact at_notMem_toDigits (by decide) count
  | optional | zeroOrMore | oneOrMore | remainder => decide

section Holds

variable {root : Command} {index : Index}

/-- A function that is bound to a provider stands among the functions of the bindings. -/
theorem resolve_mem {bindings : Bindings} {provider function : String} {shell : Shell}
    (resolved : bindings.resolve provider shell = some function) :
    function ∈ bindings.entries.filterMap (·.2.get? shell) := by
  obtain ⟨functions, found, given⟩ := Option.bind_eq_some_iff.mp resolved
  exact List.mem_filterMap.mpr
    ⟨(provider, functions), (Table.lookup_eq_some_iff_mem bindings.nodup_keys).mp found, given⟩

/-- What an index holds describes a command. -/
theorem exists_described (holds : index.Holds root) {key : String} {own : IndexEntry}
    (member : (key, own) ∈ index.entries.entries) :
    ∃ place : Place root, place.key = key ∧ own.Describes place.command := by
  have found : index.entries.get? key = some own :=
    (Table.lookup_eq_some_iff_mem index.entries.nodup_keys).mpr member
  obtain ⟨place, rfl⟩ := holds.only key own found
  obtain ⟨_, foundToo, describes⟩ := holds.held place
  cases found.symm.trans foundToo
  exact ⟨place, rfl, describes⟩

variable (free : ∀ text ∈ root.texts, '@' ∉ text.toList)
include free

theorem at_notMem_key (place : Place root) : '@' ∉ place.key.toList := by
  induction place using Place.induction with
  | program =>
    rw [Place.key_program]
    exact free _ (Command.mem_texts (.program root) Command.name_mem_ownTexts)
  | child place number inside ih =>
    have name := free _ (Command.mem_texts (place.child number inside) Command.name_mem_ownTexts)
    rw [Place.key_child, childKey]
    simp [ih, name]

theorem at_notMem_slot {place : Place root} {slot : String} {data : Command.SlotData}
    (declares : place.command.Declares slot data) : '@' ∉ slot.toList := by
  cases declares with
  | flag declared listed =>
    exact free _ (Command.mem_texts place (Command.flag_mem_ownTexts declared listed))
  | @positional place positional declared =>
    have digits := at_notMem_toDigits (by decide : 1 < 10) place
    simp [positionalKey, digits]

/-- The key of a row about a slot that a table of the index has, and what is declared of it. -/
theorem slot_free (holds : index.Holds root) {α : Type} {slots : IndexEntry → Table α}
    (part : Command.SlotData → Option α) {entry : String × Table α} {slot : String × α}
    (member : entry ∈ (index.entries.map slots).entries) (listed : slot ∈ entry.2.entries)
    (held : ∀ (own : IndexEntry) (command : Command), own.Describes command → ∀ value,
      (slots own).get? slot.1 = some value ↔
        ∃ data, command.Declares slot.1 data ∧ part data = some value) :
    '@' ∉ (slotKey entry.1 slot.1).toList ∧ ∃ (place : Place root) (data : Command.SlotData),
      place.command.Declares slot.1 data ∧ part data = some slot.2 := by
  obtain ⟨⟨key, own⟩, ownMember, rfl⟩ := List.mem_map.mp member
  obtain ⟨place, rfl, describes⟩ := exists_described holds ownMember
  have found : (slots own).get? slot.1 = some slot.2 :=
    (Table.lookup_eq_some_iff_mem (slots own).nodup_keys).mpr listed
  obtain ⟨data, declares, given⟩ := (held own place.command describes slot.2).mp found
  exact ⟨at_notMem_slotKey (at_notMem_key free place) (at_notMem_slot free declares),
    place, data, declares, given⟩

theorem rows_free (holds : index.Holds root) (shell : Shell) (bindings : Bindings)
    (bound : ∀ text ∈ bindings.entries.filterMap (·.2.get? shell), '@' ∉ text.toList) :
    ∀ table ∈ Plan.tablesOf index shell bindings, ∀ row ∈ table.rows, RowFree row := by
  simp only [Plan.tablesOf, List.forall_mem_cons]
  refine ⟨?_, ?_, ?_, ?_, ?_, List.forall_mem_nil _⟩
  · intro row member
    obtain ⟨⟨key, own⟩, ownMember, rfl⟩ := List.mem_map.mp member
    obtain ⟨place, rfl, describes⟩ := exists_described holds ownMember
    refine ⟨at_notMem_key free place, fun name listed => ?_⟩
    have listed : name ∈ own.subcommands := listed
    rw [describes.subcommands] at listed
    exact free _ (Command.mem_texts place (Command.subcommandName_mem_ownTexts listed))
  · intro row member
    obtain ⟨⟨key, own⟩, ownMember, rfl⟩ := List.mem_map.mp member
    obtain ⟨place, rfl, describes⟩ := exists_described holds ownMember
    refine ⟨at_notMem_key free place, fun flag listed => ?_⟩
    have listed : flag ∈ own.flags := listed
    rw [describes.flags, List.mem_eraseDups] at listed
    obtain ⟨option, declared, inside⟩ := List.mem_flatMap.mp listed
    exact free _ (Command.mem_texts place (Command.flag_mem_ownTexts declared inside))
  · intro row member
    rw [slotRows_eq_slotPairs, mem_slotPairs_iff] at member
    obtain ⟨entry, entryMember, slot, listed, given, same⟩ := member
    obtain ⟨keyFree, place, data, declares, values⟩ :=
      slot_free free holds (·.choices) entryMember listed fun own command describes value =>
        describes.choices slot.1 value
    rw [RowFree, ← same, ← Option.some.inj given]
    exact ⟨keyFree, fun value inside =>
      free _ (Command.mem_texts place (Command.choice_mem_ownTexts declares values inside))⟩
  · intro row member
    obtain ⟨function, functionMember, rfl⟩ := List.mem_map.mp member
    obtain ⟨entry, entryMember, slot, listed, resolved, same⟩ :=
      (mem_slotPairs_iff (bindings.resolve · shell)).mp (mem_of_mem_ofList functionMember)
    have keyFree := (slot_free free holds (·.provider) entryMember listed
      fun own command describes value => describes.providers slot.1 value).1
    rw [RowFree, ← same]
    refine ⟨keyFree, fun value inside => ?_⟩
    rw [List.mem_singleton.mp inside]
    exact bound _ (resolve_mem resolved)
  · intro row member
    rw [slotRows_eq_slotPairs, mem_slotPairs_iff] at member
    obtain ⟨entry, entryMember, slot, listed, given, same⟩ := member
    have keyFree := (slot_free free holds (fun data => some data.arity) entryMember listed
      fun own command describes value => by simpa using describes.arities slot.1 value).1
    rw [RowFree, ← same, ← Option.some.inj given]
    refine ⟨keyFree, fun value inside => ?_⟩
    rw [List.mem_singleton.mp inside]
    exact at_notMem_text slot.2

end Holds

/-! ## The whole script -/

/-- The texts of the holes are guarded if the texts of the user are free of at signs. -/
theorem guarded_holeText {index : Index} {description : Description} (shell : Shell) {plan : Plan}
    (root : '@' ∉ index.root.toList) (program : '@' ∉ plan.program.toList)
    (separator : '@' ∉ description.separator.toList) (marker : '@' ∉ description.marker.toList)
    (stem : '@' ∉ plan.function) {hole : Hole}
    (known : hole ∈ commonNames ++ (templates shell).tests) :
    Guarded (holeText index description shell plan hole) := by
  rcases List.mem_append.mp known with common | test
  · simp only [commonNames, List.mem_cons, List.not_mem_nil, or_false] at common
    rcases common with rfl | rfl | rfl | rfl | rfl
    · exact .of_notMem stem
    · exact .of_notMem (at_notMem_quote shell root)
    · exact .of_notMem (at_notMem_quote shell program)
    · exact .of_notMem (at_notMem_quote shell separator)
    · exact .of_notMem (at_notMem_quote shell marker)
  · exact guarded_tests index description shell plan hole test

theorem guarded_assembledFrom {index : Index} {description : Description} {shell : Shell}
    {plan : Plan} {preamble : Option String}
    (holes : ∀ hole ∈ commonNames ++ (templates shell).tests,
      Guarded (holeText index description shell plan hole))
    (header : '@' ∉ (emitterFor shell).header plan.program)
    (tables : '@' ∉ (emitterFor shell).tables plan) (own : '@' ∉ preambleBlock preamble) :
    Guarded (assembledFrom index description shell plan preamble) := by
  have common : ∀ hole ∈ commonNames, Guarded (holeText index description shell plan hole) :=
    fun hole member => holes hole (List.mem_append_left _ member)
  have main : Guarded (assemble (mainText index description shell plan)
      (split (templates shell).main)) := by
    refine (sound_templates.main shell).guarded_filled fun hole member => ?_
    rcases List.mem_append.mp member with named | block
    · rw [mainText_of_common index description shell plan named]
      exact common hole named
    · rcases List.mem_pair.mp block with rfl | rfl
      · exact Guarded.flatMap fun rule _ => (sound_templates.walk shell rule).guarded_filled common
      · exact Guarded.flatMap fun source _ =>
          (sound_templates.sources shell source).guarded_filled common
  have functions := (sound_texts.functions shell).guarded_text
  have helpers := (sound_templates.helpers shell).guarded_filled holes
  have registration := (sound_templates.registration shell).guarded_filled common
  have newline : Guarded ['\n'] := by decide
  rw [assembledFrom]
  exact ((((((((((((Guarded.of_notMem header).append newline).append functions).append
    newline).append (.of_notMem tables)).append newline).append helpers).append
    newline).append main).append newline).append (.of_notMem own)).append registration)

theorem at_notMem_preambleBlock {preamble : Option String}
    (free : ∀ text ∈ preamble.toList, '@' ∉ text.toList) : '@' ∉ preambleBlock preamble := by
  cases preamble with
  | none => exact List.not_mem_nil
  | some text =>
    have own := free text (by simp)
    simp only [preambleBlock, List.mem_append, not_or]
    refine ⟨⟨own, ?_⟩, by decide⟩
    split <;> decide

/-- **A script is assembled from pieces.** The script of a specification is what the templates,
split into pieces beforehand, give when each hole gets its text and the pieces are put together
once; no text of the user's, whatever it holds, is taken for a hole. If none of these texts holds
an at sign, no hole is left in the script. -/
theorem render_assembled {root : Command} {index : Index} (built : root.index = .ok index)
    (description : Description) (shell : Shell) (options : ScriptOptions) :
    (render index description shell options).toList =
        assembled index description shell options ∧
      ((∀ text ∈ userTexts root description shell options, '@' ∉ text.toList) →
        ∀ hole : Hole, ¬('@' :: (hole.name ++ ['@'])) <:+:
          (render index description shell options).toList) := by
  have same : (render index description shell options).toList =
      assembled index description shell options := by
    rw [render, String.toList_ofList, write_eq_assembledFrom]
    rfl
  refine ⟨same, fun free => ?_⟩
  obtain ⟨_, holds⟩ := Command.index_ok built
  simp only [userTexts, List.forall_mem_append, List.forall_mem_cons] at free
  obtain ⟨⟨⟨⟨specification, separator, marker, _⟩, program⟩, preamble⟩, bound⟩ := free
  have named := Plan.named_of index shell options.program options.bindings
  have rootName : '@' ∉ index.root.toList := by
    rw [holds.root_eq]
    exact specification _ (Command.mem_texts (.program root) Command.name_mem_ownTexts)
  have programName : '@' ∉ (options.program.getD index.root).toList := by
    cases given : options.program with
    | none => exact rootName
    | some name => exact program name (by simp [given])
  have keys : ∀ key ∈ index.keys, '@' ∉ key.toList := by
    intro key member
    obtain ⟨place, rfl⟩ := holds.mem_keys_iff.mp member
    exact at_notMem_key specification place
  have rows := rows_free specification holds shell options.bindings bound
  rw [same]
  refine Guarded.no_mark (guarded_assembledFrom (fun hole => ?_) ?_ ?_ ?_)
  · exact guarded_holeText shell rootName programName separator marker
      (at_notMem_of_isNameCharacter named.stem)
  · exact at_notMem_header shell programName
  · exact at_notMem_tables shell named keys rows
  · exact at_notMem_preambleBlock preamble

theorem render_assembled_sampleProgram : ∃ index, sampleProgram.index = .ok index ∧
    (render index { marker := "@LOWER@\n", separator := "@FN@" } .fish {}).toList =
      assembled index { marker := "@LOWER@\n", separator := "@FN@" } .fish {} ∧
    ¬("@WALK@".toList <:+: (render index .standard .zsh { program := some "other" }).toList) := by
  obtain ⟨index, built⟩ := sampleProgram_accepted
  obtain ⟨marked, _⟩ :=
    render_assembled built { marker := "@LOWER@\n", separator := "@FN@" } .fish {}
  obtain ⟨_, unmarked⟩ := render_assembled built .standard .zsh { program := some "other" }
  have free : ∀ text ∈ userTexts sampleProgram .standard .zsh { program := some "other" },
      '@' ∉ text.toList := by
    decide
  exact ⟨index, built, marked, unmarked free .walk⟩

end Script
end CommandCompletion
