import CommandCompletion.Proofs.Index.Content

/-!
# What an index answers

A query takes the key of a command. An index that holds a tree answers it at the key of a
place from the command at that place: with its subcommands and its flags, and with the
arity, the choices and the provider of a slot as the command declares them. No key that
comes up on the way down is unknown: the program has one, and so has every subcommand of
a command that has one (`Index.Closed`).
-/

set_option autoImplicit false

namespace CommandCompletion

/-- What is declared of a slot of a command, if the command declares it at all. -/
def Command.SlotHas (command : Command) (slot : String) (declared : Option Command.SlotData) :
    Prop :=
  ∀ data, declared = some data ↔ command.Declares slot data

/-- Words joined by an underscore make a word. -/
theorem Text.Word.childKey {key name : String} (keyWord : Text.Word key)
    (nameWord : Text.Word name) : Text.Word (CommandCompletion.childKey key name) := by
  obtain ⟨nonempty, clean⟩ := keyWord
  refine ⟨by simp [CommandCompletion.childKey, nonempty], fun c member => ?_⟩
  simp only [CommandCompletion.childKey, String.toList_append, List.mem_append] at member
  rcases member with (own | joint) | added
  · exact clean c own
  · exact List.mem_singleton.mp joint ▸ ⟨rfl, rfl⟩
  · exact nameWord.2 c added

namespace Index

/-- An index that knows the program, and with a command all its subcommands. -/
structure Closed (index : Index) : Prop where
  root : index.hasKey index.root = true
  child : ∀ key name, index.hasKey key = true → index.isSubcommand key name = true →
    index.hasKey (childKey key name) = true

theorem resolve_of_hasKey {index : Index} {key : String} (known : index.hasKey key = true) :
    index.resolve key = key := by
  rw [resolve, if_pos known]

/-- Whatever is asked for, what is looked up is known. -/
theorem Closed.hasKey_resolve {index : Index} (closed : index.Closed) (key : String) :
    index.hasKey (index.resolve key) = true := by
  by_cases known : index.hasKey key = true
  · rwa [resolve_of_hasKey known]
  · rw [resolve, if_neg known]
    exact closed.root

namespace Holds

variable {index : Index} {root : Command} {slot : String} {declared : Option Command.SlotData}

theorem hasKey_iff (holds : index.Holds root) {key : String} :
    index.hasKey key = true ↔ ∃ place : Place root, place.key = key := by
  rw [← holds.mem_keys_iff, Index.keys, Table.mem_keys_iff]
  exact Table.contains_iff

theorem hasKey_key (holds : index.Holds root) (place : Place root) :
    index.hasKey place.key = true :=
  holds.hasKey_iff.mpr ⟨place, rfl⟩

/-- Under the key of a place stands an entry that describes the command there. -/
theorem entry?_key (holds : index.Holds root) (place : Place root) :
    ∃ own, index.entry? place.key = some own ∧ own.Describes place.command := by
  obtain ⟨own, found, describes⟩ := holds.held place
  refine ⟨own, ?_, describes⟩
  rw [Index.entry?, resolve_of_hasKey (holds.hasKey_key place), found]

theorem subcommands_key (holds : index.Holds root) (place : Place root) :
    index.subcommands place.key = place.command.subcommandNames := by
  obtain ⟨own, found, describes⟩ := holds.entry?_key place
  rw [Index.subcommands, found, Option.map_some, Option.getD_some, describes.subcommands]

theorem flags_key (holds : index.Holds root) (place : Place root) :
    index.flags place.key = (place.command.options.flatMap (·.flags)).eraseDups := by
  obtain ⟨own, found, describes⟩ := holds.entry?_key place
  rw [Index.flags, found, Option.map_some, Option.getD_some, describes.flags]

theorem isSubcommand_key_iff (holds : index.Holds root) (place : Place root) {word : String} :
    index.isSubcommand place.key word = true ↔ ∃ child ∈ place.command.subcommands,
      child.name = word := by
  rw [Index.isSubcommand, holds.subcommands_key, List.contains_iff_mem]
  exact List.mem_map

theorem isFlag_key_iff (holds : index.Holds root) (place : Place root) {word : String} :
    index.isFlag place.key word = true ↔ ∃ option ∈ place.command.options,
      word ∈ option.flags := by
  rw [Index.isFlag, holds.flags_key, List.contains_iff_mem, List.mem_eraseDups]
  exact List.mem_flatMap

/-! ## Slots -/

/-- What a table of an entry says of a slot is that part of the slot's declaration, if the table
holds that part of every declared slot. -/
theorem slotPart_key {β : Type} (holds : index.Holds root) (place : Place root)
    (has : place.command.SlotHas slot declared) (table : IndexEntry → Table β)
    (part : Command.SlotData → Option β)
    (holdsPart : ∀ own : IndexEntry, own.Describes place.command → ∀ value,
      (table own).get? slot = some value ↔
        ∃ data, place.command.Declares slot data ∧ part data = some value) :
    ((index.entry? place.key).bind fun own => (table own).get? slot) = declared.bind part := by
  obtain ⟨own, found, describes⟩ := holds.entry?_key place
  rw [found, Option.bind_some]
  ext value
  simp only [Option.bind_eq_some_iff, holdsPart own describes, has _]

theorem arity_key (holds : index.Holds root) (place : Place root)
    (has : place.command.SlotHas slot declared) :
    index.arity place.key slot = declared.map (·.arity) := by
  have part := holds.slotPart_key place has (·.arities) (fun data => some data.arity)
    fun own describes arity => by simpa using describes.arities slot arity
  rw [Index.arity, part, Option.map_eq_bind]
  rfl

theorem choices_key (holds : index.Holds root) (place : Place root)
    (has : place.command.SlotHas slot declared) :
    index.choices place.key slot = (declared.bind (·.choices)).getD [] := by
  have part := holds.slotPart_key place has (·.choices) (·.choices)
    fun own describes values => describes.choices slot values
  rw [Index.choices, part]

theorem provider_key (holds : index.Holds root) (place : Place root)
    (has : place.command.SlotHas slot declared) :
    index.provider place.key slot = declared.bind (·.provider) := by
  have part := holds.slotPart_key place has (·.providers) (·.provider)
    fun own describes name => describes.providers slot name
  rw [Index.provider, part]

/-! ## Texts -/

/-- The keys of an index are words, as the names are that they are made of. -/
theorem word_key (holds : index.Holds root) (named : Text.Word root.name) (place : Place root) :
    Text.Word place.key := by
  induction place using Place.induction with
  | program =>
    rw [Place.key_program]
    exact named
  | child place number inside ih =>
    rw [Place.key_child]
    have listed : (place.child number inside).command.name ∈ place.command.subcommandNames :=
      List.mem_map_of_mem (List.getElem_mem inside)
    exact ih.childKey ((holds.sound place).subcommandNames _ listed).1

theorem word_subcommands (holds : index.Holds root) (place : Place root) :
    ∀ name ∈ index.subcommands place.key, Text.Word name := by
  rw [holds.subcommands_key]
  intro name listed
  exact ((holds.sound place).subcommandNames name listed).1

theorem word_flags (holds : index.Holds root) (place : Place root) :
    ∀ flag ∈ index.flags place.key, Text.Word flag := by
  rw [holds.flags_key]
  intro flag listed
  obtain ⟨option, declared, inside⟩ := List.mem_flatMap.mp (List.mem_eraseDups.mp listed)
  exact ((holds.sound place).flags option declared flag inside).1

theorem plain_choices (holds : index.Holds root) (place : Place root) (slot : String) :
    ∀ value ∈ index.choices place.key slot, Text.Plain value := by
  obtain ⟨own, found, describes⟩ := holds.entry?_key place
  rw [Index.choices, found, Option.bind_some]
  cases given : own.choices.get? slot with
  | none => exact fun _ member => nomatch member
  | some values =>
    obtain ⟨data, declares, declared⟩ := (describes.choices slot values).mp given
    exact ((holds.sound place).slots slot data declares).choices values declared

/-! ## Closure -/

/-- An index that holds a tree is closed. -/
theorem closed (holds : index.Holds root) : index.Closed where
  root := by
    rw [holds.root_eq, ← Place.key_program root]
    exact holds.hasKey_key (.program root)
  child := by
    intro key name known listed
    obtain ⟨place, rfl⟩ := holds.hasKey_iff.mp known
    obtain ⟨child, member, rfl⟩ := (holds.isSubcommand_key_iff place).mp listed
    obtain ⟨number, inside, rfl⟩ := List.mem_iff_getElem.mp member
    refine holds.hasKey_iff.mpr ⟨place.child number inside, ?_⟩
    exact place.key_child number inside

end Holds

end Index

end CommandCompletion
