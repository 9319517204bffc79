import CommandCompletion.Proofs.FirstOccurrences
import CommandCompletion.Proofs.Index.Checks

/-!
# The entry of one command

An entry describes a command when it lists the names of its subcommands and its flags,
each flag once, and its tables hold exactly the slots that the command declares
(`IndexEntry.Describes`). A command that is accepted is sound and gets an entry that
describes it (`Command.entry_ok`); a command that is refused has the defect that the fault
names (`Command.entry_error`).
-/

set_option autoImplicit false

namespace CommandCompletion

namespace Command

/-! ## Positionals -/

theorem checkPositionals_ok {key : String} {positionals : List PositionalDecl} {result : Unit}
    (accepted : checkPositionals key positionals = .ok result) :
    ∀ positional ∈ positionals, positional.slot.Writable := by
  induction positionals generalizing result with
  | nil => intro positional member; cases member
  | cons first rest ih =>
    obtain ⟨_, choicesAccepted, accepted⟩ := bind_eq_ok_iff.mp accepted
    obtain ⟨_, providerAccepted, accepted⟩ := bind_eq_ok_iff.mp accepted
    refine List.forall_mem_cons.mpr ⟨⟨?_, ?_⟩, ih accepted⟩
    · exact checkChoices_ok choicesAccepted
    · exact checkProvider_ok providerAccepted

theorem checkPositionals_error {key : String} {positionals : List PositionalDecl}
    {fault : SpecificationFault} (refused : checkPositionals key positionals = .error fault) :
    ∃ positional ∈ positionals, ∃ text, positional.slot.BadText text ∧
      fault = .invalidName key text := by
  induction positionals with
  | nil => cases refused
  | cons first rest ih =>
    rcases bind_eq_error_iff.mp refused with refused | ⟨_, _, refused⟩
    · exact ⟨first, List.mem_cons_self, checkChoices_error first.slot refused⟩
    · rcases bind_eq_error_iff.mp refused with refused | ⟨_, _, refused⟩
      · exact ⟨first, List.mem_cons_self, checkProvider_error first.slot refused⟩
      · obtain ⟨positional, member, bad⟩ := ih refused
        exact ⟨positional, List.mem_cons_of_mem _ member, bad⟩

theorem mem_positionalSlots_iff {place : Nat} {positionals : List PositionalDecl} {slot : String}
    {data : SlotData} :
    (slot, data) ∈ positionalSlots place positionals ↔
      ∃ (offset : Nat) (positional : PositionalDecl), positionals[offset]? = some positional ∧
        slot = positionalKey (place + offset) ∧ data = positional.slot := by
  induction positionals generalizing place with
  | nil => simp [positionalSlots]
  | cons first rest ih =>
    rw [positionalSlots, List.mem_cons, ih]
    constructor
    · rintro (here | ⟨offset, positional, declared, sameSlot, sameData⟩)
      · cases here
        exact ⟨0, first, rfl, rfl, rfl⟩
      · refine ⟨offset + 1, positional, declared, ?_, sameData⟩
        rw [sameSlot, Nat.add_assoc, Nat.add_comm 1]
    · rintro ⟨offset, positional, declared, sameSlot, sameData⟩
      cases offset with
      | zero =>
        cases declared
        exact .inl (Prod.ext sameSlot sameData)
      | succ offset =>
        refine .inr ⟨offset, positional, declared, ?_, sameData⟩
        rw [sameSlot, Nat.add_assoc, Nat.add_comm 1]

theorem positionalSlots_keys (place : Nat) (positionals : List PositionalDecl) :
    (positionalSlots place positionals).map (·.1) =
      (List.range' place positionals.length).map positionalKey := by
  induction positionals generalizing place with
  | nil => rfl
  | cons first rest ih => simp [positionalSlots, List.range'_succ, ih]

/-! ## The slots of a command with given flags -/

/-- The slots of a command whose flags have the given first declarations. -/
def slotsOf (command : Command) (flags : List DeclaredFlag) : List (String × SlotData) :=
  flagSlots flags ++ positionalSlots 0 command.positionals

theorem slotsOf_keys (command : Command) (flags : List DeclaredFlag) :
    (command.slotsOf flags).map (·.1) =
      flags.map (·.1) ++ (List.range command.positionals.length).map positionalKey := by
  rw [slotsOf, List.map_append, positionalSlots_keys, List.range_eq_range']
  simp [flagSlots]

section Accepted

variable {command : Command} {flags : List DeclaredFlag}
variable (picked : FirstDeclarations [] (listedFlags command.options) flags)
include picked

/-- The flags kept are those of all options, each at its first occurrence. -/
theorem kept_flags : flags.map (·.1) = (command.options.flatMap (·.flags)).eraseDups := by
  have listed : (listedFlags command.options).map (·.1) = command.options.flatMap (·.flags) := by
    simp [listedFlags, List.map_flatMap, Function.comp_def]
  rw [picked.kept_names, listed]
  simp

theorem kept_of_listed {option : OptionDecl} {flag : String} (declared : option ∈ command.options)
    (listed : flag ∈ option.flags) : ∃ first, (flag, first) ∈ flags ∧ first.slot = option.slot := by
  obtain ⟨first, found, same⟩ :=
    picked.listed_kept (flag, option) (mem_listedFlags_iff.mpr ⟨declared, listed⟩)
  rw [List.nil_append] at found
  obtain ⟨_, _, split, _⟩ := List.lookup_eq_some_iff.mp found
  exact ⟨first, by simp [split], same⟩

theorem slotsOf_nodup : ((command.slotsOf flags).map (·.1)).Nodup := by
  rw [slotsOf_keys]
  refine List.nodup_append'.mpr ⟨?_, ?_, ?_⟩
  · rw [kept_flags picked]
    exact nodup_eraseDups _
  · exact List.Nodup.map positionalKey_injective List.nodup_range
  · intro key kept numbered
    obtain ⟨declared, member, rfl⟩ := List.mem_map.mp kept
    obtain ⟨place, _, same⟩ := List.mem_map.mp numbered
    obtain ⟨_, free, _⟩ := picked.kept_sound declared member
    exact free (same ▸ positionalForm_positionalKey place)

/-- The slots kept are exactly the slots declared. -/
theorem mem_slotsOf_iff {slot : String} {data : SlotData} :
    (slot, data) ∈ command.slotsOf flags ↔ command.Declares slot data := by
  rw [slotsOf, List.mem_append, mem_positionalSlots_iff]
  constructor
  · rintro (kept | ⟨place, positional, declared, rfl, rfl⟩)
    · obtain ⟨⟨flag, option⟩, member, same⟩ := List.mem_map.mp kept
      cases same
      obtain ⟨declared, listed⟩ := mem_listedFlags_iff.mp (picked.kept_listed _ member)
      exact .flag declared listed
    · rw [Nat.zero_add]
      exact .positional declared
  · intro declares
    cases declares with
    | flag declared listed =>
      obtain ⟨first, kept, same⟩ := kept_of_listed picked declared listed
      exact .inl (List.mem_map.mpr ⟨_, kept, Prod.ext rfl same⟩)
    | positional declared => exact .inr ⟨_, _, declared, by rw [Nat.zero_add], rfl⟩

/-- What is accepted flag by flag and positional by positional is sound. -/
theorem sound_of_picked (names : (∀ name ∈ command.subcommandNames, Text.Word name ∧ name ≠ "--") ∧
      command.subcommandNames.Nodup)
    (writable : ∀ positional ∈ command.positionals, positional.slot.Writable) : command.Sound where
  subcommandNames := names.1
  subcommandsDiffer := names.2
  flags := by
    intro option declared flag listed
    obtain ⟨first, kept, _⟩ := kept_of_listed picked declared listed
    obtain ⟨word, free, _⟩ := picked.kept_sound _ kept
    exact ⟨word, free⟩
  optionsAgree := by
    intro first declared second declaredToo flag listed listedToo
    -- Both have the slot of the declaration that is kept for the flag, of which there is one.
    obtain ⟨kept, member, same⟩ := kept_of_listed picked declared listed
    obtain ⟨keptToo, memberToo, sameToo⟩ := kept_of_listed picked declaredToo listedToo
    have distinct : (flags.map (·.1)).Nodup := by
      rw [kept_flags picked]
      exact nodup_eraseDups _
    have found := (Table.lookup_eq_some_iff_mem distinct).mpr member
    rw [(Table.lookup_eq_some_iff_mem distinct).mpr memberToo] at found
    cases found
    exact same.symm.trans sameToo
  slots := by
    intro slot data declares
    cases declares with
    | flag declared listed =>
      obtain ⟨first, kept, same⟩ := kept_of_listed picked declared listed
      obtain ⟨_, _, firstWritable⟩ := picked.kept_sound _ kept
      exact same ▸ firstWritable
    | positional declared => exact writable _ (List.mem_of_getElem? declared)

end Accepted

/-- A table of one part of every slot holds that part of the slots that have it. -/
theorem get?_partTable {β : Type} {slots : List (String × SlotData)}
    (distinct : (slots.map (·.1)).Nodup) (part : SlotData → Option β) (key : String) (value : β) :
    (Table.ofList (slots.filterMap fun slot => (part slot.2).map (slot.1, ·))).get? key =
        some value ↔
      ∃ data, (key, data) ∈ slots ∧ part data = some value := by
  have keys : ((slots.filterMap fun slot => (part slot.2).map (slot.1, ·)).map (·.1)).Nodup := by
    refine distinct.sublist ?_
    clear distinct
    induction slots with
    | nil => exact .slnil
    | cons first rest ih =>
      cases given : part first.2 with
      | none => simpa [given] using ih.cons first.1
      | some value => simpa [given] using ih
  rw [Table.get?_ofList_eq_some_iff keys, List.mem_filterMap]
  constructor
  · rintro ⟨⟨slot, data⟩, member, same⟩
    obtain ⟨part, given, same⟩ := Option.map_eq_some_iff.mp same
    cases same
    exact ⟨data, member, given⟩
  · rintro ⟨data, member, given⟩
    exact ⟨(key, data), member, by rw [given]; rfl⟩

end Command

/-! ## Descriptions -/

/-- An entry that holds what a command declares, and nothing else. -/
structure IndexEntry.Describes (entry : IndexEntry) (command : Command) : Prop where
  /-- The names of the subcommands in declaration order. -/
  subcommands : entry.subcommands = command.subcommandNames
  /-- The flags of all options, one after the other, each at its first occurrence. -/
  flags : entry.flags = (command.options.flatMap (·.flags)).eraseDups
  /-- No flag could name a positional slot. -/
  reserved : ∀ place, positionalKey place ∉ entry.flags
  /-- There is one arity for each flag and for each positional, and no other. -/
  keys : entry.arities.keys.Perm
    (entry.flags ++ (List.range command.positionals.length).map positionalKey)
  /-- The arity of a slot is that of every declaration of the slot. -/
  arities : ∀ slot arity, entry.arities.get? slot = some arity ↔
    ∃ data, command.Declares slot data ∧ data.arity = arity
  /-- The choices of a slot are those of its declarations, if they have some. -/
  choices : ∀ slot values, entry.choices.get? slot = some values ↔
    ∃ data, command.Declares slot data ∧ data.choices = some values
  /-- The provider of a slot is that of its declarations, if they have one. -/
  providers : ∀ slot name, entry.providers.get? slot = some name ↔
    ∃ data, command.Declares slot data ∧ data.provider = some name

/-- Entries of commands that declare the same slots hold the same of every slot. -/
theorem IndexEntry.Describes.slots_eq {entry other : IndexEntry} {command declaring : Command}
    (describes : entry.Describes command) (describesToo : other.Describes declaring)
    (same : ∀ slot data, command.Declares slot data ↔ declaring.Declares slot data) :
    entry.choices = other.choices ∧ entry.providers = other.providers ∧
      entry.arities = other.arities := by
  refine ⟨?_, ?_, ?_⟩
  · refine Table.ext_get? fun slot => Option.ext fun values => ?_
    simp only [describes.choices, describesToo.choices, same]
  · refine Table.ext_get? fun slot => Option.ext fun name => ?_
    simp only [describes.providers, describesToo.providers, same]
  · refine Table.ext_get? fun slot => Option.ext fun arity => ?_
    simp only [describes.arities, describesToo.arities, same]

namespace Command

theorem entryOf_describes {command : Command} {flags : List DeclaredFlag}
    (picked : FirstDeclarations [] (listedFlags command.options) flags) :
    (command.entryOf flags).Describes command := by
  have distinct := slotsOf_nodup picked
  have arities : ∀ slot arity, (command.entryOf flags).arities.get? slot = some arity ↔
      ∃ data, command.Declares slot data ∧ data.arity = arity := by
    intro slot arity
    have part := get?_partTable distinct (fun data => some data.arity) slot arity
    simpa [entryOf, slotsOf, ← mem_slotsOf_iff picked, List.filterMap_eq_map'] using part
  exact {
    subcommands := rfl
    flags := kept_flags picked
    reserved := by
      intro place member
      obtain ⟨declared, kept, same⟩ := List.mem_map.mp member
      obtain ⟨_, free, _⟩ := picked.kept_sound declared kept
      exact free (same ▸ positionalForm_positionalKey place)
    keys := by
      have keys : (command.slotsOf flags).map (·.1) = (command.entryOf flags).flags ++
          (List.range command.positionals.length).map positionalKey := slotsOf_keys command flags
      refine (List.perm_ext_iff_of_nodup (Table.nodup_keys _) (keys ▸ distinct)).mpr fun slot => ?_
      rw [← keys, Table.mem_keys_iff]
      simp only [arities, ← mem_slotsOf_iff picked]
      constructor
      · rintro ⟨_, data, member, _⟩
        exact List.mem_map.mpr ⟨(slot, data), member, rfl⟩
      · intro member
        obtain ⟨⟨_, data⟩, kept, rfl⟩ := List.mem_map.mp member
        exact ⟨data.arity, data, kept, rfl⟩
    arities := arities
    choices := by
      intro slot values
      have part := get?_partTable distinct (·.choices) slot values
      simpa [entryOf, slotsOf, ← mem_slotsOf_iff picked] using part
    providers := by
      intro slot name
      have part := get?_partTable distinct (·.provider) slot name
      simpa [entryOf, slotsOf, ← mem_slotsOf_iff picked] using part }

/-! ## Accepted and refused commands -/

/-- An accepted command is sound, and its entry describes it. -/
theorem entry_ok {key : String} {command : Command} {own : IndexEntry}
    (accepted : entry key command = .ok own) : command.Sound ∧ own.Describes command := by
  obtain ⟨_, namesAccepted, accepted⟩ := bind_eq_ok_iff.mp accepted
  obtain ⟨flags, flagsAccepted, accepted⟩ := bind_eq_ok_iff.mp accepted
  obtain ⟨_, positionalsAccepted, same⟩ := bind_eq_ok_iff.mp accepted
  cases same
  have picked := declareFlags_ok flagsAccepted
  obtain ⟨words, distinct, _⟩ := checkSubcommands_ok namesAccepted
  refine ⟨sound_of_picked picked ⟨words, distinct⟩ ?_, entryOf_describes picked⟩
  exact checkPositionals_ok positionalsAccepted

/-- A refused command has the defect that the fault names. -/
theorem entry_error {key : String} {command : Command} {fault : SpecificationFault}
    (refused : entry key command = .error fault) : command.Defect key fault := by
  rcases bind_eq_error_iff.mp refused with refused | ⟨_, _, refused⟩
  · rcases checkSubcommands_error refused with ⟨name, listed, bad, rfl⟩ | ⟨name, twice, rfl⟩
    · exact .subcommandName listed bad
    · exact .subcommandTwice twice
  · rcases bind_eq_error_iff.mp refused with refused | ⟨_, _, refused⟩
    · exact declareFlags_error refused (fun _ member => nomatch member) fun _ member => member
    · rcases bind_eq_error_iff.mp refused with refused | ⟨_, _, impossible⟩
      · obtain ⟨positional, member, text, bad, rfl⟩ := checkPositionals_error refused
        obtain ⟨place, declared⟩ := List.mem_iff_getElem?.mp member
        exact .slotText (.positional declared) bad
      · cases impossible

end Command

end CommandCompletion
