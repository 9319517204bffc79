import CommandCompletion.Command.Arena
import CommandCompletion.Proofs.Index.Acceptance

/-!
# Another name for the program

Every key of a specification is the name of the program with something behind it that depends
on the names of the subcommands only (`Place.key_eq_append`). So the same places have one key
whatever the program is called, and a specification is accepted under every name that is a word
or under none (`Command.SameButName.accepted`).

The name of a command does not show in its own entry either. So two indexes of one
specification under two names hold the same behind these names (`Index.Holds.sameBehindNames`),
and each table of the one is that of the other with the name replaced at the beginning of
every key (`Table.Rekeyed`). The order of the keys stays what it was.
-/

set_option autoImplicit false

namespace CommandCompletion

/-! ## Keys behind the name of the program -/

theorem foldl_childKey_append (start key : String) (names : List String) :
    names.foldl childKey (start ++ key) = start ++ names.foldl childKey key := by
  induction names generalizing key with
  | nil => rfl
  | cons name names ih =>
    have joined : childKey (start ++ key) name = start ++ childKey key name := by
      simp only [childKey, String.append_assoc]
    rw [List.foldl_cons, List.foldl_cons, joined, ih]

namespace Place

variable {root : Command}

/-- What stands in the key of a place behind the name of the program. -/
def suffix (place : Place root) : String :=
  (root.namesTo place.way).foldl childKey ""

theorem key_eq_append (place : Place root) : place.key = root.name ++ place.suffix := by
  rw [key_eq_keyBelow, Command.keyBelow, suffix, ← foldl_childKey_append, String.append_empty]

end Place

/-! ## Commands that differ in their names -/

namespace Command

/-- Two commands that differ at most in their names. -/
structure SameButName (command other : Command) : Prop where
  options : command.options = other.options
  positionals : command.positionals = other.positionals
  subcommands : command.subcommands = other.subcommands

variable {command other root tree : Command}

namespace SameButName

theorem refl (command : Command) : command.SameButName command := ⟨rfl, rfl, rfl⟩

theorem symm (alike : command.SameButName other) : other.SameButName command :=
  ⟨alike.options.symm, alike.positionals.symm, alike.subcommands.symm⟩

/-- A program under two names. -/
theorem rename (root : Command) (first second : String) :
    (root.rename first).SameButName (root.rename second) := ⟨rfl, rfl, rfl⟩

theorem subcommandNames (alike : command.SameButName other) :
    command.subcommandNames = other.subcommandNames :=
  congrArg (List.map Command.name) alike.subcommands

theorem declares (alike : command.SameButName other) {slot : String} {data : SlotData}
    (declares : command.Declares slot data) : other.Declares slot data := by
  cases declares with
  | flag declared listed => exact .flag (alike.options ▸ declared) listed
  | positional declared => exact .positional (alike.positionals ▸ declared)

theorem declares_iff (alike : command.SameButName other) (slot : String) (data : SlotData) :
    command.Declares slot data ↔ other.Declares slot data :=
  ⟨alike.declares, alike.symm.declares⟩

/-- The names on a way down do not hold the name of the program. -/
theorem namesTo (alike : root.SameButName tree) (way : List Nat) :
    root.namesTo way = tree.namesTo way := by
  cases way with
  | nil => rfl
  | cons number rest => rw [Command.namesTo, Command.namesTo, alike.subcommands]

/-- The same ways lead to commands that differ at most in their names. -/
theorem below? (alike : root.SameButName tree) {way : List Nat}
    (reached : root.below? way = some command) :
    ∃ other, tree.below? way = some other ∧ command.SameButName other := by
  cases way with
  | nil =>
    cases reached
    exact ⟨tree, rfl, alike⟩
  | cons number rest =>
    refine ⟨command, ?_, .refl command⟩
    rwa [Command.below?, ← alike.subcommands]

/-- Each place of a program has its counterpart in the same program under another name. -/
theorem exists_place (alike : root.SameButName tree) (place : Place root) :
    ∃ counterpart : Place tree, counterpart.way = place.way ∧
      counterpart.suffix = place.suffix ∧ place.command.SameButName counterpart.command := by
  obtain ⟨other, reached, alikeThere⟩ := alike.below? place.reached
  exact ⟨⟨place.way, other, reached⟩, rfl,
    congrArg (List.foldl childKey "") (alike.namesTo place.way).symm, alikeThere⟩

/-! ## Acceptance -/

/-- Whether a command is sound does not depend on its own name. -/
theorem sound (alike : command.SameButName other) (sound : command.Sound) : other.Sound where
  subcommandNames := alike.subcommandNames ▸ sound.subcommandNames
  subcommandsDiffer := alike.subcommandNames ▸ sound.subcommandsDiffer
  flags := alike.options ▸ sound.flags
  optionsAgree := alike.options ▸ sound.optionsAgree
  slots := fun slot data declares => sound.slots slot data (alike.symm.declares declares)

/-- A specification that an index can hold stays one under every name that is a word. -/
theorem representable (alike : root.SameButName tree) (representable : root.Representable)
    (word : Text.Word tree.name) : tree.Representable where
  programName := word
  commands := by
    intro place
    obtain ⟨original, _, _, alikeThere⟩ := alike.symm.exists_place place
    exact alikeThere.symm.sound (representable.commands original)
  keys := by
    intro first second same
    obtain ⟨original, way, suffix, _⟩ := alike.symm.exists_place first
    obtain ⟨originalToo, wayToo, suffixToo, _⟩ := alike.symm.exists_place second
    have sameSuffix : first.suffix = second.suffix := by
      simpa [Place.key_eq_append] using same
    have sameKey : original.key = originalToo.key := by
      rw [Place.key_eq_append, Place.key_eq_append, suffix, suffixToo, sameSuffix]
    have sameOriginal : original = originalToo := representable.keys sameKey
    refine Place.eq_of_way_eq ?_
    rw [← way, ← wayToo, sameOriginal]

end SameButName

/-- A specification that an index can hold is accepted. -/
theorem Representable.accepted (representable : root.Representable) :
    ∃ index, root.index = .ok index := by
  cases built : root.index with
  | ok index => exact ⟨index, rfl⟩
  | error fault =>
    obtain ⟨place, defect, _⟩ := index_error built
    exact absurd ⟨fault, defect⟩ (representable.not_defective place)

/-- A specification that is accepted is accepted under every name that is a word. -/
theorem SameButName.accepted (alike : root.SameButName tree) (word : Text.Word tree.name)
    (accepted : ∃ index, root.index = .ok index) : ∃ other, tree.index = .ok other := by
  obtain ⟨index, built⟩ := accepted
  obtain ⟨programName, holds⟩ := index_ok built
  have representable : root.Representable := ⟨programName, holds.sound, holds.distinct⟩
  exact (alike.representable representable word).accepted

end Command

/-! ## Entries -/

/-- Only one entry describes a command, whatever the command is called. -/
theorem IndexEntry.Describes.unique {entry other : IndexEntry} {command renamed : Command}
    (describes : entry.Describes command) (alike : command.SameButName renamed)
    (describesToo : other.Describes renamed) : entry = other := by
  obtain ⟨choices, providers, arities⟩ := describes.slots_eq describesToo alike.declares_iff
  have subcommands : entry.subcommands = other.subcommands := by
    rw [describes.subcommands, describesToo.subcommands, alike.subcommandNames]
  have flags : entry.flags = other.flags := by
    rw [describes.flags, describesToo.flags, alike.options]
  cases entry
  cases other
  simp_all

/-- Two indexes that hold the same behind the names of their programs. -/
def Index.SameBehindNames (index other : Index) : Prop :=
  ∀ suffix, index.entries.get? (index.root ++ suffix) = other.entries.get? (other.root ++ suffix)

namespace Index.Holds

variable {index other : Index} {root tree : Command}

/-- What stands behind the name of a program stands behind every other name for it. -/
theorem get?_of_sameButName (holds : index.Holds root) (holdsToo : other.Holds tree)
    (alike : root.SameButName tree) {suffix : String} {own : IndexEntry}
    (found : index.entries.get? (root.name ++ suffix) = some own) :
    other.entries.get? (tree.name ++ suffix) = some own := by
  obtain ⟨place, atKey⟩ := holds.only _ _ found
  rw [Place.key_eq_append, String.append_right_inj] at atKey
  subst atKey
  rw [← Place.key_eq_append] at found
  obtain ⟨entry, held, describes⟩ := holds.held place
  cases held.symm.trans found
  obtain ⟨counterpart, _, sameSuffix, alikeThere⟩ := alike.exists_place place
  obtain ⟨entryToo, heldToo, describesToo⟩ := holdsToo.held counterpart
  rw [Place.key_eq_append, sameSuffix] at heldToo
  rw [describes.unique alikeThere describesToo]
  exact heldToo

theorem sameBehindNames (holds : index.Holds root) (holdsToo : other.Holds tree)
    (alike : root.SameButName tree) : index.SameBehindNames other := by
  intro suffix
  rw [holds.root_eq, holdsToo.root_eq]
  refine Option.ext fun own => ⟨?_, ?_⟩
  · exact holds.get?_of_sameButName holdsToo alike
  · exact holdsToo.get?_of_sameButName holds alike.symm

/-- Every key begins with the name of the program. -/
theorem exists_suffix (holds : index.Holds root) {key : String} {own : IndexEntry}
    (found : index.entries.get? key = some own) : ∃ suffix, key = index.root ++ suffix := by
  obtain ⟨place, rfl⟩ := holds.only key own found
  exact ⟨place.suffix, by rw [holds.root_eq, Place.key_eq_append]⟩

end Index.Holds

/-! ## Tables -/

/-- A text with another beginning in the place of a given one. -/
def replaceStart (start replacement text : String) : String :=
  replacement ++ String.ofList (text.toList.drop start.length)

theorem replaceStart_append (start replacement rest : String) :
    replaceStart start replacement (start ++ rest) = replacement ++ rest := by
  simp [replaceStart, ← String.length_toList]

/-- The order of texts with one beginning does not depend on the beginning. -/
theorem append_lt_append {start first second : String} (less : start ++ first < start ++ second)
    (replacement : String) : replacement ++ first < replacement ++ second := by
  simp only [String.lt_iff, String.toList_append] at less ⊢
  refine List.append_left_lt ?_
  -- A beginning can be put in front of both sides, so it is taken away by contraposition.
  by_contra notLess
  have notLessBehind : ¬ start.toList ++ first.toList < start.toList ++ second.toList :=
    List.not_lt.mpr (List.append_left_le (List.not_lt.mp notLess))
  exact notLessBehind less

namespace Table

variable {α β : Type} {rekey : String → String} {table other : Table α}

/-- A table with the same values in the same order under keys that are replaced. -/
def Rekeyed (rekey : String → String) (table other : Table α) : Prop :=
  other.entries = table.entries.map fun entry => (rekey entry.1, entry.2)

theorem Rekeyed.map (rekeyed : Rekeyed rekey table other) (image : α → β) :
    Rekeyed rekey (table.map image) (other.map image) := by
  rw [Rekeyed] at rekeyed
  simp [Rekeyed, Table.map, rekeyed, Function.comp_def]

/-- Replacing keys in a way that keeps their order gives a table that is determined by what it
holds under the replaced keys. -/
theorem rekeyed_of_get? (ordered : ∀ key ∈ table.keys, ∀ later ∈ table.keys, key < later →
      rekey key < rekey later)
    (found : ∀ key value, other.get? key = some value ↔
      ∃ old, table.get? old = some value ∧ rekey old = key) : Rekeyed rekey table other := by
  have increasing : (table.entries.map fun entry => (rekey entry.1, entry.2)).Pairwise
      (fun earlier later => earlier.1 < later.1) := by
    refine List.pairwise_map.mpr (table.increasing.imp_of_mem ?_)
    intro earlier later member memberToo less
    exact ordered _ (List.mem_map_of_mem member) _ (List.mem_map_of_mem memberToo) less
  have distinct : ((table.entries.map fun entry => (rekey entry.1, entry.2)).map (·.1)).Nodup :=
    List.pairwise_map.mpr (increasing.imp fun less => String.ne_of_lt less)
  refine eq_of_lookup_eq other.increasing increasing fun key => Option.ext fun value => ?_
  rw [lookup_eq_some_iff_mem distinct, ← get?, found, List.mem_map]
  constructor
  · rintro ⟨old, held, rfl⟩
    exact ⟨(old, value), (lookup_eq_some_iff_mem table.nodup_keys).mp held, rfl⟩
  · rintro ⟨⟨old, _⟩, member, same⟩
    cases same
    exact ⟨old, (lookup_eq_some_iff_mem table.nodup_keys).mpr member, rfl⟩

end Table

/-- Of two indexes of one specification under two names, one has the entries of the other, with
the name replaced at the beginning of every key. -/
theorem Index.Holds.rekeyed {index other : Index} {root tree : Command}
    (holds : index.Holds root) (holdsToo : other.Holds tree) (alike : root.SameButName tree) :
    Table.Rekeyed (replaceStart index.root other.root) index.entries other.entries := by
  have same := holds.sameBehindNames holdsToo alike
  refine Table.rekeyed_of_get? ?_ ?_
  · intro key member later memberToo less
    obtain ⟨own, found⟩ := Table.mem_keys_iff.mp member
    obtain ⟨ownToo, foundToo⟩ := Table.mem_keys_iff.mp memberToo
    obtain ⟨suffix, rfl⟩ := holds.exists_suffix found
    obtain ⟨suffixToo, rfl⟩ := holds.exists_suffix foundToo
    rw [replaceStart_append, replaceStart_append]
    exact append_lt_append less other.root
  · intro key own
    constructor
    · intro found
      obtain ⟨suffix, rfl⟩ := holdsToo.exists_suffix found
      exact ⟨index.root ++ suffix, (same suffix).trans found, replaceStart_append _ _ _⟩
    · rintro ⟨old, found, rfl⟩
      obtain ⟨suffix, rfl⟩ := holds.exists_suffix found
      rw [replaceStart_append]
      exact (same suffix).symm.trans found

end CommandCompletion
