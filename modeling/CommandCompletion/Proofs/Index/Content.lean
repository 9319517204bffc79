import CommandCompletion.Proofs.Index.Building

/-!
# What an index holds

An index that is built from a specification has one entry for each command of the tree and
no other, and the entry under the key of a command describes that command. Each of the
five tables is one part of those entries (`index_content`).

Two declarations of one slot of an accepted command agree, so what a table says of a slot
is what any of its declarations says (`Command.Sound.declares_unique`).
-/

set_option autoImplicit false

namespace CommandCompletion

/-- In an accepted command, only the positional of a number declares the slot of that number. -/
theorem Command.Sound.declares_positionalKey {command : Command} (sound : command.Sound)
    {number : Nat} {data : Command.SlotData}
    (declares : command.Declares (positionalKey number) data) :
    ∃ positional, command.positionals[number]? = some positional ∧ positional.slot = data := by
  generalize same : positionalKey number = slot at declares
  cases declares with
  | flag declared listed =>
    have reserved : PositionalForm slot := same ▸ positionalForm_positionalKey number
    exact absurd reserved (sound.flags _ declared _ listed).2
  | positional declared =>
    cases positionalKey_injective same
    exact ⟨_, declared, rfl⟩

/-- An accepted command declares every slot one way only. -/
theorem Command.Sound.declares_unique {command : Command} (sound : command.Sound) {slot : String}
    {first second : Command.SlotData} (declares : command.Declares slot first)
    (declaresToo : command.Declares slot second) : first = second := by
  cases declares with
  | flag declared listed =>
    generalize same : slot = other at declaresToo
    cases declaresToo with
    | flag declaredToo listedToo =>
      exact sound.optionsAgree _ declared _ declaredToo slot listed (same ▸ listedToo)
    | positional declaredToo =>
      have reserved : PositionalForm slot := same ▸ positionalForm_positionalKey _
      exact absurd reserved (sound.flags _ declared _ listed).2
  | positional declared =>
    obtain ⟨positional, declaredToo, rfl⟩ := sound.declares_positionalKey declaresToo
    cases declared.symm.trans declaredToo
    rfl

namespace Index.Holds

variable {index : Index} {root : Command}

/-- The keys of an index are the keys of the places of its tree. -/
theorem mem_keys_iff (holds : index.Holds root) {key : String} :
    key ∈ index.keys ↔ ∃ place : Place root, place.key = key := by
  rw [Index.keys, Table.mem_keys_iff]
  constructor
  · rintro ⟨own, found⟩
    exact holds.only key own found
  · rintro ⟨place, rfl⟩
    obtain ⟨own, found, _⟩ := holds.held place
    exact ⟨own, found⟩

end Index.Holds

/-- **The content of an index.** Different commands of a tree have different keys; these are the
keys of each of the five tables; and under the key of a command the five tables hold the parts
of an entry that describes it. -/
theorem index_content {root : Command} {index : Index} (built : root.index = .ok index) :
    (Function.Injective fun place : Place root => place.key) ∧
      (∀ keys ∈ [index.subcommandTable.keys, index.flagTable.keys, index.choiceTable.keys,
          index.providerTable.keys, index.arityTable.keys],
        ∀ key, key ∈ keys ↔ ∃ place : Place root, place.key = key) ∧
      ∀ place : Place root, ∃ own : IndexEntry,
        index.subcommandTable.get? place.key = some own.subcommands ∧
        index.flagTable.get? place.key = some own.flags ∧
        index.choiceTable.get? place.key = some own.choices ∧
        index.providerTable.get? place.key = some own.providers ∧
        index.arityTable.get? place.key = some own.arities ∧
        own.Describes place.command := by
  obtain ⟨_, holds⟩ := Command.index_ok built
  refine ⟨holds.distinct, ?_, fun place => ?_⟩
  · intro keys member key
    have same : keys = index.keys := by
      simpa [Index.subcommandTable, Index.flagTable, Index.choiceTable, Index.providerTable,
        Index.arityTable, Table.keys_map, Index.keys] using member
    rw [same]
    exact holds.mem_keys_iff
  · obtain ⟨own, found, describes⟩ := holds.held place
    refine ⟨own, ?_, ?_, ?_, ?_, ?_, describes⟩
    · rw [Index.subcommandTable, Table.get?_map, found, Option.map_some]
    · rw [Index.flagTable, Table.get?_map, found, Option.map_some]
    · rw [Index.choiceTable, Table.get?_map, found, Option.map_some]
    · rw [Index.providerTable, Table.get?_map, found, Option.map_some]
    · rw [Index.arityTable, Table.get?_map, found, Option.map_some]

/-! ## Evaluated indexes -/

/-- A specification is accepted if building its index is seen to succeed. -/
theorem Command.accepted_of_isSome {root : Command} (accepted : root.index.toOption.isSome = true) :
    ∃ index, root.index = .ok index := by
  cases built : root.index with
  | ok index => exact ⟨index, rfl⟩
  | error fault =>
    rw [built] at accepted
    cases accepted

/-- What is seen of the index that is built holds of the index at hand. -/
theorem Command.index_observed {α : Type} {root : Command} {index : Index} {result : α}
    (built : root.index = .ok index) (observe : Index → α)
    (evaluated : root.index.toOption.map observe = some result) : observe index = result := by
  rw [built] at evaluated
  exact Option.some.inj evaluated

/-- A program with a flag that is declared again, nested subcommands, an underscore in a name, an
open positional and a provider. -/
def sampleProgram : Command where
  name := "prog"
  options := [{ flags := ["-v", "--verbose"] }, { flags := ["-v", "-q", "-q"] },
    { flags := ["--color"], arity := .optional, choices := some ["auto", "never"] }]
  positionals := [{ name := "input", arity := .zeroOrMore, provider := some "file-completer" }]
  subcommands := [{ name := "build", subcommands := [{ name := "a_b" }] }, { name := "test" }]

theorem sampleProgram_accepted : ∃ index, sampleProgram.index = .ok index :=
  Command.accepted_of_isSome (by decide +kernel)

theorem index_content_sampleProgram : ∃ (index : Index) (own : IndexEntry),
    sampleProgram.index = .ok index ∧ "prog_build_a_b" ∈ index.arityTable.keys ∧
      index.flagTable.get? "prog" = some own.flags ∧
      own.flags = ["-v", "--verbose", "-q", "--color"] ∧
      own.arities.get? (positionalKey 0) = some .zeroOrMore := by
  obtain ⟨index, built⟩ := sampleProgram_accepted
  obtain ⟨_, keys, content⟩ := index_content built
  obtain ⟨own, _, flags, _, _, _, describes⟩ := content (.program sampleProgram)
  refine ⟨index, own, built, ?_, ?_, ?_, ?_⟩
  · refine (keys index.arityTable.keys (by simp) _).mpr ⟨⟨[0, 0], { name := "a_b" }, rfl⟩, ?_⟩
    decide +kernel
  · rw [Place.key_program] at flags
    exact flags
  · rw [describes.flags]
    decide +kernel
  · have declares : sampleProgram.Declares (positionalKey 0) _ := .positional rfl
    exact (describes.arities _ _).mpr ⟨_, declares, rfl⟩

end CommandCompletion
