import CommandCompletion.Proofs.Index.Renaming
import CommandCompletion.Proofs.Walk.LockStep

/-!
# Completing under another name

Let two indexes hold the same behind the names of their programs. Then whatever is asked of
the one under its program's name with something behind it, and of the other under its own
program's name with the same behind it, they answer alike (`Index.SameBehindNames.entry?`). Two
walks of the same words, one in each index, stand at such keys after every word and agree in
everything else (`WalkState.Moved`), whatever the rules are.

So the name of the program matters neither for whether its specification is accepted nor for
what is offered, and in the index it shows at the beginning of the keys only
(`program_name_irrelevant`).
-/

set_option autoImplicit false

namespace CommandCompletion

variable {index other : Index}

/-! ## What the two indexes answer -/

namespace Index.SameBehindNames

theorem resolve (same : index.SameBehindNames other) (suffix : String) :
    ∃ resolved, index.resolve (index.root ++ suffix) = index.root ++ resolved ∧
      other.resolve (other.root ++ suffix) = other.root ++ resolved := by
  have known : index.hasKey (index.root ++ suffix) = other.hasKey (other.root ++ suffix) := by
    rw [hasKey, hasKey, Table.contains, Table.contains, same suffix]
  rw [Index.resolve, Index.resolve, known]
  split
  · exact ⟨suffix, rfl, rfl⟩
  · exact ⟨"", by simp, by simp⟩

theorem entry? (same : index.SameBehindNames other) (suffix : String) :
    index.entry? (index.root ++ suffix) = other.entry? (other.root ++ suffix) := by
  obtain ⟨resolved, first, second⟩ := same.resolve suffix
  rw [Index.entry?, Index.entry?, first, second, same resolved]

end Index.SameBehindNames

namespace WalkState

/-- Two states that differ at most in the name of the program in the key of the command. -/
def Moved (index other : Index) (first second : WalkState) : Prop :=
  ∃ suffix, first.node = index.root ++ suffix ∧
    second = { first with node := other.root ++ suffix }

namespace Moved

variable {first second : WalkState}

/-! ## One word -/

theorem start (index other : Index) : Moved index other (start index) (start other) :=
  ⟨"", by simp [WalkState.start], by simp [WalkState.start]⟩

theorem entry? (moved : Moved index other first second) (same : index.SameBehindNames other) :
    index.entry? first.node = other.entry? second.node := by
  obtain ⟨suffix, atKey, rfl⟩ := moved
  rw [atKey]
  exact same.entry? suffix

theorem rooted (moved : Moved index other first second) (same : index.SameBehindNames other) :
    Moved index other (first.rooted index) (second.rooted other) := by
  obtain ⟨suffix, atKey, rfl⟩ := moved
  obtain ⟨resolved, firstKey, secondKey⟩ := same.resolve suffix
  refine ⟨resolved, ?_, ?_⟩
  · rw [WalkState.rooted, atKey, firstKey]
  · rw [WalkState.rooted, WalkState.rooted, secondKey]

/-- Slots are opened, filled and closed alike. -/
theorem activated (moved : Moved index other first second) (filled : Nat)
    (active : Option ActiveSlot) (positionalOnly : Bool) :
    Moved index other ⟨first.node, filled, active, positionalOnly⟩
      ⟨second.node, filled, active, positionalOnly⟩ := by
  obtain ⟨suffix, atKey, rfl⟩ := moved
  exact ⟨suffix, atKey, rfl⟩

theorem release (moved : Moved index other first second) :
    Moved index other first.release second.release := by
  obtain ⟨suffix, atKey, rfl⟩ := moved
  obtain ⟨node, filled, active, positionalOnly⟩ := first
  cases active with
  | none => exact ⟨suffix, atKey, rfl⟩
  | some slot => exact ⟨suffix, atKey, rfl⟩

theorem settle (moved : Moved index other first second) :
    Moved index other first.settle second.settle := by
  have sameActive : second.active = first.active := by
    obtain ⟨suffix, _, rfl⟩ := moved
    rfl
  rw [WalkState.settle, WalkState.settle, sameActive]
  split
  · exact moved.release
  · exact moved

/-- Every rule does the same in both indexes. -/
theorem apply (moved : Moved index other first second) (same : index.SameBehindNames other)
    (description : Description) (word : String) (rule : WalkRule) :
    Verdict.Related (Moved index other) (first.apply index description word rule)
      (second.apply other description word rule) := by
  have entry := moved.entry? same
  have agree : second.filled = first.filled ∧ second.active = first.active ∧
      second.positionalOnly = first.positionalOnly := by
    obtain ⟨suffix, _, rfl⟩ := moved
    exact ⟨rfl, rfl, rfl⟩
  obtain ⟨filled, active, positionalOnly⟩ := agree
  cases rule with
  | absorb =>
    simp only [WalkState.apply, absorb, active]
    split
    · exact .passed moved
    · split
      · rw [filled, positionalOnly]
        exact .claimed (moved.activated first.filled _ first.positionalOnly).settle
      · exact .passed moved.release
  | separator =>
    simp only [WalkState.apply, separate, positionalOnly]
    split
    · exact .passed moved
    · rw [filled, active]
      exact .claimed (moved.activated first.filled first.active true)
  | subcommand =>
    have names : other.isSubcommand second.node word = index.isSubcommand first.node word := by
      simp only [Index.isSubcommand, Index.subcommands, entry]
    simp only [WalkState.apply, descend, positionalOnly, names]
    split
    · exact .passed moved
    -- The name of the subcommand goes behind both keys, so they still differ at the start only.
    · obtain ⟨suffix, atKey, rfl⟩ := moved
      refine .claimed ⟨childKey suffix word, ?_, ?_⟩
      · simp only [atKey, childKey, String.append_assoc]
      · simp only [childKey, String.append_assoc]
  | flag =>
    have flags : other.isFlag second.node word = index.isFlag first.node word := by
      simp only [Index.isFlag, Index.flags, entry]
    have arity : other.arity second.node word = index.arity first.node word := by
      simp only [Index.arity, entry]
    simp only [WalkState.apply, openOption, positionalOnly, flags, arity]
    split
    · exact .passed moved
    · rw [filled]
      exact .claimed (moved.activated first.filled _ first.positionalOnly)
  | positional =>
    have arity : other.arity second.node (positionalKey first.filled) =
        index.arity first.node (positionalKey first.filled) := by
      simp only [Index.arity, entry]
    simp only [WalkState.apply, openPositional, filled, positionalOnly, arity]
    exact .claimed (moved.activated first.filled _ first.positionalOnly).settle

theorem next (moved : Moved index other first second) (same : index.SameBehindNames other)
    (description : Description) (word : String) :
    Moved index other (first.next index description word)
      (second.next other description word) :=
  applyRules_related (fun rule _ _ moved => moved.apply same description word rule)
    description.rules (moved.rooted same)

/-! ## Whole walks and what is offered -/

theorem run (same : index.SameBehindNames other) (description : Description)
    (typed : List String) :
    Moved index other (run index description typed) (WalkState.run other description typed) :=
  walk_related (fun word _ _ moved => moved.next same description word) typed
    (start index other)

theorem drawsAlike (moved : Moved index other first second)
    (same : index.SameBehindNames other) : DrawsAlike index other first second := by
  have entry := moved.entry? same
  obtain ⟨suffix, atKey, rfl⟩ := moved
  exact {
    positionalOnly := rfl
    optionPending := rfl
    subcommandsFollow := rfl
    flags := by simp only [Index.flags, entry]
    subcommands := by simp only [Index.subcommands, entry]
    choices := by
      simp only [Index.choices, entry]
      rfl
    provider := by
      simp only [Index.provider, entry]
      rfl }

end Moved

end WalkState

/-- Two indexes that hold the same behind the names of their programs complete alike. -/
theorem Index.SameBehindNames.complete (same : index.SameBehindNames other)
    (description : Description) (registry : Registry) (typed : List String) (word : String) :
    CommandCompletion.complete index description registry typed word =
      CommandCompletion.complete other description registry typed word :=
  ((WalkState.Moved.run same description typed).drawsAlike same).candidates description registry
    word

/-- Renaming the program of an arena renames the tree that it holds. -/
theorem Arena.command_rename (spec : Arena) (name : String) :
    (spec.rename name).command = spec.command.rename name := rfl

/-- **The name of the program does not matter.** Under two names that are words a specification is
accepted alike. If it is, every key of the first index begins with the first name, each of the five
tables of the second index is that of the first with the second name in its place, and both
indexes offer the same candidates, whatever the description says and whatever was typed. -/
theorem program_name_irrelevant (spec : Arena) {first second : String}
    (firstWord : Text.Word first) (secondWord : Text.Word second) :
    ((∃ index, (spec.rename first).command.index = .ok index) ↔
      ∃ other, (spec.rename second).command.index = .ok other) ∧
    ∀ index other, (spec.rename first).command.index = .ok index →
      (spec.rename second).command.index = .ok other →
        index.root = first ∧ other.root = second ∧
        (∀ key ∈ index.keys, first.toList <+: key.toList) ∧
        Table.Rekeyed (replaceStart first second) index.subcommandTable other.subcommandTable ∧
        Table.Rekeyed (replaceStart first second) index.flagTable other.flagTable ∧
        Table.Rekeyed (replaceStart first second) index.choiceTable other.choiceTable ∧
        Table.Rekeyed (replaceStart first second) index.providerTable other.providerTable ∧
        Table.Rekeyed (replaceStart first second) index.arityTable other.arityTable ∧
        ∀ description registry typed word, complete index description registry typed word =
          complete other description registry typed word := by
  rw [Arena.command_rename, Arena.command_rename]
  have alike : (spec.command.rename first).SameButName (spec.command.rename second) :=
    .rename spec.command first second
  refine ⟨⟨alike.accepted secondWord, alike.symm.accepted firstWord⟩, ?_⟩
  intro index other built builtToo
  obtain ⟨_, holds⟩ := Command.index_ok built
  obtain ⟨_, holdsToo⟩ := Command.index_ok builtToo
  have rekeyed := holds.rekeyed holdsToo alike
  rw [holds.root_eq, holdsToo.root_eq] at rekeyed
  refine ⟨holds.root_eq, holdsToo.root_eq, ?_, rekeyed.map _, rekeyed.map _, rekeyed.map _,
    rekeyed.map _, rekeyed.map _, ?_⟩
  · intro key member
    obtain ⟨own, found⟩ := Table.mem_keys_iff.mp member
    obtain ⟨suffix, rfl⟩ := holds.exists_suffix found
    rw [holds.root_eq, String.toList_append]
    exact List.prefix_append first.toList suffix.toList
  · exact (holds.sameBehindNames holdsToo alike).complete

/-- The program may be called like one of its subcommands. -/
theorem program_name_irrelevant_sampleProgram : ∃ index other,
    ((Arena.ofCommand sampleProgram).rename "prog").command.index = .ok index ∧
    ((Arena.ofCommand sampleProgram).rename "a_b").command.index = .ok other ∧
    other.flagTable.keys = ["a_b", "a_b_build", "a_b_build_a_b", "a_b_test"] ∧
    complete index (.standard .sensitive) Table.empty ["build"] "a" = ["a_b"] ∧
    complete other (.standard .sensitive) Table.empty ["build"] "a" = ["a_b"] := by
  obtain ⟨accepted, agree⟩ := program_name_irrelevant (Arena.ofCommand sampleProgram)
    (Text.isWord_iff.mp (by decide : Text.isWord "prog" = true))
    (Text.isWord_iff.mp (by decide : Text.isWord "a_b" = true))
  have builds : ∃ index,
      ((Arena.ofCommand sampleProgram).rename "prog").command.index = .ok index :=
    Command.accepted_of_isSome (by decide +kernel)
  obtain ⟨index, built⟩ := builds
  obtain ⟨other, builtToo⟩ := accepted.mp ⟨index, built⟩
  obtain ⟨_, _, _, _, flags, _, _, _, candidates⟩ := agree index other built builtToo
  have seenKeys : ((Arena.ofCommand sampleProgram).rename "prog").command.index.toOption.map
      (fun index => index.flagTable.entries.map fun entry => replaceStart "prog" "a_b" entry.1) =
        some ["a_b", "a_b_build", "a_b_build_a_b", "a_b_test"] := by decide +kernel
  have seenOffered : ((Arena.ofCommand sampleProgram).rename "prog").command.index.toOption.map
      (complete · (.standard .sensitive) Table.empty ["build"] "a") = some ["a_b"] := by
    decide +kernel
  have keys := Command.index_observed built _ seenKeys
  have offered := Command.index_observed built _ seenOffered
  refine ⟨index, other, built, builtToo, ?_, offered, ?_⟩
  · rw [Table.keys, flags, List.map_map]
    exact keys
  · rw [← candidates]
    exact offered

end CommandCompletion
