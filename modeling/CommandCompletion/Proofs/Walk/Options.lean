import CommandCompletion.Candidates
import CommandCompletion.Proofs.Walk.Absorbing
import Mathlib.Data.List.Perm.Basic
import Mathlib.Logic.Relation

/-!
# Options that got their words

Under the standard rules a flag is read as a flag where no slot is open and the separator was
not met (`WalkState.AtRest`). If the words that its slot takes follow, all of them or the one
that a slot of at most one word takes, the option is completed: the words of the slot are not
looked at, the last one closes it, and the walk stands where it stood before the flag
(`WalkState.walk_completedOption`).

So completed options leave no trace. Two lists of words that come from each other by putting
in and taking out completed options lead to the same state and the same candidates
(`completed_options_transparent`).
-/

set_option autoImplicit false

namespace CommandCompletion

/-- A state in which flags are read as flags: no slot is open and the separator was not met. -/
structure WalkState.AtRest (state : WalkState) : Prop where
  closed : state.active = none
  free : state.positionalOnly = false

/-- A flag of a command with the words that its slot takes, the flag being neither the separator
nor the name of a subcommand. -/
inductive Index.CompletedOption (index : Index) (node : String) : List String → Prop where
  /-- A slot of a fixed number of words, and so many words of any kind. -/
  | bounded {flag : String} {values : List String} (listed : flag ∈ index.flags node)
      (notSeparator : flag ≠ "--") (notSubcommand : flag ∉ index.subcommands node)
      (arity : index.arity node flag = some (.exactly values.length)) :
      index.CompletedOption node (flag :: values)
  /-- A slot of at most one word, and a word that does not look like an option. -/
  | single {flag value : String} (listed : flag ∈ index.flags node)
      (notSeparator : flag ≠ "--") (notSubcommand : flag ∉ index.subcommands node)
      (arity : index.arity node flag = some .optional)
      (plain : Text.startsWith value "-" = false) :
      index.CompletedOption node [flag, value]

/-- A list of words, and the list with a completed option put in where the walk is at rest. -/
inductive Index.InsertsOption (index : Index) (matchCase : MatchCase) :
    List String → List String → Prop where
  | insert {before group later : List String}
      (rest : (WalkState.run index (.standard matchCase) before).AtRest)
      (completed : index.CompletedOption (WalkState.run index (.standard matchCase) before).node
        group) :
      index.InsertsOption matchCase (before ++ later) (before ++ group ++ later)

theorem looksLikeOption_standard (matchCase : MatchCase) (word : String) :
    (Description.standard matchCase).looksLikeOption word = Text.startsWith word "-" := by
  cases matchCase <;> rfl

namespace WalkState

variable {index : Index} {matchCase : MatchCase} {state : WalkState} {flag : String}

/-! ## One option -/

/-- At rest a flag opens its slot, if the slot takes words, and changes nothing else. -/
theorem AtRest.next_flag (rest : state.AtRest) (known : index.hasKey state.node = true)
    (matchCase : MatchCase) (listed : flag ∈ index.flags state.node) (notSeparator : flag ≠ "--")
    (notSubcommand : flag ∉ index.subcommands state.node) :
    state.next index (.standard matchCase) flag =
      { state with active := index.flagSlot? state.node flag } := by
  have unlisted : index.isSubcommand state.node flag = false := by
    simpa [Index.isSubcommand] using notSubcommand
  have isFlag : index.isFlag state.node flag = true := List.contains_iff_mem.mpr listed
  have reading : StandardReading index matchCase state flag .flag _ :=
    .flagged (declines_of_closed rest.closed) rest.free notSeparator unlisted isFlag
  rw [release_of_closed rest.closed] at reading
  exact (reading.sound known).next

/-- An option that is opened and gets all its words leaves the state as it was. -/
theorem giving_opened (closed : state.active = none) {slot full : ActiveSlot}
    (option : full.kind = .option) (exhausted : full.isExhausted = true) :
    { state with active := some slot }.giving full = state := by
  rw [giving_reopened, giving_of_exhausted state exhausted, option, if_neg nofun, ← closed]

/-- The words of an option of a fixed number of words, which is not none, close it. -/
theorem walk_bounded_option (known : index.hasKey state.node = true)
    (closed : state.active = none) (flag : String) {values : List String}
    (several : 0 < values.length) :
    { state with active := some ⟨flag, .option, .exactly values.length, 0⟩ }.walk index
      (.standard matchCase) values = state := by
  generalize opened : (⟨flag, .option, .exactly values.length, 0⟩ : ActiveSlot) = slot
  have option : slot.kind = .option := opened ▸ rfl
  have bounded : slot.arity = .exactly values.length := opened ▸ rfl
  have empty : slot.consumed = 0 := opened ▸ rfl
  have knownToo : index.hasKey { state with active := some slot }.node = true := known
  have exhausted : (slot.grownBy values.length).isExhausted = true := by
    simp [ActiveSlot.isExhausted_grownBy bounded]
  rw [walk_bounded knownToo rfl bounded (by omega) values (by omega)]
  exact giving_opened closed option exhausted

/-- The word of an option of at most one word closes it. -/
theorem next_optional_option (known : index.hasKey state.node = true)
    (closed : state.active = none) (flag : String) {value : String}
    (plain : Text.startsWith value "-" = false) :
    { state with active := some ⟨flag, .option, .optional, 0⟩ }.next index
      (.standard matchCase) value = state := by
  have knownToo : index.hasKey
      { state with active := some ⟨flag, .option, .optional, 0⟩ }.node = true := known
  have takes : ActiveSlot.absorbs ⟨flag, .option, .optional, 0⟩ (.standard matchCase) value =
      true := by
    simp [ActiveSlot.absorbs, looksLikeOption_standard, plain]
  have reading : StandardReading index matchCase
      { state with active := some ⟨flag, .option, .optional, 0⟩ } value .absorb _ :=
    .absorbed rfl takes
  rw [(reading.sound knownToo).next]
  exact giving_opened closed rfl rfl

/-- A flag with the words that its slot takes leads back to where it was read. -/
theorem walk_completedOption (known : index.hasKey state.node = true) (rest : state.AtRest)
    {group : List String} (completed : index.CompletedOption state.node group) :
    state.walk index (.standard matchCase) group = state := by
  cases completed with
  | @bounded flag values listed notSeparator notSubcommand arity =>
    rw [walk, List.foldl_cons, rest.next_flag known matchCase listed notSeparator notSubcommand,
      ← walk]
    -- A slot of no words is never opened; the flag alone is then the whole option.
    by_cases none : values = []
    · have unopened : index.flagSlot? state.node flag = Option.none := by
        simp [Index.flagSlot?, arity, none]
      rw [none, unopened, ← rest.closed]
      rfl
    · have opened : index.flagSlot? state.node flag =
          some ⟨flag, .option, .exactly values.length, 0⟩ := by
        simp [Index.flagSlot?, arity, none]
      rw [opened]
      exact walk_bounded_option known rest.closed flag (List.length_pos_iff.mpr none)
  | @single flag value listed notSeparator notSubcommand arity plain =>
    have opened : index.flagSlot? state.node flag = some ⟨flag, .option, .optional, 0⟩ := by
      simp [Index.flagSlot?, arity]
    rw [walk, List.foldl_cons, rest.next_flag known matchCase listed notSeparator notSubcommand,
      opened]
    exact next_optional_option known rest.closed flag plain

theorem walk_completedOptions (known : index.hasKey state.node = true) (rest : state.AtRest)
    {groups : List (List String)}
    (completed : ∀ group ∈ groups, index.CompletedOption state.node group) :
    state.walk index (.standard matchCase) groups.flatten = state := by
  induction groups with
  | nil => rfl
  | cons group groups ih =>
    obtain ⟨here, later⟩ := List.forall_mem_cons.mp completed
    rw [List.flatten_cons, walk_append, walk_completedOption known rest here]
    exact ih later

/-! ## Options anywhere -/

/-- Words that lead back to where they were read can be left out. -/
theorem run_skip {description : Description} {before group : List String}
    (returns : (run index description before).walk index description group =
      run index description before) (later : List String) :
    run index description (before ++ group ++ later) = run index description (before ++ later) := by
  rw [run, walk_append, walk_append, ← run, returns, run, ← walk_append]
  rfl

theorem run_insertsOption (closed : index.Closed) {first second : List String}
    (inserts : index.InsertsOption matchCase first second) :
    run index (.standard matchCase) second = run index (.standard matchCase) first := by
  obtain @⟨before, group, later, rest, completed⟩ := inserts
  have known := (run_valid closed (.standard matchCase) before).known
  exact run_skip (walk_completedOption known rest completed) later

theorem run_eq_of_eqvGen (closed : index.Closed) {first second : List String}
    (related : Relation.EqvGen (index.InsertsOption matchCase) first second) :
    run index (.standard matchCase) first = run index (.standard matchCase) second := by
  induction related with
  | rel first second inserts => exact (run_insertsOption closed inserts).symm
  | refl => rfl
  | symm _ _ _ ih => exact ih.symm
  | trans _ _ _ _ _ ih further => exact ih.trans further

end WalkState

/-- Words that lead to one state have the same candidates behind them. -/
theorem complete_of_run_eq {index : Index} {description : Description} {first second : List String}
    (same : WalkState.run index description first = WalkState.run index description second)
    (registry : Registry) (word : String) :
    complete index description registry first word =
      complete index description registry second word := by
  rw [complete, complete, same]

/-- **Completed options leave no trace.** In an index that is built from a specification, and under
the standard rules: a flag with all the words of its slot that is put in where the walk is at rest
changes neither the state that is reached nor the candidates there, whatever words follow. Several
of them at one point may come in any order; and two lists of words are read alike if they come from
each other by putting in and taking out completed options, at any such points and in any number. -/
theorem completed_options_transparent {root : Command} {index : Index}
    (built : root.index = .ok index) (matchCase : MatchCase) :
    let description := Description.standard matchCase
    (∀ before group later, (WalkState.run index description before).AtRest →
      index.CompletedOption (WalkState.run index description before).node group →
        WalkState.run index description (before ++ group ++ later) =
            WalkState.run index description (before ++ later) ∧
          ∀ registry word, complete index description registry (before ++ group ++ later) word =
            complete index description registry (before ++ later) word) ∧
    (∀ before later (groups others : List (List String)),
      (WalkState.run index description before).AtRest →
      (∀ group ∈ groups,
        index.CompletedOption (WalkState.run index description before).node group) →
      others.Perm groups →
        WalkState.run index description (before ++ others.flatten ++ later) =
            WalkState.run index description (before ++ groups.flatten ++ later) ∧
          ∀ registry word,
            complete index description registry (before ++ others.flatten ++ later) word =
              complete index description registry (before ++ groups.flatten ++ later) word) ∧
    ∀ first second, Relation.EqvGen (index.InsertsOption matchCase) first second →
      WalkState.run index description first = WalkState.run index description second ∧
        ∀ registry word, complete index description registry first word =
          complete index description registry second word := by
  obtain ⟨_, holds⟩ := Command.index_ok built
  have closed := holds.closed
  intro description
  refine ⟨?one, ?several, ?anywhere⟩
  case one =>
    intro before group later rest completed
    have inserts : index.InsertsOption matchCase (before ++ later) (before ++ group ++ later) :=
      .insert rest completed
    have same := WalkState.run_insertsOption closed inserts
    exact ⟨same, complete_of_run_eq same⟩
  case several =>
    intro before later groups others rest completed permuted
    have known := (WalkState.run_valid closed description before).known
    have permutedToo : ∀ group ∈ others,
        index.CompletedOption (WalkState.run index description before).node group :=
      fun group member => completed group (permuted.mem_iff.mp member)
    have same := (WalkState.run_skip
      (WalkState.walk_completedOptions known rest permutedToo) later).trans
      (WalkState.run_skip (WalkState.walk_completedOptions known rest completed) later).symm
    exact ⟨same, complete_of_run_eq same⟩
  case anywhere =>
    intro first second related
    have same := WalkState.run_eq_of_eqvGen closed related
    exact ⟨same, complete_of_run_eq same⟩

/-- A program with an option of two words that has two flags, and a subcommand. -/
def pairingProgram : Command where
  name := "prog"
  options := [{ flags := ["--pair", "-p"], arity := .exactly 2, choices := some ["left", "right"] },
    { flags := ["--color"], arity := .optional }]
  subcommands := [{ name := "build" }]

theorem pairingProgram_accepted : ∃ index, pairingProgram.index = .ok index :=
  Command.accepted_of_isSome (by decide +kernel)

/-- The separator and the name of a subcommand are words of an option that takes two, and the
subcommand is reached behind them as without them; another option may stand on either side. -/
theorem completed_options_transparent_pairingProgram : ∃ index,
    pairingProgram.index = .ok index ∧
    WalkState.run index (.standard .sensitive) ["--pair", "--", "build", "build"] =
      WalkState.run index (.standard .sensitive) ["build"] ∧
    WalkState.run index (.standard .sensitive) ["--color", "auto", "--pair", "--", "build", "x"] =
      WalkState.run index (.standard .sensitive)
        ["--pair", "--", "build", "--color", "auto", "x"] ∧
    WalkState.run index (.standard .sensitive) ["--color", "auto", "build"] =
      WalkState.run index (.standard .sensitive) ["build"] := by
  obtain ⟨index, built⟩ := pairingProgram_accepted
  have reached : WalkState.run index (.standard .sensitive) [] = { node := "prog" } :=
    Command.index_observed built (WalkState.run · (.standard .sensitive) []) (by decide +kernel)
  have flags : index.flags "prog" = ["--pair", "-p", "--color"] :=
    Command.index_observed built (·.flags "prog") (by decide +kernel)
  have subcommands : index.subcommands "prog" = ["build"] :=
    Command.index_observed built (·.subcommands "prog") (by decide +kernel)
  have pair : index.arity "prog" "--pair" = some (.exactly 2) :=
    Command.index_observed built (·.arity "prog" "--pair") (by decide +kernel)
  have color : index.arity "prog" "--color" = some .optional :=
    Command.index_observed built (·.arity "prog" "--color") (by decide +kernel)
  have rest : (WalkState.run index (.standard .sensitive) []).AtRest := by
    rw [reached]
    exact ⟨rfl, rfl⟩
  have completedPair : index.CompletedOption
      (WalkState.run index (.standard .sensitive) []).node ["--pair", "--", "build"] := by
    rw [reached]
    exact .bounded (by simp [flags]) (by decide) (by simp [subcommands]) pair
  have completedColor : index.CompletedOption
      (WalkState.run index (.standard .sensitive) []).node ["--color", "auto"] := by
    rw [reached]
    exact .single (by simp [flags]) (by decide) (by simp [subcommands]) color (by decide)
  obtain ⟨one, several, anywhere⟩ := completed_options_transparent built .sensitive
  refine ⟨index, built, ?_, ?_, ?_⟩
  · exact (one [] _ ["build"] rest completedPair).1
  · refine (several [] ["x"] [["--pair", "--", "build"], ["--color", "auto"]] _ rest ?_
      (.swap _ _ [])).1
    simp [completedPair, completedColor]
  · have inserts : index.InsertsOption .sensitive ([] ++ ["build"])
        ([] ++ ["--color", "auto"] ++ ["build"]) := .insert rest completedColor
    exact (anywhere _ _ (.symm _ _ (.rel _ _ inserts))).1

end CommandCompletion
