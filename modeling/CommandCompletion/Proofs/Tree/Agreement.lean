import CommandCompletion.Proofs.Candidates.Collecting
import CommandCompletion.Proofs.Index.Queries
import CommandCompletion.Proofs.Tree.Engine
import CommandCompletion.Proofs.Walk.Invariant

/-!
# The index completes like the tree

Replacing the place of a tree state by its key and the open slot by the key of the slot
gives a state of a walk of the index (`TreeState.flat`). If the index holds the tree, each
rule does the same before and after this replacement, so a list of words leads to states
that correspond, and both states offer the same candidates (`complete_eq_tree`). Nothing
has to be assumed of the tree state: its place is in the tree and its slot is one of the
command there, by the types of both.
-/

set_option autoImplicit false

namespace CommandCompletion

variable {root : Command} {index : Index}

/-! ## Slots -/

theorem Command.flagSlot?_some {command : Command} {word : String} {slot : TreeSlot command}
    (found : command.flagSlot? word = some slot) :
    ∃ declaring declared listed, slot = .option declaring word declared listed := by
  unfold flagSlot? at found
  split at found
  · cases found
    exact ⟨_, _, _, rfl⟩
  · cases found

theorem Command.flagSlot?_none {command : Command} {word : String}
    (missing : command.flagSlot? word = none) :
    ¬∃ option ∈ command.options, word ∈ option.flags := by
  unfold flagSlot? at missing
  split at missing
  · cases missing
  · rename_i unlisted
    rintro ⟨option, declared, listed⟩
    exact List.find?_eq_none.mp unlisted option declared (OptionDecl.lists_iff.mpr listed)

/-- In a sound command, what is declared of a slot is what is declared under its key. -/
theorem TreeSlot.slotHas {command : Command} (slot : TreeSlot command) (sound : command.Sound) :
    command.SlotHas slot.key slot.declaration? := by
  intro data
  cases slot with
  | option declaring flag declared listed =>
    have declares : command.Declares flag declaring.slot := .flag declared listed
    constructor
    · intro same
      cases same
      exact declares
    · intro declaresToo
      exact congrArg some (sound.declares_unique declares declaresToo)
  | positional number =>
    constructor
    · intro given
      obtain ⟨positional, declared, rfl⟩ := Option.map_eq_some_iff.mp given
      exact .positional declared
    · intro declares
      obtain ⟨positional, declared, rfl⟩ := sound.declares_positionalKey declares
      exact Option.map_eq_some_iff.mpr ⟨positional, declared, rfl⟩

/-! ## Corresponding states -/

namespace TreeState

/-- The state of a walk of the index. -/
def flat (state : TreeState root) : WalkState where
  node := state.place.key
  filled := state.filled
  active := state.active.map OpenTreeSlot.flat
  positionalOnly := state.positionalOnly

end TreeState

/-- The verdict of a rule in a walk of the index. -/
def TreeVerdict.flat : TreeVerdict root → Verdict
  | .claimed state => .claimed state.flat
  | .passed state => .passed state.flat

namespace TreeState

variable {description : Description} {registry : Registry} {word : String}

theorem flat_start (holds : index.Holds root) : (start root).flat = WalkState.start index := by
  simp [flat, start, WalkState.start, holds.root_eq]

theorem flat_release (state : TreeState root) : state.release.flat = state.flat.release := by
  obtain ⟨place, filled, active, positionalOnly⟩ := state
  cases active with
  | none => rfl
  | some opened => rfl

theorem flat_settle (state : TreeState root) : state.settle.flat = state.flat.settle := by
  have same : state.flat.active.any ActiveSlot.isExhausted =
      state.active.any (·.flat.isExhausted) := by
    simp [flat, Option.any_map]
  rw [settle, WalkState.settle, same]
  split
  · exact flat_release state
  · rfl

theorem flat_absorb (state : TreeState root) :
    (state.absorb description word).flat = state.flat.absorb description word := by
  obtain ⟨place, filled, active, positionalOnly⟩ := state
  cases active with
  | none => rfl
  | some opened =>
    simp only [absorb, WalkState.absorb, flat, Option.map_some]
    by_cases takes : opened.flat.absorbs description word = true
    · rw [if_pos takes, if_pos takes, TreeVerdict.flat, flat_settle]
      rfl
    · rw [if_neg takes, if_neg takes, TreeVerdict.flat, flat_release]
      rfl

theorem flat_separate (state : TreeState root) :
    (state.separate description word).flat = state.flat.separate description word := by
  rw [separate, WalkState.separate]
  change _ = if state.positionalOnly || word != description.separator then _ else _
  split <;> rfl

theorem flat_descend (holds : index.Holds root) (state : TreeState root) :
    (state.descend word).flat = state.flat.descend index word := by
  rw [descend, WalkState.descend]
  change _ = if state.positionalOnly || !index.isSubcommand state.place.key word then _ else _
  cases only : state.positionalOnly with
  | true => rfl
  | false =>
    cases chosen : state.place.command.subcommands.findFinIdx?
        fun child => decide (child.name = word) with
    | some number =>
      have named : state.place.command.subcommands[number].name = word :=
        of_decide_eq_true (List.findFinIdx?_eq_some_iff.mp chosen).1
      have listed : index.isSubcommand state.place.key word = true :=
        (holds.isSubcommand_key_iff state.place).mpr ⟨_, List.getElem_mem number.isLt, named⟩
      -- The key of a subcommand depends on its name only, so the first of that name will do.
      have sameKey : (state.place.child number number.isLt).key =
          childKey state.place.key word := by
        rw [Place.key_child]
        exact congrArg (childKey state.place.key) named
      simp [TreeVerdict.flat, flat, listed, sameKey, only]
    | none =>
      have unlisted : index.isSubcommand state.place.key word = false := by
        rw [Bool.eq_false_iff, ne_eq, holds.isSubcommand_key_iff]
        rintro ⟨child, member, named⟩
        exact absurd (List.findFinIdx?_eq_none_iff.mp chosen child member) (by simp [named])
      simp [TreeVerdict.flat, unlisted]

theorem flat_openOption (holds : index.Holds root) (state : TreeState root) :
    (state.openOption word).flat = state.flat.openOption index word := by
  rw [openOption, WalkState.openOption]
  change _ = if state.positionalOnly || !index.isFlag state.place.key word then _ else _
  cases only : state.positionalOnly with
  | true => rfl
  | false =>
    cases found : state.place.command.flagSlot? word with
    | some slot =>
      obtain ⟨declaring, declared, listed, rfl⟩ := Command.flagSlot?_some found
      have isFlag : index.isFlag state.place.key word = true :=
        (holds.isFlag_key_iff state.place).mpr ⟨declaring, declared, listed⟩
      have arity := holds.arity_key state.place
        ((TreeSlot.option declaring word declared listed).slotHas (holds.sound state.place))
      simp only [TreeSlot.key, TreeSlot.declaration?, Option.map_some] at arity
      have sameArity : (TreeSlot.option declaring word declared listed).arity =
          declaring.slot.arity := rfl
      simp only [isFlag, arity, sameArity, flat, Bool.not_true, Bool.or_false, Option.getD_some]
      by_cases takes : declaring.slot.arity = .exactly 0
      · simp [takes, TreeVerdict.flat, flat, only]
      · simp [takes, TreeVerdict.flat, flat, only, OpenTreeSlot.flat, TreeSlot.key,
          TreeSlot.kind, sameArity]
    | none =>
      have unlisted : index.isFlag state.place.key word = false := by
        rw [Bool.eq_false_iff, ne_eq, holds.isFlag_key_iff]
        exact Command.flagSlot?_none found
      simp [TreeVerdict.flat, unlisted]

theorem flat_openPositional (holds : index.Holds root) (state : TreeState root) :
    state.openPositional.flat = state.flat.openPositional index := by
  have arity := holds.arity_key state.place
    ((TreeSlot.positional state.filled).slotHas (holds.sound state.place))
  rw [TreeSlot.key] at arity
  rw [openPositional, TreeVerdict.flat, flat_settle]
  simp only [WalkState.openPositional, flat, arity]
  rfl

theorem flat_apply (holds : index.Holds root) (rule : WalkRule) (state : TreeState root) :
    (state.apply description word rule).flat = state.flat.apply index description word rule := by
  cases rule with
  | absorb => exact flat_absorb state
  | separator => exact flat_separate state
  | subcommand => exact flat_descend holds state
  | flag => exact flat_openOption holds state
  | positional => exact flat_openPositional holds state

theorem flat_applyRules (holds : index.Holds root) (rules : List WalkRule)
    (state : TreeState root) : (applyRules description word rules state).flat =
      WalkState.applyRules index description word rules state.flat := by
  induction rules generalizing state with
  | nil => rfl
  | cons rule rest ih =>
    rw [applyRules, WalkState.applyRules, ← flat_apply holds rule state]
    cases state.apply description word rule with
    | claimed final => rfl
    | passed passing => exact ih passing

theorem flat_next (holds : index.Holds root) (state : TreeState root) (word : String) :
    (state.next description word).flat = state.flat.next index description word := by
  have known : index.hasKey state.flat.node = true := holds.hasKey_key state.place
  rw [next, WalkState.next, WalkState.rooted_of_hasKey known]
  exact flat_applyRules holds description.rules state

theorem flat_run (holds : index.Holds root) (description : Description) (typed : List String) :
    (run root description typed).flat = WalkState.run index description typed := by
  rw [run, WalkState.run, ← flat_start holds]
  generalize start root = state
  induction typed generalizing state with
  | nil => rfl
  | cons word rest ih =>
    rw [List.foldl_cons, ih, flat_next holds]
    rfl

/-! ## Candidates -/

theorem key_currentSlot (state : TreeState root) :
    state.currentSlot.key = state.flat.currentSlot := by
  obtain ⟨place, filled, active, positionalOnly⟩ := state
  cases active with
  | none => rfl
  | some opened => rfl

theorem optionPending_flat (state : TreeState root) :
    state.flat.optionPending = state.optionPending := by
  obtain ⟨place, filled, active, positionalOnly⟩ := state
  cases active with
  | none => rfl
  | some opened => rfl

theorem subcommandsFollow_flat (state : TreeState root) :
    state.flat.subcommandsFollow = state.subcommandsFollow := by
  simp [WalkState.subcommandsFollow, subcommandsFollow, flat]

/-- A source gives the same for a slot of the tree and for its key. -/
theorem sourceValues_flat (holds : index.Holds root) (state : TreeState root) :
    Context.sourceValues index registry state.place.key state.flat.currentSlot
        state.flat.subcommandsFollow word = state.sourceValues registry word := by
  have has := state.currentSlot.slotHas (holds.sound state.place)
  rw [← key_currentSlot, subcommandsFollow_flat]
  funext source
  cases source with
  | subcommands => rw [Context.sourceValues, sourceValues, holds.subcommands_key]
  | choices => rw [Context.sourceValues, sourceValues, holds.choices_key state.place has]
  | provider =>
    have same := holds.provider_key state.place has
    cases given : state.currentSlot.declaration?.bind (·.provider) with
    | none => simp only [Context.sourceValues, sourceValues, same, given]
    | some name => simp only [Context.sourceValues, sourceValues, same, given]

/-- Corresponding states offer the same candidates. -/
theorem candidates_flat (holds : index.Holds root) (state : TreeState root) :
    (state.flat.context index description word).candidates index description registry =
      state.candidates description registry word := by
  have known : index.resolve state.flat.node = state.place.key :=
    Index.resolve_of_hasKey (holds.hasKey_key state.place)
  have only : state.flat.positionalOnly = state.positionalOnly := rfl
  rw [WalkState.context, candidates, values, known, optionPending_flat, only]
  split
  · rw [Context.candidates_options, holds.flags_key, filter_eraseDups, eraseDups_eraseDups]
  · rw [Context.candidates_slot, sourceValues_flat holds]

end TreeState

/-- **The index completes like the tree.** After any words, a walk of the index that is built
from a specification stands at the key of the place that a walk of the tree has reached, and the
same candidates are offered for any word, whatever rules and sources the description lists. -/
theorem complete_eq_tree {root : Command} {index : Index} (built : root.index = .ok index)
    (description : Description) (registry : Registry) (typed : List String) :
    (WalkState.run index description typed).node =
        (TreeState.run root description typed).place.key ∧
      ∀ word, complete index description registry typed word =
        root.complete description registry typed word := by
  obtain ⟨_, holds⟩ := Command.index_ok built
  have corresponds := TreeState.flat_run holds description typed
  refine ⟨by rw [← corresponds]; rfl, fun word => ?_⟩
  rw [complete, ← corresponds]
  exact TreeState.candidates_flat holds _

theorem complete_eq_tree_sampleProgram : ∃ index, sampleProgram.index = .ok index ∧
    (WalkState.run index .standard ["-v", "build", "a_b"]).node = "prog_build_a_b" ∧
    complete index .standard (Table.empty.insert "file-completer" (.ofList ["one", "build"]))
      ["-q"] "" = ["build", "test", "one"] := by
  obtain ⟨index, built⟩ := sampleProgram_accepted
  obtain ⟨sameNode, _⟩ :=
    complete_eq_tree built .standard Table.empty ["-v", "build", "a_b"]
  obtain ⟨_, sameCandidates⟩ := complete_eq_tree built .standard
    (Table.empty.insert "file-completer" (.ofList ["one", "build"])) ["-q"]
  refine ⟨index, built, ?_, ?_⟩
  · rw [sameNode]
    decide +kernel
  · rw [sameCandidates]
    decide +kernel

end CommandCompletion
