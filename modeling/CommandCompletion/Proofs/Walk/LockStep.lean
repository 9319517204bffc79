import CommandCompletion.Proofs.Candidates.Collecting
import CommandCompletion.Proofs.Walk.Invariant

/-!
# Two walks side by side

Two walks that read the same words may differ in their indexes or in the words read before.
If every rule leads related states to verdicts of one kind with related states, then so does
every list of rules (`WalkState.applyRules_related`), and related states stay related
whatever words follow (`WalkState.walk_related`).

What is offered behind a state depends on little of it: whether options may be completed,
whether subcommands may follow, and what the index holds of the command and of the current
slot. States that agree in this offer the same candidates (`WalkState.DrawsAlike.candidates`).
-/

set_option autoImplicit false

namespace CommandCompletion

/-- Two verdicts of one kind whose states are related. -/
inductive Verdict.Related (related : WalkState → WalkState → Prop) : Verdict → Verdict → Prop where
  | claimed {first second : WalkState} (states : related first second) :
      Related related (.claimed first) (.claimed second)
  | passed {first second : WalkState} (states : related first second) :
      Related related (.passed first) (.passed second)

theorem Verdict.Related.refl {related : WalkState → WalkState → Prop}
    (reflexive : ∀ state, related state state) (verdict : Verdict) :
    Verdict.Related related verdict verdict := by
  cases verdict with
  | claimed state => exact .claimed (reflexive state)
  | passed state => exact .passed (reflexive state)

/-- Looking an entry up under the key that is looked up for a key finds the entry of the key. -/
theorem Index.entry?_resolve (index : Index) (key : String) :
    index.entry? (index.resolve key) = index.entry? key := by
  have settled : index.resolve (index.resolve key) = index.resolve key := by
    by_cases known : index.hasKey key = true
    · rw [resolve_of_hasKey known, resolve_of_hasKey known]
    · have program : index.resolve key = index.root := by rw [resolve, if_neg known]
      rw [program, resolve, ite_self]
  rw [Index.entry?, settled, Index.entry?]

namespace WalkState

variable {index other : Index} {description : Description} {registry : Registry} {word : String}
variable {first second : WalkState}

/-! ## Related states -/

section Related

variable {related : WalkState → WalkState → Prop}

/-- The rules that are tried for a word lead related states to related states. -/
theorem applyRules_related
    (step : ∀ rule first second, related first second →
      Verdict.Related related (first.apply index description word rule)
        (second.apply other description word rule))
    (rules : List WalkRule) (holds : related first second) :
    related (applyRules index description word rules first)
      (applyRules other description word rules second) := by
  induction rules generalizing first second with
  | nil => exact holds
  | cons rule rest ih =>
    have verdicts := step rule first second holds
    rw [applyRules, applyRules]
    generalize first.apply index description word rule = verdict at verdicts ⊢
    generalize second.apply other description word rule = verdictToo at verdicts ⊢
    cases verdicts with
    | claimed states => exact states
    | passed states => exact ih states

/-- Related states stay related whatever words follow. -/
theorem walk_related
    (step : ∀ word first second, related first second →
      related (first.next index description word) (second.next other description word))
    (words : List String) (holds : related first second) :
    related (first.walk index description words) (second.walk other description words) := by
  induction words generalizing first second with
  | nil => exact holds
  | cons word rest ih => exact ih (step word first second holds)

end Related

/-! ## What is offered behind a state -/

/-- The values that a word draws on are those that the command of the state gives. -/
theorem drawn_context (index : Index) (description : Description) (registry : Registry)
    (state : WalkState) (word : String) :
    (state.context index description word).drawn index description.sources registry =
      if !state.positionalOnly && !state.optionPending && description.looksLikeOption word then
        index.flags state.node
      else (Context.slot state.node state.currentSlot state.subcommandsFollow word).drawn index
        description.sources registry := by
  have entry := index.entry?_resolve state.node
  rw [context]
  split
  · simp only [Context.drawn, Index.flags, entry]
  · simp only [Context.drawn, Index.subcommands, Index.choices, Index.provider, entry]

/-- Two states, each of an index of its own, that agree in all that candidates depend on. -/
structure DrawsAlike (index other : Index) (first second : WalkState) : Prop where
  positionalOnly : first.positionalOnly = second.positionalOnly
  optionPending : first.optionPending = second.optionPending
  subcommandsFollow : first.subcommandsFollow = second.subcommandsFollow
  flags : index.flags first.node = other.flags second.node
  subcommands : index.subcommands first.node = other.subcommands second.node
  choices : index.choices first.node first.currentSlot =
    other.choices second.node second.currentSlot
  provider : index.provider first.node first.currentSlot =
    other.provider second.node second.currentSlot

theorem DrawsAlike.candidates (alike : DrawsAlike index other first second)
    (description : Description) (registry : Registry) (word : String) :
    (first.context index description word).candidates index description registry =
      (second.context other description word).candidates other description registry := by
  have values : (Context.slot first.node first.currentSlot first.subcommandsFollow word).drawn
      index description.sources registry =
        (Context.slot second.node second.currentSlot second.subcommandsFollow word).drawn other
          description.sources registry := by
    simp only [Context.drawn, alike.subcommandsFollow, alike.subcommands, alike.choices,
      alike.provider]
  rw [Context.candidates_eq_drawn, Context.candidates_eq_drawn, word_context, word_context,
    drawn_context, drawn_context, values, alike.positionalOnly, alike.optionPending, alike.flags]

end WalkState

end CommandCompletion
