import CommandCompletion.Proofs.Candidates.Collecting
import CommandCompletion.Proofs.Index.Content

/-!
# Candidates for a word that goes on

The word under the cursor grows while it is typed. As long as it is completed as a flag, or as a
value of the slot, both before and after, the same values are drawn on, unless the provider of
the slot answers otherwise (`WalkState.drawn_context_congr`). When case is told apart, a value
that begins with the longer word begins with the shorter one (`Description.offers_longer`).

So more typing only narrows what is offered: the candidates for the longer word are those for
the shorter one that begin with it, in the same order (`longer_word_narrows`). A list of
candidates may be kept and filtered while the word grows.
-/

set_option autoImplicit false

namespace CommandCompletion

namespace Context

/-- Whether a word is completed as a flag. -/
def isOptions : Context → Bool
  | .options _ _ => true
  | .slot _ _ _ _ => false

/-- The provider bound to the slot that a word belongs to. -/
def provider? (index : Index) : Context → Option String
  | .options _ _ => none
  | .slot node key _ _ => index.provider node key

end Context

variable {index : Index} {description : Description} {registry : Registry} {word longer : String}

/-- If a word goes on, its kind and the answer of the provider being the same, so are the values
drawn on. -/
theorem WalkState.drawn_context_congr {state : WalkState}
    (sameKind : (state.context index description word).isOptions =
      (state.context index description longer).isOptions)
    (sameAnswer : ∀ name ∈ (state.context index description word).provider? index,
      registry.invoke name word = registry.invoke name longer)
    (sources : List CandidateSource) :
    (state.context index description longer).drawn index sources registry =
      (state.context index description word).drawn index sources registry := by
  rw [context, context] at sameKind ⊢
  rw [context] at sameAnswer
  split at sameKind <;> split at sameKind
  · rename_i asFlag asFlagToo
    rw [if_pos asFlag, if_pos asFlagToo]
    rfl
  · cases sameKind
  · cases sameKind
  · rename_i asValue asValueToo
    rw [if_neg asValue] at sameAnswer ⊢
    rw [if_neg asValueToo]
    have answers : registry.answer (index.provider (index.resolve state.node) state.currentSlot)
        longer = registry.answer (index.provider (index.resolve state.node) state.currentSlot)
          word := by
      cases bound : index.provider (index.resolve state.node) state.currentSlot with
      | none => rfl
      | some name =>
        rw [registry.answer_some, registry.answer_some]
        exact (sameAnswer name bound).symm
    simp only [Context.drawn, answers]

/-- When case is told apart, what is offered for a longer word is offered for the word too. -/
theorem Description.offers_longer (sensitive : description.matchCase = .sensitive)
    (goesOn : Text.startsWith longer word = true) (value : String) :
    description.offers longer value =
      (Text.startsWith value longer && description.offers word value) := by
  rw [offers, offers, accepts, accepts, sensitive]
  by_cases begins : Text.startsWith value longer = true
  · have beginsShorter : Text.startsWith value word = true :=
      Text.startsWith_trans begins goesOn
    simp [begins, beginsShorter]
  · simp [begins]

/-- **Typing more only narrows.** For every index, every description that tells case apart, any
providers and any typed words: if a word goes on and is completed as a flag both before and after,
or as a value both before and after, and the provider bound to the slot, if there is one, gives one
list for both words, then the candidates for the longer word are the candidates for the word that
begin with the longer one, in the same order. -/
theorem longer_word_narrows (index : Index) (description : Description) (registry : Registry)
    (typed : List String) {word longer : String} (sensitive : description.matchCase = .sensitive)
    (goesOn : Text.startsWith longer word = true)
    (sameKind : ((WalkState.run index description typed).context index description word).isOptions =
      ((WalkState.run index description typed).context index description longer).isOptions)
    (sameAnswer : ∀ name ∈
      ((WalkState.run index description typed).context index description word).provider? index,
      registry.invoke name word = registry.invoke name longer) :
    complete index description registry typed longer =
      (complete index description registry typed word).filter (Text.startsWith · longer) := by
  have sameDrawn := WalkState.drawn_context_congr sameKind sameAnswer description.sources
  rw [complete, complete, Context.candidates_eq_drawn, Context.candidates_eq_drawn,
    WalkState.word_context, WalkState.word_context, sameDrawn, filter_eraseDups,
    List.filter_filter]
  have narrowed : description.offers longer =
      fun value => Text.startsWith value longer && description.offers word value := by
    funext value
    exact Description.offers_longer sensitive goesOn value
  rw [narrowed]

/-- The choices of an option are narrowed while its value is typed, although the value begins like
a flag. -/
def narrowingProgram : Command where
  name := "prog"
  options := [{ flags := ["--sort"], arity := .exactly 1,
                choices := some ["-size", "name", "-size", "-since"], provider := some "keys" }]

/-- A provider that adds to the choices. -/
def narrowingRegistry : Registry :=
  Table.empty.insert "keys" (.ofList ["-since", "-sum"])

theorem narrowingProgram_accepted : ∃ index, narrowingProgram.index = .ok index :=
  Command.accepted_of_isSome (by decide +kernel)

theorem longer_word_narrows_narrowingProgram : ∃ index, narrowingProgram.index = .ok index ∧
    Text.startsWith "-si" "-" = true ∧
    ((WalkState.run index .standard ["--sort"]).context index .standard "-").provider? index =
      some "keys" ∧
    narrowingRegistry.invoke "keys" "-" = narrowingRegistry.invoke "keys" "-si" ∧
    complete index .standard narrowingRegistry ["--sort"] "-" = ["-size", "-since", "-sum"] ∧
    complete index .standard narrowingRegistry ["--sort"] "-si" = ["-size", "-since"] := by
  obtain ⟨index, built⟩ := narrowingProgram_accepted
  have bound : ((WalkState.run index .standard ["--sort"]).context index .standard "-").provider?
      index = some "keys" :=
    Command.index_observed built (fun index =>
      ((WalkState.run index .standard ["--sort"]).context index .standard "-").provider? index)
      (by decide +kernel)
  have kinds : ((WalkState.run index .standard ["--sort"]).context index .standard "-").isOptions =
      ((WalkState.run index .standard ["--sort"]).context index .standard "-si").isOptions :=
    of_decide_eq_true <| Command.index_observed built (fun index => decide
      (((WalkState.run index .standard ["--sort"]).context index .standard "-").isOptions =
        ((WalkState.run index .standard ["--sort"]).context index .standard "-si").isOptions))
      (by decide +kernel)
  have offered : complete index .standard narrowingRegistry ["--sort"] "-" =
      ["-size", "-since", "-sum"] :=
    Command.index_observed built (complete · .standard narrowingRegistry ["--sort"] "-")
      (by decide +kernel)
  have answers : ∀ name ∈
      ((WalkState.run index .standard ["--sort"]).context index .standard "-").provider? index,
      narrowingRegistry.invoke name "-" = narrowingRegistry.invoke name "-si" := by
    intro name member
    rw [bound] at member
    cases member
    decide +kernel
  have narrowed := longer_word_narrows index .standard narrowingRegistry ["--sort"] rfl
    (by decide : Text.startsWith "-si" "-" = true) kinds answers
  rw [offered] at narrowed
  exact ⟨index, built, by decide, bound, answers "keys" bound, offered,
    narrowed.trans (by decide +kernel)⟩

end CommandCompletion
