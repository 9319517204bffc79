import CommandCompletion.Proofs.Candidates.Collecting
import CommandCompletion.Proofs.Index.Content
import CommandCompletion.Proofs.Walk.Rules

/-!
# The sources of a description

The sources have no part in how the typed words are read: descriptions that differ in their
sources only lead to one context for the word (`complete_withSources`). The sources are then
asked in their order, and several of them may give one value, which is kept where it is met
first.

So a source that is asked again gives nothing new, and the candidates are those of the list
without its repetitions. Asking the sources in another order gives the values in another order.
Which values are offered depends on the set of the sources alone (`sources_act_as_set`).
-/

set_option autoImplicit false

namespace CommandCompletion

/-- The description with other sources. -/
def Description.withSources (description : Description) (sources : List CandidateSource) :
    Description :=
  { description with sources }

namespace Context

variable {index : Index} {registry : Registry}

/-- A source that is asked again gives no value that was not met before. -/
theorem drawn_eraseDups (sources : List CandidateSource) (context : Context) :
    (context.drawn index sources.eraseDups registry).eraseDups =
      (context.drawn index sources registry).eraseDups := by
  cases context with
  | options node word => rfl
  | slot node key subcommands word => exact eraseDups_flatMap_eraseDups _ sources

/-- What is drawn on, order and repetitions apart, depends on which sources are asked. -/
theorem mem_drawn_congr {sources others : List CandidateSource}
    (same : ∀ source, source ∈ sources ↔ source ∈ others) (context : Context) (value : String) :
    value ∈ context.drawn index sources registry ↔
      value ∈ context.drawn index others registry := by
  cases context with
  | options node word => rfl
  | slot node key subcommands word =>
    rw [drawn, drawn, List.mem_flatMap, List.mem_flatMap]
    constructor
    · rintro ⟨source, member, given⟩
      exact ⟨source, (same source).mp member, given⟩
    · rintro ⟨source, member, given⟩
      exact ⟨source, (same source).mpr member, given⟩

end Context

/-- The sources decide what is drawn on, and nothing else. -/
theorem complete_withSources (index : Index) (description : Description) (registry : Registry)
    (typed : List String) (word : String) (sources : List CandidateSource) :
    complete index (description.withSources sources) registry typed word =
      (((WalkState.run index description typed).context index description word).drawn index sources
        registry).eraseDups.filter (description.offers word) := by
  have alike : (description.withSources sources).ReadsAlike description := ⟨rfl, rfl⟩
  have sameRun : WalkState.run index (description.withSources sources) typed =
      WalkState.run index description typed :=
    WalkState.run_congr (fun _ _ => WalkState.applyRules_congr alike _ _) typed
  rw [complete, sameRun, WalkState.context_congr alike, Context.candidates_eq_drawn,
    WalkState.word_context, filter_eraseDups]
  rfl

/-- **Sources act as a set.** For every index, every description, any providers, any typed words
and any word: if a list of sources is replaced by its first occurrences, the candidates are the
same; if it is replaced by another list of the same sources, in any order and with any repetitions,
the candidates are the same in some order. -/
theorem sources_act_as_set (index : Index) (description : Description) (registry : Registry)
    (typed : List String) (word : String) (sources : List CandidateSource) :
    complete index (description.withSources sources.eraseDups) registry typed word =
      complete index (description.withSources sources) registry typed word ∧
    ∀ others : List CandidateSource, (∀ source, source ∈ others ↔ source ∈ sources) →
      (complete index (description.withSources others) registry typed word).Perm
        (complete index (description.withSources sources) registry typed word) := by
  constructor
  · rw [complete_withSources, complete_withSources, Context.drawn_eraseDups]
  · intro others same
    rw [complete_withSources, complete_withSources]
    refine List.Perm.filter _ (eraseDups_perm_of_mem_iff ?_)
    exact Context.mem_drawn_congr same _

/-- A program with a subcommand that is also a choice of its positional, for which a provider is
named that has one of the choices too. -/
def sharingProgram : Command where
  name := "prog"
  positionals := [{ name := "what", choices := some ["stop", "start"], provider := some "extra" }]
  subcommands := [{ name := "start" }]

/-- A provider of one value more, among values that are given elsewhere too. -/
def sharingRegistry : Registry :=
  Table.empty.insert "extra" (.ofList ["status", "stop", ""])

theorem sharingProgram_accepted : ∃ index, sharingProgram.index = .ok index :=
  Command.accepted_of_isSome (by decide +kernel)

theorem sources_act_as_set_sharingProgram : ∃ index, sharingProgram.index = .ok index ∧
    (∀ source, source ∈ [CandidateSource.provider, .choices, .subcommands, .provider] ↔
      source ∈ (Description.standard).sources) ∧
    complete index .standard sharingRegistry [] "st" = ["start", "stop", "status"] ∧
    (complete index ((Description.standard).withSources
      [.provider, .choices, .subcommands, .provider]) sharingRegistry [] "st").Perm
        ["start", "stop", "status"] := by
  obtain ⟨index, built⟩ := sharingProgram_accepted
  have offered : complete index .standard sharingRegistry [] "st" = ["start", "stop", "status"] :=
    Command.index_observed built (complete · .standard sharingRegistry [] "st")
      (by decide +kernel)
  have same : ∀ source, source ∈ [CandidateSource.provider, .choices, .subcommands, .provider] ↔
      source ∈ (Description.standard).sources := by
    intro source
    cases source <;> decide
  refine ⟨index, built, same, offered, ?_⟩
  rw [← offered]
  exact (sources_act_as_set index .standard sharingRegistry [] "st"
    (Description.standard).sources).2 _ same

end CommandCompletion
