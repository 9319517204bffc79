import CommandCompletion.Candidates
import CommandCompletion.Proofs.FirstOccurrences

/-!
# Collected values

Values are collected one after the other: one that is not offered for the word, or was
collected before, is passed over. What is collected in this way from several lists is what
is offered among all their values, each at its first occurrence. So the candidates in a
context are found without looking back at what was collected (`candidates_options`,
`candidates_slot`).
-/

set_option autoImplicit false

namespace CommandCompletion

namespace Context

variable {index : Index} {description : Description} {registry : Registry} {word : String}

/-- Collecting goes on where the first occurrences among the earlier values end. -/
theorem collect_eraseDups (earlier values : List String) :
    collect description word earlier.eraseDups values =
      (earlier ++ values.filter (description.offers word)).eraseDups := by
  induction values generalizing earlier with
  | nil => simp [collect]
  | cons value rest ih =>
    rw [collect, List.foldl_cons, ← collect]
    by_cases offered : description.offers word value = true
    · have collected : (if description.offers word value && !earlier.eraseDups.contains value then
          earlier.eraseDups ++ [value] else earlier.eraseDups) =
            (earlier ++ [value]).eraseDups := by
        -- A value is among the first occurrences as soon as it occurs.
        rw [eraseDups_concat]
        by_cases met : value ∈ earlier <;> simp [offered, met]
      rw [collected, ih, List.filter_cons_of_pos offered]
      simp
    · rw [List.filter_cons_of_neg offered, ← ih]
      simp [offered]

theorem collect_nil (values : List String) :
    collect description word [] values = (values.filter (description.offers word)).eraseDups :=
  collect_eraseDups [] values

/-- Asking sources one after the other collects from all their values together. -/
theorem foldl_collect (values : CandidateSource → List String) (sources : List CandidateSource)
    (earlier : List String) :
    sources.foldl (fun found source => collect description word found (values source))
        earlier.eraseDups =
      (earlier ++ (sources.flatMap values).filter (description.offers word)).eraseDups := by
  induction sources generalizing earlier with
  | nil => simp
  | cons source rest ih =>
    rw [List.foldl_cons, collect_eraseDups, ih, List.flatMap_cons, List.filter_append,
      List.append_assoc]

theorem candidates_options (node : String) :
    (options node word).candidates index description registry =
      ((index.flags node).filter (description.offers word)).eraseDups :=
  collect_nil (index.flags node)

theorem candidates_slot (node key : String) (subcommands : Bool) :
    (slot node key subcommands word).candidates index description registry =
      ((description.sources.flatMap
        (sourceValues index registry node key subcommands word)).filter
          (description.offers word)).eraseDups :=
  foldl_collect (sourceValues index registry node key subcommands word) description.sources []

end Context

/-! ## What is drawn on and what is offered -/

/-- What the provider bound to a slot gives for a word; nothing if none is bound, if the one
bound is not in the registry, or if it refuses. -/
def Registry.answer (registry : Registry) (bound : Option String) (word : String) : List String :=
  ((bound.bind registry.get?).bind fun provider => (provider word).toOption).getD []

theorem Registry.answer_some (registry : Registry) (name word : String) :
    registry.answer (some name) word = registry.invoke name word := by
  rw [answer, invoke, Option.bind_some]
  cases registry.get? name with
  | none => rfl
  | some provider =>
    cases given : provider word with
    | ok values => simp [given, Except.toOption]
    | error fault => simp [given, Except.toOption]

namespace Context

/-- All values that a context draws on, in the order of the sources, with their repetitions. -/
def drawn (index : Index) (sources : List CandidateSource) (registry : Registry) :
    Context → List String
  | .options node _ => index.flags node
  | .slot node key subcommands word => sources.flatMap fun
    | .subcommands => if subcommands then index.subcommands node else []
    | .choices => index.choices node key
    | .provider => registry.answer (index.provider node key) word

theorem candidates_eq_drawn (index : Index) (description : Description) (registry : Registry)
    (context : Context) : context.candidates index description registry =
      ((context.drawn index description.sources registry).filter
        (description.offers context.word)).eraseDups := by
  cases context with
  | options node word => exact candidates_options node
  | slot node key subcommands word =>
    have same : sourceValues index registry node key subcommands word = fun
        | .subcommands => if subcommands then index.subcommands node else []
        | .choices => index.choices node key
        | .provider => registry.answer (index.provider node key) word := by
      funext source
      cases source with
      | subcommands => rfl
      | choices => rfl
      | provider =>
        rw [sourceValues]
        cases index.provider node key with
        | none => rfl
        | some name => exact (registry.answer_some name word).symm
    rw [candidates_slot, same]
    rfl

end Context

theorem Description.offers_iff {description : Description} {word value : String} :
    description.offers word value = true ↔
      value ≠ "" ∧ description.accepts value word = true := by
  simp [offers]

theorem WalkState.word_context (index : Index) (description : Description) (state : WalkState)
    (word : String) : (state.context index description word).word = word := by
  rw [context]
  split <;> rfl

/-- **What is offered for a word.** Completing offers exactly the first occurrences, among all
values that the context of the word draws on, of those that are not empty and begin with the
word. -/
theorem complete_firstsOf (index : Index) (description : Description) (registry : Registry)
    (typed : List String) (word : String) :
    FirstsOf (fun value => value ≠ "" ∧ description.accepts value word = true)
      (((WalkState.run index description typed).context index description word).drawn index
        description.sources registry)
      (complete index description registry typed word) := by
  rw [complete, Context.candidates_eq_drawn, WalkState.word_context]
  exact firstsOf_eraseDups (description.offers word) (fun _ => Description.offers_iff) _

end CommandCompletion
