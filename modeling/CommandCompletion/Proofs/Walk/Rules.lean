import CommandCompletion.Candidates
import CommandCompletion.Proofs.FirstOccurrences
import CommandCompletion.Proofs.Walk.Invariant

/-!
# The rules of a description

A walk takes three things from its description: the marker of options, the separator, and the
list of rules. Descriptions with the first two in common read a word alike by each single rule
(`WalkState.apply_congr`), whatever else they say.

Of the list of rules only a part counts. A rule that hands a word on may close the open slot,
so it is not obvious that trying it again does nothing. But closing a slot is all that such
rules do, and no rule which has handed a word on claims it because a slot was closed
(`WalkState.consult_stable`). So a rule counts where it stands first, and the rule for
positionals, which claims every word, is the last one that is tried. What is left of the list
then is its normal form, and walks and candidates depend on the normal form alone
(`rules_normal_form`).
-/

set_option autoImplicit false

namespace CommandCompletion

/-- Descriptions with one marker and one separator. -/
structure Description.ReadsAlike (first second : Description) : Prop where
  marker : first.marker = second.marker
  separator : first.separator = second.separator

/-! ## Normal forms -/

namespace WalkRule

/-- The rules up to the first one for positionals. -/
def throughPositional : List WalkRule → List WalkRule
  | [] => []
  | rule :: rest => if rule = .positional then [rule] else rule :: throughPositional rest

/-- Every rule where it stands first, up to the one for positionals. -/
def normalForm (rules : List WalkRule) : List WalkRule :=
  throughPositional rules.eraseDups

/-- In a list in the order of first occurrences, the rules up to the one for positionals are those
that do not occur behind it. -/
theorem throughPositional_eq_filter {rules part : List WalkRule}
    (ordered : part.Pairwise fun earlier later => rules.idxOf earlier < rules.idxOf later)
    (covers : .positional ∈ rules → .positional ∈ part) :
    throughPositional part =
      part.filter fun rule => decide (rules.idxOf rule ≤ rules.idxOf .positional) := by
  induction part with
  | nil => rfl
  | cons rule rest ih =>
    obtain ⟨before, orderedRest⟩ := List.pairwise_cons.mp ordered
    rw [throughPositional]
    by_cases last : rule = .positional
    · subst last
      have nothing : rest.filter (fun rule =>
          decide (rules.idxOf rule ≤ rules.idxOf .positional)) = [] := by
        rw [List.filter_eq_nil_iff]
        intro later member
        simpa using before later member
      rw [if_pos rfl, List.filter_cons_of_pos (by simp), nothing]
    · have coversRest : .positional ∈ rules → .positional ∈ rest := by
        intro member
        exact (List.mem_cons.mp (covers member)).resolve_left fun same => last same.symm
      have kept : rules.idxOf rule ≤ rules.idxOf .positional := by
        by_cases member : .positional ∈ rules
        · exact Nat.le_of_lt (before _ (coversRest member))
        · rw [List.idxOf_eq_length member]
          exact List.idxOf_le_length
      rw [if_neg last, List.filter_cons_of_pos (by simpa using kept), ih orderedRest coversRest]

/-- The normal form has the first occurrences of the rules that do not occur first behind the rule
for positionals. -/
theorem firstsOf_normalForm (rules : List WalkRule) :
    FirstsOf (fun rule => rules.idxOf rule ≤ rules.idxOf .positional) rules (normalForm rules) := by
  rw [normalForm, throughPositional_eq_filter (pairwise_idxOf_eraseDups rules)
    List.mem_eraseDups.mpr, filter_eraseDups]
  exact firstsOf_eraseDups _ (fun _ => decide_eq_true_iff) rules

end WalkRule

/-- The description with its rules in normal form. -/
def Description.normal (description : Description) : Description :=
  { description with rules := WalkRule.normalForm description.rules }

namespace WalkState

variable {index : Index} {description other : Description} {word : String}
variable {state after : WalkState} {rule : WalkRule} {rules : List WalkRule}

/-! ## What a rule takes from the description -/

/-- A rule takes no more from the description than its marker and its separator. -/
theorem apply_congr (alike : description.ReadsAlike other) (index : Index) (word : String)
    (rule : WalkRule) (state : WalkState) :
    state.apply index description word rule = state.apply index other word rule := by
  obtain ⟨marker, separator, rules, sources, matchCase⟩ := description
  obtain ⟨sameMarker, sameSeparator⟩ := alike
  cases sameMarker
  cases sameSeparator
  cases rule <;> rfl

theorem applyRules_congr (alike : description.ReadsAlike other) (rules : List WalkRule)
    (state : WalkState) :
    applyRules index description word rules state = applyRules index other word rules state := by
  induction rules generalizing state with
  | nil => rfl
  | cons rule rest ih =>
    rw [applyRules, applyRules, apply_congr alike]
    cases state.apply index other word rule with
    | claimed next => rfl
    | passed next => exact ih next

theorem context_congr (alike : description.ReadsAlike other) (index : Index) (word : String)
    (state : WalkState) : state.context index description word = state.context index other word := by
  have looks : description.looksLikeOption word = other.looksLikeOption word := by
    rw [Description.looksLikeOption, alike.marker, ← Description.looksLikeOption]
  rw [context, context, looks]

/-- Descriptions that read every word alike lead to the same states. -/
theorem run_congr (same : ∀ state word, next index description state word =
    next index other state word) (words : List String) :
    run index description words = run index other words := by
  have step : next index description = next index other := by
    funext state word
    exact same state word
  rw [run, run, walk, walk, step]

/-! ## Rules that are tried again -/

/-- What a list of rules makes of a word. -/
def consult (index : Index) (description : Description) (word : String) :
    List WalkRule → WalkState → Verdict
  | [], state => .passed state
  | rule :: rest, state =>
    match state.apply index description word rule with
    | .claimed next => .claimed next
    | .passed next => consult index description word rest next

theorem applyRules_eq_consult (rules : List WalkRule) (state : WalkState) :
    applyRules index description word rules state =
      (consult index description word rules state).state := by
  induction rules generalizing state with
  | nil => rfl
  | cons rule rest ih =>
    rw [applyRules, consult]
    cases state.apply index description word rule with
    | claimed next => rfl
    | passed next => exact ih next

theorem consult_concat (rules : List WalkRule) (last : WalkRule) (state : WalkState) :
    consult index description word (rules ++ [last]) state =
      match consult index description word rules state with
      | .claimed next => .claimed next
      | .passed next => next.apply index description word last := by
  induction rules generalizing state with
  | nil =>
    simp only [List.nil_append, consult]
    cases state.apply index description word last with
    | claimed next => rfl
    | passed next => rfl
  | cons rule rest ih =>
    rw [List.cons_append, consult, consult]
    cases state.apply index description word rule with
    | claimed next => rfl
    | passed next => exact ih next

theorem ite_eq_passed_iff {declines : Prop} [Decidable declines] {handed next : WalkState} :
    (if declines then Verdict.passed handed else .claimed next) = .passed after ↔
      declines ∧ handed = after := by
  by_cases holds : declines <;> simp [holds]

/-- A rule that hands a word on changes nothing, or closes the open slot. -/
theorem passed_cases (passes : state.apply index description word rule = .passed after) :
    after = state ∨ after = state.release := by
  cases rule with
  | absorb =>
    simp only [apply, absorb] at passes
    split at passes
    · exact .inl (Verdict.passed.inj passes).symm
    · split at passes
      · cases passes
      · exact .inr (Verdict.passed.inj passes).symm
  | separator => exact .inl (ite_eq_passed_iff.mp passes).2.symm
  | subcommand => exact .inl (ite_eq_passed_iff.mp passes).2.symm
  | flag => exact .inl (ite_eq_passed_iff.mp passes).2.symm
  | positional => cases passes

/-- A rule that hands a word on still hands it on when the open slot is closed. -/
theorem release_stable (passes : state.apply index description word rule = .passed after) :
    state.release.apply index description word rule = .passed state.release := by
  cases rule with
  | absorb => simp [apply, absorb]
  | separator =>
    have declines := (ite_eq_passed_iff.mp passes).1
    simp only [apply, separate, release_positionalOnly]
    rw [if_pos declines]
  | subcommand =>
    have declines := (ite_eq_passed_iff.mp passes).1
    simp only [apply, descend, release_positionalOnly, release_node]
    rw [if_pos declines]
  | flag =>
    have declines := (ite_eq_passed_iff.mp passes).1
    simp only [apply, openOption, release_positionalOnly, release_node]
    rw [if_pos declines]
  | positional => cases passes

/-- Rules that handed a word on hand it on again, and change nothing any more. -/
theorem consult_stable (passes : consult index description word rules state = .passed after)
    (member : rule ∈ rules) : after.apply index description word rule = .passed after := by
  induction rules using List.reverseRecOn generalizing after with
  | nil => cases member
  | append_singleton rules last ih =>
    rw [consult_concat] at passes
    cases earlier : consult index description word rules state with
    | claimed claimed =>
      rw [earlier] at passes
      cases passes
    | passed passing =>
      rw [earlier] at passes
      rcases List.mem_append.mp member with memberEarlier | here
      · have stable := ih earlier memberEarlier
        -- The last rule changed nothing, or it closed the slot.
        rcases passed_cases passes with rfl | rfl
        · exact stable
        · exact release_stable stable
      · cases List.mem_singleton.mp here
        rcases passed_cases passes with rfl | rfl
        · exact passes
        · exact release_stable passes

/-- Of a rule that is listed more than once only the first counts. -/
theorem consult_eraseDups (rules : List WalkRule) (state : WalkState) :
    consult index description word rules.eraseDups state =
      consult index description word rules state := by
  induction rules using List.reverseRecOn with
  | nil => rfl
  | append_singleton rules last ih =>
    rw [eraseDups_concat, consult_concat]
    by_cases repeated : last ∈ rules
    · rw [if_pos repeated, ih]
      cases earlier : consult index description word rules state with
      | claimed claimed => rfl
      | passed passing => exact (consult_stable earlier repeated).symm
    · rw [if_neg repeated, consult_concat, ih]

/-- No rule behind one for positionals is ever tried. -/
theorem applyRules_throughPositional (rules : List WalkRule) (state : WalkState) :
    applyRules index description word (WalkRule.throughPositional rules) state =
      applyRules index description word rules state := by
  induction rules generalizing state with
  | nil => rfl
  | cons rule rest ih =>
    rw [WalkRule.throughPositional]
    by_cases last : rule = .positional
    · subst last
      rfl
    · rw [if_neg last, applyRules, applyRules]
      cases state.apply index description word rule with
      | claimed next => rfl
      | passed next => exact ih next

theorem applyRules_normalForm (rules : List WalkRule) (state : WalkState) :
    applyRules index description word (WalkRule.normalForm rules) state =
      applyRules index description word rules state := by
  rw [WalkRule.normalForm, applyRules_throughPositional, applyRules_eq_consult, consult_eraseDups,
    ← applyRules_eq_consult]

theorem next_normal (index : Index) (description : Description) (state : WalkState)
    (word : String) :
    next index description.normal state word = next index description state word := by
  have alike : description.normal.ReadsAlike description := ⟨rfl, rfl⟩
  calc next index description.normal state word
      = applyRules index description word (WalkRule.normalForm description.rules)
          (state.rooted index) := applyRules_congr alike _ _
    _ = next index description state word := applyRules_normalForm _ _

end WalkState

/-- **Rules in normal form.** The normal form of a description has the first occurrences of its
rules, those left out that occur first behind the rule for positionals. For every index, every
state and every word the description and its normal form lead to the same state; so they lead to
the same state after every list of words and to the same candidates for every word. -/
theorem rules_normal_form (index : Index) (description : Description) :
    FirstsOf (fun rule => description.rules.idxOf rule ≤ description.rules.idxOf .positional)
        description.rules description.normal.rules ∧
      (∀ state word, WalkState.next index description.normal state word =
        WalkState.next index description state word) ∧
      (∀ words, WalkState.run index description.normal words =
        WalkState.run index description words) ∧
      ∀ registry typed word, complete index description.normal registry typed word =
        complete index description registry typed word := by
  have sameNext := WalkState.next_normal index description
  have sameRun := WalkState.run_congr sameNext
  refine ⟨WalkRule.firstsOf_normalForm description.rules, sameNext, sameRun, ?_⟩
  intro registry typed word
  have alike : description.normal.ReadsAlike description := ⟨rfl, rfl⟩
  rw [complete, complete, sameRun, WalkState.context_congr alike]
  -- The candidates in a context do not ask for the rules.
  cases (WalkState.run index description typed).context index description word <;> rfl

example : WalkRule.normalForm [.flag, .absorb, .flag, .positional, .absorb, .subcommand] =
    [.flag, .absorb, .positional] := by decide

end CommandCompletion
