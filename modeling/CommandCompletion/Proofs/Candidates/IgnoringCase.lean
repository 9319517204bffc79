import CommandCompletion.Proofs.Candidates.Collecting
import CommandCompletion.Proofs.Index.Content
import CommandCompletion.Proofs.Text.Lowercase
import CommandCompletion.Proofs.Walk.Rules

/-!
# Candidates when case is ignored

Whether case is told apart has no part in how the typed words are read and in what is drawn on
for a word; it only decides which of the values drawn on begin with the word
(`complete_withMatchCase`). To ignore case is to compare both in lower case.

Almost every candidate that begins with the word literally does so in lower case. The exception
is due to the sigma: if the word ends in a capital sigma in final position, its small form is the
final one, and a candidate that goes on with a cased character has the other one there
(`Text.UndoesFinalSigma`). Such candidates are lost when case is ignored, and no others
(`literal_candidates_kept_iff`, `final_sigma_candidate_lost`).
-/

set_option autoImplicit false

namespace CommandCompletion

/-- The description with another comparison of case. -/
def Description.withMatchCase (description : Description) (matchCase : MatchCase) : Description :=
  { description with matchCase }

/-- A word ends in a sigma in final position, and the candidate goes on behind the word with a
cased character. -/
def Text.UndoesFinalSigma (candidate word : String) : Prop :=
  EndsInFinalSigma word.toList ∧
    casedFollows (candidate.toList.drop word.toList.length) = true

instance Text.decidableUndoesFinalSigma (candidate word : String) :
    Decidable (UndoesFinalSigma candidate word) :=
  inferInstanceAs (Decidable (_ ∧ _))

variable {description : Description} {candidate word : String}

/-- A candidate that begins with the word does so in lower case, unless the sigma at the end of the
word is not final in the candidate. -/
theorem Description.accepts_insensitive_iff (description : Description)
    (begins : Text.startsWith candidate word = true) :
    (description.withMatchCase .insensitive).accepts candidate word = true ↔
      ¬Text.UndoesFinalSigma candidate word := by
  obtain ⟨more, longer⟩ := List.isPrefixOf_iff_prefix.mp begins
  have behind : candidate.toList.drop word.toList.length = more := by
    rw [← longer, List.drop_left]
  rw [Text.UndoesFinalSigma, behind, ← Text.lowercase_prefix_append_iff, longer]
  exact List.isPrefixOf_iff_prefix

/-- The comparison of case decides which of the values drawn on are offered, and nothing else. -/
theorem complete_withMatchCase (index : Index) (description : Description) (registry : Registry)
    (typed : List String) (word : String) (matchCase : MatchCase) :
    complete index (description.withMatchCase matchCase) registry typed word =
      (((WalkState.run index description typed).context index description word).drawn index
        description.sources registry).eraseDups.filter
          ((description.withMatchCase matchCase).offers word) := by
  have alike : (description.withMatchCase matchCase).ReadsAlike description := ⟨rfl, rfl⟩
  have sameRun : WalkState.run index (description.withMatchCase matchCase) typed =
      WalkState.run index description typed :=
    WalkState.run_congr (fun _ _ => WalkState.applyRules_congr alike _ _) typed
  rw [complete, sameRun, WalkState.context_congr alike, Context.candidates_eq_drawn,
    WalkState.word_context, filter_eraseDups]
  rfl

/-- **What ignoring case adds and loses.** For every index, every description, any providers and
any typed words: a candidate that is offered for a word when case is told apart is also offered
when it is ignored, unless the word ends in a sigma in final position and the candidate goes on
behind it with a cased character; for then, and only then, it begins with the word but does not in
lower case. The candidates that are kept keep their order. -/
theorem literal_candidates_kept_iff (index : Index) (description : Description)
    (registry : Registry) (typed : List String) (word : String) :
    (∀ candidate, Text.startsWith candidate word = true →
      ((description.withMatchCase .insensitive).accepts candidate word = true ↔
        ¬Text.UndoesFinalSigma candidate word)) ∧
    (∀ candidate ∈ complete index (description.withMatchCase .sensitive) registry typed word,
      (candidate ∈ complete index (description.withMatchCase .insensitive) registry typed word ↔
        ¬Text.UndoesFinalSigma candidate word)) ∧
    ((complete index (description.withMatchCase .sensitive) registry typed word).filter
      fun candidate => ¬Text.UndoesFinalSigma candidate word).Sublist
        (complete index (description.withMatchCase .insensitive) registry typed word) := by
  rw [complete_withMatchCase, complete_withMatchCase]
  refine ⟨fun _ begins => description.accepts_insensitive_iff begins, ?kept, ?inOrder⟩
  case kept =>
    intro candidate member
    obtain ⟨drawn, offered⟩ := List.mem_filter.mp member
    obtain ⟨nonempty, begins⟩ := Description.offers_iff.mp offered
    rw [← description.accepts_insensitive_iff begins, List.mem_filter, Description.offers_iff]
    exact ⟨fun kept => kept.2.2, fun accepted => ⟨drawn, nonempty, accepted⟩⟩
  case inOrder =>
    rw [List.filter_filter]
    refine List.monotone_filter_right _ fun candidate kept => ?_
    obtain ⟨remains, offered⟩ := Bool.and_eq_true_iff.mp kept
    obtain ⟨nonempty, begins⟩ := Description.offers_iff.mp offered
    refine Description.offers_iff.mpr ⟨nonempty, ?_⟩
    exact (description.accepts_insensitive_iff begins).mpr (of_decide_eq_true remains)

/-- A program with two subcommands that begin alike, one of them in the middle of a word. -/
def sigmaProgram : Command where
  name := "prog"
  subcommands := [{ name := "ΑΣ-Α" }, { name := "ΑΣΑ" }]

theorem sigmaProgram_accepted : ∃ index, sigmaProgram.index = .ok index :=
  Command.accepted_of_isSome (by decide +kernel)

/-- Of two subcommands that begin with the word, the one that goes on with a hyphen is kept, and the
one that goes on with a letter is lost. -/
theorem literal_candidates_kept_iff_sigmaProgram : ∃ index, sigmaProgram.index = .ok index ∧
    (Text.startsWith "ΑΣ-Α" "ΑΣ" = true ∧
      ((Description.standard .sensitive).withMatchCase .insensitive).accepts "ΑΣ-Α" "ΑΣ" = true) ∧
    complete index ((Description.standard .sensitive).withMatchCase .sensitive) Table.empty [] "ΑΣ" =
      ["ΑΣ-Α", "ΑΣΑ"] ∧
    "ΑΣ-Α" ∈ complete index ((Description.standard .sensitive).withMatchCase .insensitive)
      Table.empty [] "ΑΣ" ∧
    "ΑΣΑ" ∉ complete index ((Description.standard .sensitive).withMatchCase .insensitive)
      Table.empty [] "ΑΣ" := by
  obtain ⟨index, built⟩ := sigmaProgram_accepted
  have offered : complete index ((Description.standard .sensitive).withMatchCase .sensitive)
      Table.empty [] "ΑΣ" = ["ΑΣ-Α", "ΑΣΑ"] :=
    Command.index_observed built (complete · ((Description.standard .sensitive).withMatchCase
      .sensitive) Table.empty [] "ΑΣ") (by decide +kernel)
  have begins : Text.startsWith "ΑΣ-Α" "ΑΣ" = true := by decide
  obtain ⟨accepts, kept, _⟩ := literal_candidates_kept_iff index (.standard .sensitive) Table.empty
    [] "ΑΣ"
  rw [offered] at kept
  refine ⟨index, built, ⟨begins, ?_⟩, offered, ?_, ?_⟩
  · exact (accepts "ΑΣ-Α" begins).mpr (by decide +kernel)
  · exact (kept "ΑΣ-Α" (by simp)).mpr (by decide +kernel)
  · exact fun member => (kept "ΑΣΑ" (by simp)).mp member (by decide +kernel)

/-- Telling case apart, a subcommand that begins with the word is offered; ignoring case, it is not,
since the sigma at the end of the word is a final one and the sigma in the subcommand is not. -/
theorem final_sigma_candidate_lost :
    Text.startsWith "ΑΣΑ" "ΑΣ" = true ∧
    (Description.standard .insensitive).accepts "ΑΣΑ" "ΑΣ" = false ∧
    ∃ index, sigmaProgram.index = .ok index ∧
      complete index (.standard .sensitive) Table.empty [] "ΑΣ" = ["ΑΣ-Α", "ΑΣΑ"] ∧
      complete index (.standard .insensitive) Table.empty [] "ΑΣ" = ["ΑΣ-Α"] := by
  obtain ⟨index, built⟩ := sigmaProgram_accepted
  refine ⟨by decide +kernel, by decide +kernel, index, built, ?_, ?_⟩
  · exact Command.index_observed built
      (complete · (.standard .sensitive) Table.empty [] "ΑΣ") (by decide +kernel)
  · exact Command.index_observed built
      (complete · (.standard .insensitive) Table.empty [] "ΑΣ") (by decide +kernel)

end CommandCompletion
