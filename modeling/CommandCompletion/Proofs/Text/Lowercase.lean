import CommandCompletion.Text.Lowercase
import Mathlib.Data.List.Infix

/-!
# Beginnings of texts in lower case

A text that begins another one does not always begin it in lower case too. The small form of a
capital sigma depends on what follows: at the end of a word it is the final one, and a text may
end there while the longer text goes on with the word. This is the only such case
(`lowercase_prefix_append_iff`): the text ends in a capital sigma in final position, characters
that case rules pass over left out, and the next character that they do not pass over in the
longer text is cased.
-/

set_option autoImplicit false

namespace CommandCompletion.Text

variable {casedBefore : Bool} {c : Char} {text more : List Char}

/-! ## What stands around a character -/

/-- Whether the last character of a text that is not case-ignorable is cased, given whether this
holds of what precedes the text. -/
def casedAfter (casedBefore : Bool) : List Char → Bool
  | [] => casedBefore
  | c :: rest => casedAfter (if isCaseIgnorable c then casedBefore else isCased c) rest

theorem casedAfter_concat (casedBefore : Bool) (text : List Char) (c : Char) :
    casedAfter casedBefore (text ++ [c]) =
      if isCaseIgnorable c then casedAfter casedBefore text else isCased c := by
  induction text generalizing casedBefore with
  | nil => rfl
  | cons first rest ih => exact ih _

theorem casedFollows_cons (c : Char) (rest : List Char) :
    casedFollows (c :: rest) = if isCaseIgnorable c then casedFollows rest else isCased c := by
  by_cases ignorable : isCaseIgnorable c = true
  · rw [casedFollows, List.dropWhile_cons_of_pos ignorable, if_pos ignorable, ← casedFollows]
  · rw [casedFollows, List.dropWhile_cons_of_neg ignorable, if_neg ignorable]

/-- What precedes a character is what follows it in the text read backwards. -/
theorem casedAfter_false (text : List Char) :
    casedAfter false text = casedFollows text.reverse := by
  induction text using List.reverseRecOn with
  | nil => rfl
  | append_singleton text c ih =>
    rw [casedAfter_concat, List.reverse_append, List.reverse_singleton, List.singleton_append,
      casedFollows_cons, ih]

theorem casedFollows_of_ignorable (ignorable : text.all isCaseIgnorable = true) :
    casedFollows text = false := by
  induction text with
  | nil => rfl
  | cons c rest ih =>
    obtain ⟨here, later⟩ := Bool.and_eq_true_iff.mp ignorable
    rw [casedFollows_cons, if_pos here, ih later]

theorem casedFollows_append_of_ignorable (ignorable : text.all isCaseIgnorable = true) :
    casedFollows (text ++ more) = casedFollows more := by
  induction text with
  | nil => rfl
  | cons c rest ih =>
    obtain ⟨here, later⟩ := Bool.and_eq_true_iff.mp ignorable
    rw [List.cons_append, casedFollows_cons, if_pos here, ih later]

/-- A character that is not case-ignorable hides what stands behind it. -/
theorem casedFollows_append_of_not (marked : ¬text.all isCaseIgnorable = true) :
    casedFollows (text ++ more) = casedFollows text := by
  induction text with
  | nil => exact absurd rfl marked
  | cons c rest ih =>
    rw [List.cons_append, casedFollows_cons, casedFollows_cons]
    by_cases here : isCaseIgnorable c = true
    · have markedLater : ¬rest.all isCaseIgnorable = true :=
        fun later => marked (Bool.and_eq_true_iff.mpr ⟨here, later⟩)
      rw [if_pos here, if_pos here, ih markedLater]
    · rw [if_neg here, if_neg here]

/-! ## A sigma at the end of a word -/

/-- A text that ends, case-ignorable characters left out, in a capital sigma behind a cased
character, given whether a cased character precedes the text. -/
def FinalSigmaAfter (casedBefore : Bool) (text : List Char) : Prop :=
  ∃ before passed, text = before ++ 'Σ' :: passed ∧ casedAfter casedBefore before = true ∧
    passed.all isCaseIgnorable = true

/-- A text that ends, case-ignorable characters left out, in a capital sigma behind a cased
character, which is the next one when the text is read backwards from the sigma. -/
def EndsInFinalSigma (text : List Char) : Prop :=
  ∃ before passed, text = before ++ 'Σ' :: passed ∧ casedFollows before.reverse = true ∧
    passed.all isCaseIgnorable = true

theorem finalSigmaAfter_false (text : List Char) :
    FinalSigmaAfter false text ↔ EndsInFinalSigma text := by
  simp only [FinalSigmaAfter, EndsInFinalSigma, casedAfter_false]

theorem isCaseIgnorable_sigma : isCaseIgnorable 'Σ' = false := by decide +kernel

theorem not_finalSigmaAfter_of_ignorable (ignorable : text.all isCaseIgnorable = true) :
    ¬FinalSigmaAfter casedBefore text := by
  rintro ⟨before, passed, rfl, _, _⟩
  simp [isCaseIgnorable_sigma] at ignorable

theorem finalSigmaAfter_cons_iff :
    FinalSigmaAfter casedBefore (c :: text) ↔
      (c = 'Σ' ∧ casedBefore = true ∧ text.all isCaseIgnorable = true) ∨
        FinalSigmaAfter (if isCaseIgnorable c then casedBefore else isCased c) text := by
  constructor
  · rintro ⟨before, passed, same, cased, ignorable⟩
    cases before with
    | nil =>
      cases same
      exact .inl ⟨rfl, cased, ignorable⟩
    | cons first before =>
      cases same
      exact .inr ⟨before, passed, rfl, cased, ignorable⟩
  · rintro (⟨rfl, cased, ignorable⟩ | ⟨before, passed, rfl, cased, ignorable⟩)
    · exact ⟨[], text, rfl, cased, ignorable⟩
    · exact ⟨c :: before, passed, rfl, cased, ignorable⟩

instance decidableFinalSigmaAfter (casedBefore : Bool) :
    (text : List Char) → Decidable (FinalSigmaAfter casedBefore text)
  | [] => .isFalse (not_finalSigmaAfter_of_ignorable rfl)
  | c :: rest =>
    have := decidableFinalSigmaAfter (if isCaseIgnorable c then casedBefore else isCased c) rest
    decidable_of_iff' _ finalSigmaAfter_cons_iff

instance decidableEndsInFinalSigma (text : List Char) : Decidable (EndsInFinalSigma text) :=
  decidable_of_iff _ (finalSigmaAfter_false text)

/-! ## Texts that begin others -/

/-- What a character becomes in lower case between two parts of a text, given whether each has a
cased character next to it. -/
def smallForm (casedBefore casedBehind : Bool) (c : Char) : List Char :=
  if c = 'Σ' then [if casedBefore && !casedBehind then 'ς' else 'σ']
  else if c = 'İ' then ['i', Char.ofNat 0x307]
  else [lowercaseChar c]

theorem lowercaseAfter_cons (casedBefore : Bool) (c : Char) (rest : List Char) :
    lowercaseAfter casedBefore (c :: rest) =
      smallForm casedBefore (casedFollows rest) c ++
        lowercaseAfter (if isCaseIgnorable c then casedBefore else isCased c) rest := by
  rw [lowercaseAfter, smallForm]
  split
  · rfl
  · split
    · rfl
    · rfl

/-- The small form of a character stays when the text goes on, unless it is a sigma behind which
nothing stood that ends a word. -/
theorem smallForm_append
    (inner : ¬(c = 'Σ' ∧ casedBefore = true ∧ text.all isCaseIgnorable = true)) :
    smallForm casedBefore (casedFollows (text ++ more)) c =
      smallForm casedBefore (casedFollows text) c := by
  by_cases sigma : c = 'Σ'
  · cases casedBefore with
    | false => simp [smallForm]
    | true =>
      rw [casedFollows_append_of_not fun ignorable => inner ⟨sigma, rfl, ignorable⟩]
  · simp [smallForm, sigma]

theorem lowercaseAfter_prefix_append_iff (casedBefore : Bool) (text more : List Char) :
    lowercaseAfter casedBefore text <+: lowercaseAfter casedBefore (text ++ more) ↔
      ¬(FinalSigmaAfter casedBefore text ∧ casedFollows more = true) := by
  induction text generalizing casedBefore with
  | nil =>
    have nothing : ¬FinalSigmaAfter casedBefore [] :=
      not_finalSigmaAfter_of_ignorable rfl
    simp [lowercaseAfter, nothing]
  | cons c rest ih =>
    rw [List.cons_append, lowercaseAfter_cons, lowercaseAfter_cons, finalSigmaAfter_cons_iff]
    by_cases final : c = 'Σ' ∧ casedBefore = true ∧ rest.all isCaseIgnorable = true
    · obtain ⟨rfl, rfl, ignorable⟩ := final
      rw [casedFollows_of_ignorable ignorable, casedFollows_append_of_ignorable ignorable]
      cases follows : casedFollows more with
      | true =>
        -- The sigma is final in the text, and is not in the longer one.
        refine iff_of_false ?_ (not_not.mpr ⟨.inl ⟨rfl, rfl, ignorable⟩, rfl⟩)
        simp [smallForm]
      | false =>
        rw [List.prefix_append_right_inj, ih]
        simp [follows]
    · rw [smallForm_append final, List.prefix_append_right_inj, ih]
      simp only [final, false_or]

/-- **Beginnings in lower case.** A text begins a longer text in lower case as well, unless it ends
in a sigma in final position and the longer text goes on with a cased character. -/
theorem lowercase_prefix_append_iff (text more : List Char) :
    lowercase text <+: lowercase (text ++ more) ↔
      ¬(EndsInFinalSigma text ∧ casedFollows more = true) := by
  rw [lowercase, lowercase, lowercaseAfter_prefix_append_iff, finalSigmaAfter_false]

end CommandCompletion.Text
