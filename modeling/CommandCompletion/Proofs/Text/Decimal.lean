import CommandCompletion.Arity
import CommandCompletion.Proofs.Text.Words

/-!
# Numbers in decimal

The value of digits read from the left is that of `Nat.ofDigitChars`, so reading the digits in
which a number is printed gives the number back. These digits begin with a zero only if the number
is zero. A text is a count exactly if it is one or more digits after at most one plus sign and its
value is below the bound (`readCount_eq_some_iff`).
-/

set_option autoImplicit false

namespace CommandCompletion.Text

/-- The value of decimal digits is the library's. -/
theorem valueOfDigits_eq_ofDigitChars (digits : List Char) :
    valueOfDigits 10 decimalValue digits = Nat.ofDigitChars 10 digits 0 := by
  rw [valueOfDigits, Nat.ofDigitChars_eq_foldl]
  congr 1
  funext value digit
  rw [decimalValue, Nat.mul_comm]

theorem isDigit_of_mem_toDigits {value : Nat} {digit : Char}
    (member : digit ∈ Nat.toDigits 10 value) : isDigit digit = true :=
  isDigit_of_charIsDigit (Nat.isDigit_of_mem_toDigits (by decide) (by decide) member)

theorem isDigits_iff {text : List Char} :
    isDigits text = true ↔ text ≠ [] ∧ ∀ digit ∈ text, isDigit digit = true := by
  simp [isDigits, List.all_eq_true]

theorem isDigits_toDigits (value : Nat) : isDigits (Nat.toDigits 10 value) = true :=
  isDigits_iff.mpr ⟨Nat.toDigits_ne_nil, fun _ => isDigit_of_mem_toDigits⟩

theorem valueOfDigits_toDigits (value : Nat) :
    valueOfDigits 10 decimalValue (Nat.toDigits 10 value) = value := by
  rw [valueOfDigits_eq_ofDigitChars, Nat.ofDigitChars_toDigits (by decide) (by decide)]

/-- Only zero is printed with a zero in front. -/
theorem toDigits_eq_cons_zero {value : Nat} {rest : List Char}
    (printed : Nat.toDigits 10 value = '0' :: rest) : rest = [] := by
  induction value using Nat.strongRecOn generalizing rest with
  | ind value ih =>
    by_cases small : value < 10
    · rw [Nat.toDigits_of_lt_base small] at printed
      exact (List.cons.inj printed).2.symm
    · rw [Nat.toDigits_of_base_le (by decide) (Nat.not_lt.mp small)] at printed
      cases shorter : Nat.toDigits 10 (value / 10) with
      | nil => exact absurd shorter Nat.toDigits_ne_nil
      | cons first others =>
        rw [shorter, List.cons_append] at printed
        obtain ⟨rfl, _⟩ := List.cons.inj printed
        cases ih (value / 10) (by omega) shorter
        -- The digits of a tenth would be those of zero.
        have tenth : Nat.ofDigitChars 10 (Nat.toDigits 10 (value / 10)) 0 = 0 := by
          rw [shorter]
          decide
        rw [Nat.ofDigitChars_toDigits (by decide) (by decide)] at tenth
        omega

theorem readDigits_eq_some_iff {text : List Char} {value : Nat} :
    readDigits text = some value ↔ text ≠ [] ∧ (∀ digit ∈ text, isDigit digit = true) ∧
      Nat.ofDigitChars 10 text 0 = value ∧ value < countBound := by
  rw [← and_assoc, ← isDigits_iff, readDigits, ← valueOfDigits_eq_ofDigitChars]
  constructor
  · intro read
    split at read
    · rename_i digits
      simp only at read
      split at read
      · cases read
        exact ⟨digits, rfl, ‹_›⟩
      · cases read
    · cases read
  · rintro ⟨digits, rfl, small⟩
    simp only [digits, if_true, small]

/-- A count is one or more digits after at most one plus sign, with a value below the bound. -/
theorem readCount_eq_some_iff {text : List Char} {value : Nat} :
    readCount text = some value ↔ ∃ digits, (text = digits ∨ text = '+' :: digits) ∧
      digits ≠ [] ∧ (∀ digit ∈ digits, isDigit digit = true) ∧
        Nat.ofDigitChars 10 digits 0 = value ∧ value < countBound := by
  have signNoDigit : isDigit '+' = false := by decide
  unfold readCount
  split
  · rename_i digits
    rw [readDigits_eq_some_iff]
    constructor
    · intro read
      exact ⟨digits, .inr rfl, read⟩
    · rintro ⟨others, rfl | same, nonempty, decimal, rest⟩
      · rw [decimal '+' List.mem_cons_self] at signNoDigit
        cases signNoDigit
      · cases same
        exact ⟨nonempty, decimal, rest⟩
  · rename_i unsigned
    rw [readDigits_eq_some_iff]
    constructor
    · intro read
      exact ⟨text, .inl rfl, read⟩
    · rintro ⟨digits, rfl | rfl, read⟩
      · exact read
      · exact absurd rfl (unsigned digits)

theorem readCount_toDigits {value : Nat} (small : value < countBound) :
    readCount (Nat.toDigits 10 value) = some value :=
  readCount_eq_some_iff.mpr ⟨_, .inl rfl, Nat.toDigits_ne_nil, fun _ => isDigit_of_mem_toDigits,
    Nat.ofDigitChars_toDigits (by decide) (by decide), small⟩

end CommandCompletion.Text
