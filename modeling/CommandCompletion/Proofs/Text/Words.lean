import CommandCompletion.Command
import Mathlib.Logic.Function.Basic
import Std.Data.String.ToNat

/-!
# Words, plain texts and positional keys

What a script can hold is described here without the checks that decide it. A word is a
text with at least one character and neither blanks nor control characters; a plain text
has no control character and may be empty or hold blanks. A positional form is `pos_`
followed by decimal digits.

The checks decide exactly these descriptions. The key of every positional slot is a
positional form, and different places have different keys (`positionalKey_injective`).
-/

set_option autoImplicit false

namespace CommandCompletion

namespace Text

/-- A text that is not empty and holds neither blanks nor control characters. -/
def Word (text : String) : Prop :=
  text ≠ "" ∧ ∀ c ∈ text.toList, isBlank c = false ∧ isControl c = false

/-- A text without control characters. -/
def Plain (text : String) : Prop :=
  ∀ c ∈ text.toList, isControl c = false

theorem isWord_iff {text : String} : isWord text = true ↔ Word text := by
  simp [isWord, Word, List.all_eq_true]

theorem any_isControl_iff {text : String} : text.toList.any isControl = true ↔ ¬Plain text := by
  simp [Plain, List.any_eq_true]

/-- All characters below the space are control characters, so those of a word are above it. -/
theorem Word.space_lt {text : String} (word : Word text) : ∀ c ∈ text.toList, ' ' < c := by
  intro c member
  obtain ⟨ink, visible⟩ := word.2 c member
  have notSpace : c.toNat ≠ 0x20 := by
    intro same
    simp [isBlank, same] at ink
  have notBelow : ¬c.toNat < 0x20 := by
    intro below
    simp [isControl, below] at visible
  change 0x20 < c.toNat
  omega

theorem Word.space_notMem {text : String} (word : Word text) : ' ' ∉ text.toList :=
  fun member => Char.lt_irrefl ' ' (word.space_lt ' ' member)

theorem Plain.newline_notMem {text : String} (plain : Plain text) : '\n' ∉ text.toList := by
  intro member
  cases plain '\n' member

theorem Word.plain {text : String} (word : Word text) : Plain text :=
  fun c member => (word.2 c member).2

theorem startsWith_trans {first second third : String} (begins : startsWith first second = true)
    (beginsToo : startsWith second third = true) : startsWith first third = true := by
  rw [startsWith, List.isPrefixOf_iff_prefix] at begins beginsToo ⊢
  exact beginsToo.trans begins

theorem startsWith_append_left (common text start : String) :
    startsWith (common ++ text) (common ++ start) = startsWith text start := by
  rw [startsWith, startsWith, String.toList_append, String.toList_append]
  exact Bool.eq_iff_iff.mpr (by simp)

theorem isDigit_of_charIsDigit {c : Char} (digit : c.isDigit = true) : isDigit c = true := by
  simpa [isDigit, Char.isDigit, Char.le_def] using digit

/-- A number is written in digits only. -/
theorem notMem_toDigits {c : Char} (other : ∀ digit : Nat, digit.digitChar ≠ c) {base : Nat}
    (large : 1 < base) (value : Nat) : c ∉ Nat.toDigits base value := by
  induction value using Nat.strongRecOn with
  | ind value ih =>
    rw [Nat.toDigits_eq_if large]
    split
    · simp [Ne.symm (other value)]
    · rename_i notSmall
      have less : value / base < value := Nat.div_lt_self (by omega) large
      simp [ih _ less, Ne.symm (other (value % base))]

end Text

/-- A text of the form in which positional slots are named: `pos_` and decimal digits. -/
def PositionalForm (text : String) : Prop :=
  ∃ digits : List Char, digits ≠ [] ∧ (∀ digit ∈ digits, Text.isDigit digit = true) ∧
    text = "pos_" ++ String.ofList digits

theorem isPositionalKey_iff {text : String} :
    isPositionalKey text = true ↔ PositionalForm text := by
  unfold isPositionalKey
  constructor
  · intro recognised
    split at recognised
    · rename_i digits spelled
      simp only [Text.isDigits, Bool.and_eq_true, Bool.not_eq_true', List.isEmpty_eq_false_iff,
        List.all_eq_true] at recognised
      refine ⟨digits, recognised.1, recognised.2, String.toList_inj.mp ?_⟩
      simp [spelled]
    · cases recognised
  · rintro ⟨digits, nonempty, decimal, rfl⟩
    simpa [Text.isDigits, nonempty] using decimal

/-- The keys of positional slots have the form that is reserved for them. -/
theorem positionalForm_positionalKey (place : Nat) : PositionalForm (positionalKey place) := by
  refine ⟨Nat.toDigits 10 place, Nat.toDigits_ne_nil, fun digit member => ?_, ?_⟩
  · exact Text.isDigit_of_charIsDigit
      (Nat.isDigit_of_mem_toDigits (by decide) (by decide) member)
  · rw [positionalKey, Nat.toString_eq_ofList_toDigits]

/-- Different positionals have different keys. -/
theorem positionalKey_injective : Function.Injective positionalKey := by
  intro first second same
  exact Nat.repr_injective ((String.append_right_inj "pos_").mp same)

end CommandCompletion
