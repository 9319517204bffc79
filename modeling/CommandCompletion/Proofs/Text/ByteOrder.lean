import Mathlib.Data.Char
import Mathlib.Data.List.Lex
import Mathlib.Data.UInt

/-!
# The order of texts and of their bytes

Texts are compared by their characters, and characters by their code points. In UTF-8 the order of
the bytes is the same: the first byte of a character tells how many bytes follow and holds the
highest digits of the code point, and each byte that follows holds one more digit to the base 64.
So a smaller character has smaller bytes, whatever comes behind it (`utf8EncodeChar_lt`), and a
smaller text has smaller bytes (`bytes_lt_iff`).
-/

set_option autoImplicit false

namespace CommandCompletion.Text

/-- The bytes of a text in UTF-8. -/
def bytes (text : String) : List UInt8 :=
  text.toUTF8.data.toList

theorem bytes_eq_flatMap (text : String) :
    bytes text = text.toList.flatMap String.utf8EncodeChar := by
  rw [bytes, String.toUTF8_eq_toByteArray, ← String.utf8Encode_toList]
  simp [List.utf8Encode]

/-- A text is read back from its bytes. -/
theorem fromUTF8?_toUTF8 (text : String) : String.fromUTF8? text.toUTF8 = some text := by
  have valid : text.toUTF8.IsValidUTF8 := text.isValidUTF8
  rw [String.fromUTF8?, dif_pos valid]
  rfl

theorem ofNat_cons_lt {first other : Nat} {rest others : List UInt8} (small : other < 256)
    (less : first < other ∨ first = other ∧ rest < others) :
    UInt8.ofNat first :: rest < UInt8.ofNat other :: others := by
  rw [List.cons_lt_cons_iff]
  rcases less with less | ⟨rfl, less⟩
  · refine .inl ?_
    rw [UInt8.lt_iff_toNat_lt, UInt8.toNat_ofNat', UInt8.toNat_ofNat']
    omega
  · exact .inr ⟨rfl, less⟩

/-! ## Characters -/

/-- The lowest digits of a code point to the base 64, as the bytes that follow the first one. -/
def following (code : Nat) : Nat → List UInt8
  | 0 => []
  | count + 1 => UInt8.ofNat (code / 64 ^ count % 64 + 128) :: following code count

/-- How many bytes follow the first byte of a code point, and what that byte adds to its highest
digits. -/
inductive Leads (code : Nat) : Nat → Nat → Prop where
  | alone (less : code < 0x80) : Leads code 0 0
  | two (least : 0x80 ≤ code) (less : code < 0x800) : Leads code 1 192
  | three (least : 0x800 ≤ code) (less : code < 0x10000) : Leads code 2 224
  | four (least : 0x10000 ≤ code) (less : code < 0x110000) : Leads code 3 240

theorem utf8EncodeChar_eq (c : Char) : ∃ count offset, Leads c.toNat count offset ∧
    String.utf8EncodeChar c =
      UInt8.ofNat (c.toNat / 64 ^ count + offset) :: following c.toNat count := by
  have valid : c.toNat < 0xD800 ∨ 0xDFFF < c.toNat ∧ c.toNat < 0x110000 := c.valid
  generalize value : c.toNat = code at valid ⊢
  have stored : c.val.toNat = code := value
  unfold String.utf8EncodeChar
  dsimp only
  rw [stored]
  split_ifs with one two three
  · exact ⟨0, 0, .alone (by omega), by simp [following]⟩
  · have high : code / 64 % 32 = code / 64 := Nat.mod_eq_of_lt (by omega)
    exact ⟨1, 192, .two (by omega) (by omega), by simp [following, high]⟩
  · have high : code / 4096 % 16 = code / 4096 := Nat.mod_eq_of_lt (by omega)
    exact ⟨2, 224, .three (by omega) (by omega), by simp [following, high]⟩
  · have high : code / 262144 % 8 = code / 262144 := Nat.mod_eq_of_lt (by omega)
    exact ⟨3, 240, .four (by omega) (by omega), by simp [following, high]⟩

/-- A greater code point has a greater first byte, or the same one and the same number of bytes. -/
theorem Leads.lt_or_eq {code other count otherCount offset otherOffset : Nat} (less : code < other)
    (leads : Leads code count offset) (leadsToo : Leads other otherCount otherOffset) :
    code / 64 ^ count + offset < other / 64 ^ otherCount + otherOffset ∨
      count = otherCount ∧ code / 64 ^ count = other / 64 ^ count ∧ offset = otherOffset := by
  cases leads <;> cases leadsToo <;> omega

theorem Leads.small {code count offset : Nat} (leads : Leads code count offset) :
    code / 64 ^ count + offset < 256 := by
  cases leads <;> omega

/-- With the same digits in front of them, the lowest digits of a greater code point are greater. -/
theorem following_lt {code other count : Nat} (less : code < other)
    (same : code / 64 ^ count = other / 64 ^ count) (rest others : List UInt8) :
    following code count ++ rest < following other count ++ others := by
  induction count with
  | zero =>
    simp only [Nat.pow_zero, Nat.div_one] at same
    omega
  | succ count ih =>
    have sameHigh : code / 64 ^ count / 64 = other / 64 ^ count / 64 := by
      rwa [Nat.div_div_eq_div_mul, Nat.div_div_eq_div_mul, ← Nat.pow_succ]
    have monotone : code / 64 ^ count ≤ other / 64 ^ count := Nat.div_le_div_right (by omega)
    refine ofNat_cons_lt (by omega) ?_
    by_cases equal : code / 64 ^ count = other / 64 ^ count
    · exact .inr ⟨by rw [equal], ih equal⟩
    · exact .inl (by omega)

/-- A smaller character has smaller bytes, whatever follows. -/
theorem utf8EncodeChar_lt {c d : Char} (less : c < d) (rest others : List UInt8) :
    String.utf8EncodeChar c ++ rest < String.utf8EncodeChar d ++ others := by
  obtain ⟨count, offset, leads, spelled⟩ := utf8EncodeChar_eq c
  obtain ⟨otherCount, otherOffset, leadsToo, spelledToo⟩ := utf8EncodeChar_eq d
  have lessCode : c.toNat < d.toNat := less
  rw [spelled, spelledToo]
  refine ofNat_cons_lt leadsToo.small ?_
  rcases leads.lt_or_eq lessCode leadsToo with first | ⟨rfl, same, rfl⟩
  · exact .inl first
  · exact .inr ⟨by rw [same], following_lt lessCode same rest others⟩

/-! ## Texts -/

theorem flatMap_utf8EncodeChar_lt {first second : List Char} (less : first < second) :
    first.flatMap String.utf8EncodeChar < second.flatMap String.utf8EncodeChar := by
  induction less with
  | nil =>
    rename_i c rest
    obtain ⟨count, offset, _, spelled⟩ := utf8EncodeChar_eq c
    rw [List.flatMap_cons, spelled]
    exact List.nil_lt_cons _ _
  | rel less => exact utf8EncodeChar_lt less _ _
  | cons _ ih => exact List.append_left_lt ih

/-- The order of texts is the order of their bytes. -/
theorem bytes_lt_iff {first second : String} : bytes first < bytes second ↔ first < second := by
  rw [bytes_eq_flatMap, bytes_eq_flatMap]
  refine ⟨fun less => ?_, flatMap_utf8EncodeChar_lt⟩
  rcases lt_trichotomy first.toList second.toList with before | same | after
  · exact before
  · rw [same] at less
    exact absurd less (List.lt_irrefl _)
  · exact absurd (flatMap_utf8EncodeChar_lt after) (List.lt_asymm less)

end CommandCompletion.Text
