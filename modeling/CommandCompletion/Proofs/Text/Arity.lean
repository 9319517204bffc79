import CommandCompletion.Document
import CommandCompletion.Proofs.Json.Written

/-!
# Text forms of arities

Four symbols and the counts below two to the sixty-fourth are the texts that denote an arity
(`Arity.SpelledBy`); a count may have a plus sign and zeros in front. Blanks around the text do not
matter (`Text.TrimsTo`). Reading accepts exactly these texts, and reports any other one as it was
given. The form that is printed is one of them, and it stays one when it is written as a JSON
string and read again (`arity_texts`).
-/

set_option autoImplicit false

namespace CommandCompletion

namespace Text

/-- A text without the blanks in front of it and behind it. -/
structure TrimsTo (text trimmed : List Char) : Prop where
  exists_blanks : ∃ front back, text = front ++ trimmed ++ back ∧
    (∀ c ∈ front, isBlank c = true) ∧ ∀ c ∈ back, isBlank c = true
  start : ∀ c, trimmed.head? = some c → isBlank c = false
  finish : ∀ c, trimmed.getLast? = some c → isBlank c = false

theorem append_takeWhile_reverse (text : List Char) (holds : Char → Bool) :
    (text.reverse.dropWhile holds).reverse ++ (text.reverse.takeWhile holds).reverse = text := by
  rw [← List.reverse_append, List.takeWhile_append_dropWhile, List.reverse_reverse]

theorem head?_dropWhile_isBlank (text : List Char) (c : Char)
    (first : (text.dropWhile isBlank).head? = some c) : isBlank c = false := by
  have found := List.head?_dropWhile_not isBlank text
  rw [first] at found
  simpa using found

/-- Trimming leaves what is between the blanks at both ends. -/
theorem trimsTo_trim (text : List Char) : TrimsTo text (trim text) where
  exists_blanks := by
    refine ⟨text.takeWhile isBlank,
      ((text.dropWhile isBlank).reverse.takeWhile isBlank).reverse, ?_, ?_, ?_⟩
    · rw [trim, List.append_assoc, append_takeWhile_reverse, List.takeWhile_append_dropWhile]
    · exact fun c member => List.mem_takeWhile_imp member
    · exact fun c member => List.mem_takeWhile_imp (List.mem_reverse.mp member)
  start := by
    intro c first
    -- The blanks at the end stand behind the first character.
    have behind := append_takeWhile_reverse (text.dropWhile isBlank) isBlank
    refine head?_dropWhile_isBlank text c ?_
    rw [← behind, List.head?_append, ← trim, first, Option.some_or]
  finish := by
    intro c last
    rw [trim, List.getLast?_reverse] at last
    exact head?_dropWhile_isBlank _ c last

end Text

namespace Arity

/-- The texts that denote an arity. -/
inductive SpelledBy : Arity → List Char → Prop where
  | optional : SpelledBy .optional ['?']
  | zeroOrMore : SpelledBy .zeroOrMore ['*']
  | oneOrMore : SpelledBy .oneOrMore ['+']
  | remainder : SpelledBy .remainder ['.', '.', '.']
  | exactly {digits text : List Char} (sign : text = digits ∨ text = '+' :: digits)
      (nonempty : digits ≠ []) (decimal : ∀ digit ∈ digits, Text.isDigit digit = true)
      (small : Nat.ofDigitChars 10 digits 0 < UInt64.size) :
      SpelledBy (.exactly (Nat.ofDigitChars 10 digits 0)) text

/-- An arity whose count, if it has one, is below two to the sixty-fourth. -/
def InRange : Arity → Prop
  | .exactly count => count < UInt64.size
  | _ => True

theorem readCount_eq_some_iff_spelledBy {text : List Char} {count : Nat} :
    Text.readCount text = some count ↔ SpelledBy (.exactly count) text := by
  rw [Text.readCount_eq_some_iff]
  constructor
  · rintro ⟨digits, sign, nonempty, decimal, rfl, small⟩
    exact .exactly sign nonempty decimal small
  · intro spelled
    cases spelled with
    | exactly sign nonempty decimal small => exact ⟨_, sign, nonempty, decimal, rfl, small⟩

/-- The text forms are read as the arities that they denote. -/
theorem ofTrimmed?_eq_some_iff {text : List Char} {arity : Arity} :
    ofTrimmed? text = some arity ↔ arity.SpelledBy text := by
  constructor
  · intro read
    unfold ofTrimmed? at read
    split at read
    · cases read
      exact .optional
    · cases read
      exact .zeroOrMore
    · cases read
      exact .oneOrMore
    · cases read
      exact .remainder
    · obtain ⟨count, counted, rfl⟩ := Option.map_eq_some_iff.mp read
      exact readCount_eq_some_iff_spelledBy.mp counted
  · intro spelled
    cases spelled with
    | exactly sign nonempty decimal small =>
      have counted := readCount_eq_some_iff_spelledBy.mpr (.exactly sign nonempty decimal small)
      -- None of the symbols is a count.
      unfold ofTrimmed?
      split
      · cases (rfl : Text.readCount ['?'] = none).symm.trans counted
      · cases (rfl : Text.readCount ['*'] = none).symm.trans counted
      · cases (rfl : Text.readCount ['+'] = none).symm.trans counted
      · cases (rfl : Text.readCount ['.', '.', '.'] = none).symm.trans counted
      · rw [counted]
        rfl
    | _ => rfl

theorem ofText_eq_ok_iff {text : String} {arity : Arity} :
    ofText text = .ok arity ↔ arity.SpelledBy (Text.trim text.toList) := by
  rw [← ofTrimmed?_eq_some_iff, ofText]
  cases ofTrimmed? (Text.trim text.toList) <;> simp

theorem ofText_eq_error_iff {text : String} {fault : SpecificationFault} :
    ofText text = .error fault ↔ fault = .invalidArity text ∧
      ∀ arity : Arity, ¬arity.SpelledBy (Text.trim text.toList) := by
  simp only [← ofTrimmed?_eq_some_iff, ofText]
  cases ofTrimmed? (Text.trim text.toList) <;> simp [eq_comm]

/-! ## Printed forms -/

theorem trim_eq_self {text : List Char} (unblank : ∀ c ∈ text, Text.isBlank c = false) :
    Text.trim text = text := by
  have kept : ∀ {text : List Char}, (∀ c ∈ text, Text.isBlank c = false) →
      text.dropWhile Text.isBlank = text := by
    intro text unblank
    cases text with
    | nil => rfl
    | cons c rest => rw [List.dropWhile_cons, if_neg (by simp [unblank c List.mem_cons_self])]
  rw [Text.trim, kept unblank, kept (by simpa using unblank), List.reverse_reverse]

theorem isBlank_of_isDigit {c : Char} (digit : Text.isDigit c = true) : Text.isBlank c = false := by
  have range : 48 ≤ c.toNat ∧ c.toNat ≤ 57 := by
    simpa [Text.isDigit, Char.le_def, UInt32.le_iff_toNat_le] using digit
  simp [Text.isBlank]
  omega

/-- The printed form is one of the texts that denote the arity, without blanks at its ends. -/
theorem spelledBy_text {arity : Arity} (inRange : arity.InRange) :
    arity.SpelledBy (Text.trim arity.text.toList) := by
  cases arity with
  | exactly count =>
    have printed : (Arity.exactly count).text.toList = Nat.toDigits 10 count := by
      rw [text, Nat.toString_eq_ofList_toDigits, String.toList_ofList]
    have digits : ∀ digit ∈ Nat.toDigits 10 count, Text.isDigit digit = true :=
      fun _ => Text.isDigit_of_mem_toDigits
    rw [printed, trim_eq_self fun digit member => isBlank_of_isDigit (digits digit member)]
    exact readCount_eq_some_iff_spelledBy.mp (Text.readCount_toDigits inRange)
  | optional => exact .optional
  | zeroOrMore => exact .zeroOrMore
  | oneOrMore => exact .oneOrMore
  | remainder => exact .remainder

theorem decode_text {text : String} {arity : Arity}
    (spelled : arity.SpelledBy (Text.trim text.toList)) :
    decode (.text text) = .ok arity := by
  rw [decode, ofText_eq_ok_iff.mpr spelled]

/-- A text form that is written as a JSON string is read as the arity again. -/
theorem decode_printed {text : String} {arity : Arity}
    (spelled : arity.SpelledBy (Text.trim text.toList)) :
    Json.decode decode (Json.Value.print (.text text)).toList = .ok arity := by
  have written : Json.WrittenText 0 (.text text) (Json.Value.print (.text text)).toList := by
    refine ⟨[], _, [], .nil, Json.written_quoted 0 text, .nil, ?_⟩
    simp [Json.Value.print, Json.Value.pretty]
  rcases Json.read_written written with read | ⟨deep, _⟩
  · simp only [Json.decode, read, decode_text spelled]
    rfl
  · exact absurd deep (Nat.not_lt_zero _)

end Arity

/-- **Arities as texts.** The printed form of an arity is read as this arity: as a text on its own,
as a text in a document of any format, and as the string that is printed in JSON. A text denotes an
arity if it is, without the blanks at both ends, a symbol or a count below two to the sixty-fourth;
any other text is reported as it stands. -/
theorem arity_texts :
    (∀ arity : Arity, arity.InRange →
      Arity.ofText arity.text = .ok arity ∧ Arity.decode (.text arity.text) = .ok arity ∧
        Json.decode Arity.decode (Json.Value.print (.text arity.text)).toList = .ok arity) ∧
    ∀ text : String, ∃ trimmed, Text.TrimsTo text.toList trimmed ∧
      (∀ arity, Arity.ofText text = .ok arity ↔ arity.SpelledBy trimmed) ∧
      ∀ fault, Arity.ofText text = .error fault ↔
        fault = .invalidArity text ∧ ∀ arity : Arity, ¬arity.SpelledBy trimmed :=
  ⟨fun _ inRange => ⟨Arity.ofText_eq_ok_iff.mpr (Arity.spelledBy_text inRange),
      Arity.decode_text (Arity.spelledBy_text inRange),
      Arity.decode_printed (Arity.spelledBy_text inRange)⟩,
    fun text => ⟨_, Text.trimsTo_trim text.toList, fun _ => Arity.ofText_eq_ok_iff,
      fun _ => Arity.ofText_eq_error_iff⟩⟩

theorem arity_texts_largestCount :
    (Arity.exactly 18446744073709551615).InRange ∧
      Arity.ofText "18446744073709551615" = .ok (.exactly 18446744073709551615) ∧
      Json.decode Arity.decode "\"18446744073709551615\"".toList =
        .ok (.exactly 18446744073709551615) := by
  have inRange : (Arity.exactly 18446744073709551615).InRange := by
    unfold Arity.InRange
    decide
  obtain ⟨read, _, decoded⟩ := arity_texts.1 _ inRange
  exact ⟨inRange, read, decoded⟩

end CommandCompletion
