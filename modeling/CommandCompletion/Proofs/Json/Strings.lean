import CommandCompletion.Json.Print
import CommandCompletion.Json.Token
import CommandCompletion.Proofs.Text.Scanning
import Mathlib.Tactic.SplitIfs

/-!
# Strings and atoms of JSON

An atom is open until the next character shows where it ends, so a scan is looked at as it would be
if the text ended here (`Scan.settled`). White space, quotes and marks end an atom.

A character of a string is written as it is, by an escape of one letter, by the number of its code
unit, or by those of two surrogates (`SpelledChar`). However a string is written, its token holds
the characters that are spelled.
-/

set_option autoImplicit false

namespace CommandCompletion.Json

/-! ## Scans at the end of an atom -/

namespace Scan

/-- The scan as it would be if the text ended here. -/
def settled (scan : Scan) : Scan :=
  match scan.place with
  | .atom read => scan.emit (Token.ofAtom read.reverse)
  | _ => scan

/-- A character that ends an atom. -/
def isDelimiter (c : Char) : Bool :=
  isSpace c || c == '"' || (mark? c).isSome

@[simp] theorem settled_between (tokens : List Token) :
    settled ⟨.between, tokens⟩ = ⟨.between, tokens⟩ := rfl

/-- Behind a complete token, a character that ends an atom is read as between tokens. -/
theorem step_delimiter {scan : Scan} {tokens : List Token} {c : Char}
    (complete : scan.settled = ⟨.between, tokens⟩) (ends : isDelimiter c = true) :
    scan.step c = step ⟨.between, tokens⟩ c := by
  obtain ⟨place, before⟩ := scan
  cases place with
  | atom read =>
    have emitted : emit ⟨.atom read, before⟩ (Token.ofAtom read.reverse) = ⟨.between, tokens⟩ :=
      complete
    have delimits : (isSpace c || c == '"' || (mark? c).isSome) = true := ends
    simp only [step, delimits, if_true, emitted]
    rfl
  | _ =>
    cases complete
    try rfl

theorem result_of_settled {scan : Scan} {tokens : List Token}
    (complete : scan.settled = ⟨.between, tokens⟩) : scan.result = tokens.reverse := by
  obtain ⟨place, before⟩ := scan
  cases place with
  | atom read =>
    have emitted : emit ⟨.atom read, before⟩ (Token.ofAtom read.reverse) = ⟨.between, tokens⟩ :=
      complete
    simp only [result, emitted]
  | _ =>
    cases complete
    try rfl

end Scan

/-- The machine that cuts a text into the tokens of JSON. -/
def scanner : Scanner Scan Token where
  step := Scan.step
  between tokens := ⟨.between, tokens⟩
  settled := Scan.settled
  isDelimiter := Scan.isDelimiter
  between_injective same := (Scan.mk.inj same).2
  settled_between := Scan.settled_between
  step_delimiter := Scan.step_delimiter

@[simp] theorem scanner_step : scanner.step = Scan.step := rfl

@[simp] theorem scanner_between (tokens : List Token) :
    scanner.between tokens = ⟨.between, tokens⟩ := rfl

@[simp] theorem scanner_settled : scanner.settled = Scan.settled := rfl

/-- A piece of text that is scanned as some tokens, of which the last may be an open atom. -/
abbrev Scanned := scanner.Scanned

/-- A piece of text that is scanned as some tokens, with nothing open behind it. -/
abbrev ScannedWhole := scanner.ScannedWhole

theorem tokens_eq_of_scanned {text : List Char} {tokens : List Token}
    (scanned : Scanned text tokens) : Json.tokens text = tokens := by
  have complete : Scan.settled (text.foldl Scan.step {}) = ⟨.between, tokens.reverse ++ []⟩ :=
    scanned []
  rw [Json.tokens, Scan.result_of_settled complete, List.append_nil, List.reverse_reverse]

/-! ## Marks, gaps and atoms -/

theorem scannedWhole_mark {c : Char} {token : Token} (mark : Scan.mark? c = some token) :
    ScannedWhole [c] [token] := by
  intro before
  unfold Scan.mark? at mark
  split at mark <;> cases mark <;> rfl

/-- White space. -/
def Gap (text : List Char) : Prop :=
  ∀ c ∈ text, Scan.isSpace c = true

theorem Gap.scannedWhole {gap : List Char} (blank : Gap gap) : ScannedWhole gap [] := by
  induction gap with
  | nil => exact .nil
  | cons c rest ih =>
    obtain ⟨here, later⟩ := List.forall_mem_cons.mp blank
    have first : ScannedWhole [c] [] := by
      intro before
      simp [Scan.step, Scan.stepBetween, here]
    exact first.append (ih later)

/-- White space behind a piece ends an atom that is open there. -/
theorem scanned_append_gap {text gap : List Char} {tokens : List Token}
    (scanned : Scanned text tokens) (blank : Gap gap) : Scanned (text ++ gap) tokens := by
  have ends : ∀ c, gap.head? = some c → Scan.isDelimiter c = true := by
    intro c first
    simp [Scan.isDelimiter, blank c (List.mem_of_head? first)]
  have together := scanned.append_gap blank.scannedWhole ends
  rwa [List.append_nil] at together

/-- The characters of an atom are those that end none. -/
theorem scanned_atom {atom : List Char} (nonempty : atom ≠ [])
    (inside : ∀ c ∈ atom, Scan.isDelimiter c = false) (sound : Token.ofAtom atom ≠ .stop) :
    Scanned atom [Token.ofAtom atom] := by
  have more : ∀ (rest read : List Char) (before : List Token),
      (∀ c ∈ rest, Scan.isDelimiter c = false) →
      rest.foldl Scan.step ⟨.atom read, before⟩ = ⟨.atom (rest.reverse ++ read), before⟩ := by
    intro rest
    induction rest with
    | nil => intros; rfl
    | cons c rest ih =>
      intro read before inside
      obtain ⟨here, later⟩ := List.forall_mem_cons.mp inside
      have stays : Scan.step ⟨.atom read, before⟩ c = ⟨.atom (c :: read), before⟩ := by
        have notDelimiter : (Scan.isSpace c || c == '"' || (Scan.mark? c).isSome) = false := here
        simp only [Scan.step, notDelimiter, Bool.false_eq_true, if_false]
      rw [List.foldl_cons, stays, ih _ _ later, List.reverse_cons, List.append_assoc]
      rfl
  intro before
  cases atom with
  | nil => exact absurd rfl nonempty
  | cons c rest =>
    obtain ⟨here, later⟩ := List.forall_mem_cons.mp inside
    have opens : Scan.step ⟨.between, before⟩ c = ⟨.atom [c], before⟩ := by
      simp only [Scan.isDelimiter, Bool.or_eq_false_iff, beq_eq_false_iff_ne,
        Option.isSome_eq_false_iff, Option.isNone_iff_eq_none] at here
      simp [Scan.step, Scan.stepBetween, here.1.1, here.1.2, here.2]
    rw [List.foldl_cons, scanner_step, scanner_between, opens, more rest [c] before later]
    simp [Scan.settled, Scan.emit, sound]

/-! ## Strings -/

/-- Four hexadecimal digits and their value. -/
def SpelledUnit (digits : List Char) (value : Nat) : Prop :=
  digits.length = 4 ∧ (∀ digit ∈ digits, Text.isHexDigit digit = true) ∧
    Text.valueOfDigits 16 Text.digitValue digits = value

/-- The ways of writing a character in a string. -/
inductive SpelledChar : Char → List Char → Prop where
  | plain {c : Char} (notQuote : c ≠ '"') (notBackslash : c ≠ '\\') (visible : 0x20 ≤ c.toNat) :
      SpelledChar c [c]
  | letter {c mark : Char} (stands : Scan.simpleEscape? mark = some c) :
      SpelledChar c ['\\', mark]
  | unit {c : Char} {digits : List Char} (spelled : SpelledUnit digits c.toNat) :
      SpelledChar c (['\\', 'u'] ++ digits)
  | pair {c : Char} {high low : Nat} {highDigits lowDigits : List Char}
      (isHigh : 0xD800 ≤ high ∧ high < 0xDC00) (isLow : 0xDC00 ≤ low ∧ low < 0xE000)
      (code : c.toNat = 0x10000 + (high - 0xD800) * 0x400 + (low - 0xDC00))
      (highSpelled : SpelledUnit highDigits high) (lowSpelled : SpelledUnit lowDigits low) :
      SpelledChar c (['\\', 'u'] ++ highDigits ++ (['\\', 'u'] ++ lowDigits))

/-- The ways of writing a text between the quotes of a string. -/
inductive SpelledText : List Char → List Char → Prop where
  | nil : SpelledText [] []
  | cons {c : Char} {rest piece pieces : List Char} (here : SpelledChar c piece)
      (later : SpelledText rest pieces) : SpelledText (c :: rest) (piece ++ pieces)

namespace Scan

/-- What follows the last digit of a code unit does not depend on the digits. -/
theorem finishUnit_place (place other : ScanPlace) (tokens : List Token) (high : Option Nat)
    (value : Nat) (read : List Char) :
    finishUnit ⟨place, tokens⟩ high value read = finishUnit ⟨other, tokens⟩ high value read := by
  cases high <;> rfl

/-- The four digits of a code unit. -/
theorem foldl_step_unit {digits : List Char} {value : Nat} (spelled : SpelledUnit digits value)
    (high : Option Nat) (read : List Char) (before : List Token) :
    digits.foldl step ⟨.digits high 0 0 read, before⟩ =
      finishUnit ⟨.between, before⟩ high value read := by
  obtain ⟨four, hexadecimal, rfl⟩ := spelled
  match digits, four with
  | [first, second, third, fourth], _ =>
    simp only [List.mem_cons, List.not_mem_nil, or_false, forall_eq_or_imp, forall_eq] at hexadecimal
    obtain ⟨firstHex, secondHex, thirdHex, fourthHex⟩ := hexadecimal
    simp only [List.foldl_cons, List.foldl_nil, step, firstHex, secondHex, thirdHex, fourthHex,
      if_true, Nat.reduceEqDiff, if_false, Nat.reduceAdd, Text.valueOfDigits]
    exact finishUnit_place _ _ _ _ _ _

/-- The number of a character is never that of a surrogate. -/
theorem toNat_not_surrogate (c : Char) : ¬(0xD800 ≤ c.toNat ∧ c.toNat < 0xE000) := by
  have valid := c.valid
  simp only [UInt32.isValidChar, Nat.isValidChar] at valid
  simp only [Char.toNat]
  omega

/-- A character of a string, however it is written. -/
theorem foldl_step_char {c : Char} {piece : List Char} (spelled : SpelledChar c piece)
    (read : List Char) (before : List Token) :
    piece.foldl step ⟨.string read, before⟩ = ⟨.string (c :: read), before⟩ := by
  cases spelled with
  | plain notQuote notBackslash visible =>
    simp [step, notQuote, notBackslash, Nat.not_lt.mpr visible]
  | @letter mark stands =>
    have notUnit : mark ≠ 'u' := by
      rintro rfl
      cases stands
    simp [step, notUnit, stands]
  | unit digits =>
    have notSurrogate := toNat_not_surrogate c
    have notHigh : ¬(0xD800 ≤ c.toNat ∧ c.toNat < 0xDC00) := by omega
    have notLow : ¬(0xDC00 ≤ c.toNat ∧ c.toNat < 0xE000) := by omega
    have opened : ['\\', 'u'].foldl step ⟨.string read, before⟩ = ⟨.digits none 0 0 read, before⟩ :=
      rfl
    rw [List.foldl_append, opened, foldl_step_unit digits, finishUnit]
    simp only [notHigh, notLow, if_false, Char.ofNat_toNat]
  | pair isHigh isLow code highDigits lowDigits =>
    have opened : ['\\', 'u'].foldl step ⟨.string read, before⟩ = ⟨.digits none 0 0 read, before⟩ :=
      rfl
    have openedLow : ∀ high, ['\\', 'u'].foldl step ⟨.lowEscape high read, before⟩ =
        ⟨.digits (some high) 0 0 read, before⟩ := fun _ => rfl
    rw [List.foldl_append, List.foldl_append, List.foldl_append, opened,
      foldl_step_unit highDigits, finishUnit, if_pos isHigh, openedLow, foldl_step_unit lowDigits,
      finishUnit, if_pos isLow, ← code]
    simp only [Char.ofNat_toNat]

theorem foldl_step_text {text pieces : List Char} (spelled : SpelledText text pieces)
    (read : List Char) (before : List Token) :
    pieces.foldl step ⟨.string read, before⟩ = ⟨.string (text.reverse ++ read), before⟩ := by
  induction spelled generalizing read with
  | nil => rfl
  | cons here later ih =>
    rw [List.foldl_append, foldl_step_char here, ih, List.reverse_cons, List.append_assoc]
    rfl

end Scan

/-- A string between its quotes is one token that holds the text. -/
theorem scannedWhole_string {text pieces : List Char} (spelled : SpelledText text pieces) :
    ScannedWhole ('"' :: pieces ++ ['"']) [.text text] := by
  intro before
  have opened : Scan.step ⟨.between, before⟩ '"' = ⟨.string [], before⟩ := by
    simp [Scan.step, Scan.stepBetween, Scan.isSpace]
  rw [List.cons_append, List.foldl_cons, List.foldl_append, scanner_step, scanner_between, opened,
    Scan.foldl_step_text spelled]
  simp [Scan.step, Scan.emit]

/-! ## Printed strings -/

/-- The printed form of a character is one way of writing it. -/
theorem spelledChar_escapeChar (c : Char) : SpelledChar c (escapeChar c) := by
  unfold escapeChar
  split_ifs with special newLine carriageReturn tab backspace formFeed control
  · rcases special with rfl | rfl <;> exact .letter rfl
  · exact newLine ▸ .letter rfl
  · exact carriageReturn ▸ .letter rfl
  · exact tab ▸ .letter rfl
  · have named : c = Char.ofNat 8 := by rw [← backspace, Char.ofNat_toNat]
    exact named ▸ .letter rfl
  · have named : c = Char.ofNat 12 := by rw [← formFeed, Char.ofNat_toNat]
    exact named ▸ .letter rfl
  · have every : ∀ value < 0x20,
        (['0', '0', Text.hexDigit (value / 16), Text.hexDigit (value % 16)].all fun digit =>
          Text.isHexDigit digit == true) = true ∧
        Text.valueOfDigits 16 Text.digitValue
          ['0', '0', Text.hexDigit (value / 16), Text.hexDigit (value % 16)] = value := by
      decide
    obtain ⟨digits, value⟩ := every c.toNat control
    exact .unit ⟨rfl, forall_mem_of_all digits, value⟩
  · obtain ⟨notQuote, notBackslash⟩ := not_or.mp special
    exact .plain notQuote notBackslash (Nat.not_lt.mp control)

theorem spelledText_escaped (text : List Char) : SpelledText text (text.flatMap escapeChar) := by
  induction text with
  | nil => exact .nil
  | cons c rest ih => exact .cons (spelledChar_escapeChar c) ih

end CommandCompletion.Json
