import CommandCompletion.Proofs.Text.Decimal
import CommandCompletion.Proofs.Text.Scanning
import CommandCompletion.Toml.Token

/-!
# Strings, atoms and gaps of TOML

Open at the end of a piece of text may be an atom, an empty string, whose two quotes may be the
beginning of three, and the quotes that close a string of several lines (`Scan.settled`). Marks,
blanks, line ends and comments end all of these. An atom in the form of a date is not among them, as
a time may follow it after a blank.

A character of a string is written as it is or, between basic quotes, by an escape
(`SpelledChar`). A string of several lines may also hold line ends, and quotes of its own kind if no
three of them stand together (`SpelledLines`). However a string is written, its token holds the
characters that are spelled.
-/

set_option autoImplicit false

namespace CommandCompletion.Toml

/-! ## Scans at the end of an atom or string -/

namespace Scan

/-- The token that is open at a place and complete if the text ends here or with a delimiter. -/
def open? : ScanPlace → Option Token
  | .atom read => if isDateForm read.reverse then none else some (.atom read.reverse)
  | .openedTwice _ => some (.text [])
  | .closing quote count read => if 3 ≤ count then some (closed quote count read) else none
  | _ => none

/-- The scan as it would be if the text ended here. -/
def settled (scan : Scan) : Scan :=
  match open? scan.place with
  | some token => ⟨.between, token :: scan.tokens⟩
  | none => scan

/-- A character that ends an atom or string. -/
def isDelimiter (c : Char) : Bool :=
  (mark? c).isSome || c == '#' || c == '\r'

theorem settled_between (tokens : List Token) :
    settled ⟨.between, tokens⟩ = ⟨.between, tokens⟩ := rfl

theorem ne_quote_of_isDelimiter {c : Char} (ends : isDelimiter c = true) (quote : Quote) :
    c ≠ quote.character := by
  rintro rfl
  cases quote <;> cases ends

theorem delimits_of_isDelimiter {c : Char} (ends : isDelimiter c = true) :
    ((mark? c).isSome || (opening? c).isSome) = true := by
  simp only [isDelimiter, Bool.or_eq_true, beq_iff_eq] at ends ⊢
  rcases ends with (mark | rfl) | rfl
  · exact .inl mark
  · exact .inr rfl
  · exact .inr rfl

/-- An open token is complete when a delimiter follows. -/
theorem step_of_open {place : ScanPlace} {token : Token} (before : List Token) {c : Char}
    (opened : open? place = some token) (ends : isDelimiter c = true) :
    step ⟨place, before⟩ c = step ⟨.between, token :: before⟩ c := by
  have notQuote := ne_quote_of_isDelimiter ends
  cases place with
  | atom read =>
    simp only [open?] at opened
    split at opened
    · cases opened
    · rename_i noDate
      cases opened
      have notTime : ¬(c = ' ' ∧ isDateForm read.reverse = true) := fun both => noDate both.2
      simp only [step, stepAtom, notTime, if_false, delimits_of_isDelimiter ends, if_true]
      rfl
  | openedTwice quote =>
    cases opened
    simp only [step, notQuote quote, if_false]
    rfl
  | closing quote count read =>
    simp only [open?] at opened
    split at opened
    · rename_i closes
      cases opened
      simp only [step, stepClosing, notQuote quote, false_and, if_false, closes, if_true]
      rfl
    · cases opened
  | _ => cases opened

/-- Behind a complete token, a character that ends an atom or string is read as between tokens. -/
theorem step_delimiter {scan : Scan} {tokens : List Token} {c : Char}
    (complete : scan.settled = ⟨.between, tokens⟩) (ends : isDelimiter c = true) :
    scan.step c = step ⟨.between, tokens⟩ c := by
  obtain ⟨place, before⟩ := scan
  cases opened : open? place with
  | none =>
    simp only [settled, opened] at complete
    rw [complete]
  | some token =>
    simp only [settled, opened] at complete
    rw [← complete, step_of_open before opened ends]

theorem result_of_settled {scan : Scan} {tokens : List Token}
    (complete : scan.settled = ⟨.between, tokens⟩) : scan.result = tokens.reverse := by
  obtain ⟨place, before⟩ := scan
  cases opened : open? place with
  | none =>
    simp only [settled, opened] at complete
    cases complete
    rfl
  | some token =>
    simp only [settled, opened] at complete
    cases complete
    cases place with
    | atom read =>
      simp only [open?] at opened
      split at opened
      · cases opened
      · cases opened
        rfl
    | openedTwice quote =>
      cases opened
      rfl
    | closing quote count read =>
      simp only [open?] at opened
      split at opened
      · rename_i closes
        cases opened
        simp only [result, closes, if_true]
        rfl
      · cases opened
    | _ => cases opened

end Scan

/-- The machine that cuts a text into the tokens of TOML. -/
def scanner : Scanner Scan Token where
  step := Scan.step
  between tokens := ⟨.between, tokens⟩
  settled := Scan.settled
  isDelimiter := Scan.isDelimiter
  between_injective same := (Scan.mk.inj same).2
  settled_between := Scan.settled_between
  step_delimiter := Scan.step_delimiter

@[simp] theorem scanner_step : scanner.step = Scan.step := rfl

@[simp] theorem scanner_between (tokens : List Token) :
    scanner.between tokens = ⟨.between, tokens⟩ := rfl

@[simp] theorem scanner_settled : scanner.settled = Scan.settled := rfl

/-- A piece of text that is scanned as some tokens, of which the last may still be open. -/
abbrev Scanned := scanner.Scanned

/-- A piece of text that is scanned as some tokens, with nothing open behind it. -/
abbrev ScannedWhole := scanner.ScannedWhole

theorem tokens_eq_of_scanned {text : List Char} {tokens : List Token}
    (scanned : Scanned text tokens) : Toml.tokens text = tokens := by
  have complete : Scan.settled (text.foldl Scan.step {}) = ⟨.between, tokens.reverse ++ []⟩ :=
    scanned []
  rw [Toml.tokens, Scan.result_of_settled complete, List.append_nil, List.reverse_reverse]

/-! ## Marks, gaps and atoms -/

theorem scannedWhole_mark {c : Char} {token : Token} (mark : Scan.mark? c = some token) :
    ScannedWhole [c] [token] := by
  intro before
  unfold Scan.mark? at mark
  split at mark <;> cases mark <;> rfl

/-- The end of a line. -/
inductive LineEnd : List Char → Prop where
  | lineFeed : LineEnd ['\n']
  | carriageReturn : LineEnd ['\r', '\n']

/-- Blanks on one line. -/
def Blanks (text : List Char) : Prop :=
  ∀ c ∈ text, isBlank c = true

/-- A comment, up to the end of its line, or nothing. -/
inductive Comment : List Char → Prop where
  | none : Comment []
  | some {inside : List Char} (plain : ∀ c ∈ inside, isPlain c = true) : Comment ('#' :: inside)

/-- Blanks, comments and line ends. -/
inductive Gap : List Char → Prop where
  | nil : Gap []
  | blank {c : Char} {rest : List Char} (blank : isBlank c = true) (later : Gap rest) :
      Gap (c :: rest)
  | line {comment lineEnd rest : List Char} (remark : Comment comment) (ends : LineEnd lineEnd)
      (later : Gap rest) : Gap (comment ++ lineEnd ++ rest)

/-- Tokens of a gap. -/
def AllGaps (tokens : List Token) : Prop :=
  ∀ token ∈ tokens, token = .blank ∨ token = .newLine

theorem scannedWhole_blank {c : Char} (blank : isBlank c = true) : ScannedWhole [c] [.blank] := by
  simp only [isBlank, Bool.or_eq_true, beq_iff_eq] at blank
  rcases blank with rfl | rfl <;> exact scannedWhole_mark rfl

theorem Blanks.scannedWhole {text : List Char} (blanks : Blanks text) :
    ScannedWhole text (List.replicate text.length .blank) := by
  induction text with
  | nil => exact .nil
  | cons c rest ih =>
    obtain ⟨here, later⟩ := List.forall_mem_cons.mp blanks
    exact (scannedWhole_blank here).append (ih later)

theorem foldl_step_comment {inside : List Char} (plain : ∀ c ∈ inside, isPlain c = true)
    (before : List Token) : inside.foldl Scan.step ⟨.comment, before⟩ = ⟨.comment, before⟩ := by
  induction inside with
  | nil => rfl
  | cons c rest ih =>
    obtain ⟨here, later⟩ := List.forall_mem_cons.mp plain
    have notEnd : c ≠ '\n' ∧ c ≠ '\r' := by
      constructor <;> rintro rfl <;> cases here
    rw [List.foldl_cons, Scan.step]
    simp only [notEnd.1, notEnd.2, if_false, here, if_true]
    exact ih later

/-- A line end gives a token, with or without a comment in front of it. -/
theorem Comment.scannedWhole {comment lineEnd : List Char} (remark : Comment comment)
    (ends : LineEnd lineEnd) : ScannedWhole (comment ++ lineEnd) [.newLine] := by
  intro before
  cases remark with
  | none => cases ends <;> rfl
  | @some inside plain =>
    have opened : Scan.step ⟨.between, before⟩ '#' = ⟨.comment, before⟩ := rfl
    rw [List.cons_append, List.foldl_cons, List.foldl_append, scanner_step, scanner_between, opened,
      foldl_step_comment plain]
    cases ends <;> rfl

theorem Gap.scannedWhole {gap : List Char} (isGap : Gap gap) :
    ∃ tokens, ScannedWhole gap tokens ∧ AllGaps tokens := by
  induction isGap with
  | nil => exact ⟨[], .nil, by simp [AllGaps]⟩
  | blank blank _ ih =>
    obtain ⟨tokens, whole, gaps⟩ := ih
    exact ⟨.blank :: tokens, (scannedWhole_blank blank).append whole,
      List.forall_mem_cons.mpr ⟨.inl rfl, gaps⟩⟩
  | line remark ends _ ih =>
    obtain ⟨tokens, whole, gaps⟩ := ih
    exact ⟨.newLine :: tokens, (remark.scannedWhole ends).append whole,
      List.forall_mem_cons.mpr ⟨.inr rfl, gaps⟩⟩

theorem isDelimiter_of_isBlank {c : Char} (blank : isBlank c = true) : Scan.isDelimiter c = true := by
  simp only [isBlank, Bool.or_eq_true, beq_iff_eq] at blank
  rcases blank with rfl | rfl <;> rfl

theorem Blanks.isDelimiter_head {text : List Char} (blanks : Blanks text) {c : Char}
    (first : text.head? = some c) : Scan.isDelimiter c = true :=
  isDelimiter_of_isBlank (blanks c (List.mem_of_head? first))

theorem Gap.isDelimiter_head {gap : List Char} (isGap : Gap gap) {c : Char}
    (first : gap.head? = some c) : Scan.isDelimiter c = true := by
  cases isGap with
  | nil => cases first
  | blank blank _ =>
    cases first
    exact isDelimiter_of_isBlank blank
  | line remark ends _ => cases remark <;> cases ends <;> cases first <;> rfl

/-- A character that may stand in an atom. -/
def isAtomic (c : Char) : Bool :=
  (Scan.mark? c).isNone && (Scan.opening? c).isNone

theorem foldl_step_atom {rest : List Char} (inside : ∀ c ∈ rest, isAtomic c = true)
    (read : List Char) (before : List Token) :
    rest.foldl Scan.step ⟨.atom read, before⟩ = ⟨.atom (rest.reverse ++ read), before⟩ := by
  induction rest generalizing read with
  | nil => rfl
  | cons c rest ih =>
    obtain ⟨here, later⟩ := List.forall_mem_cons.mp inside
    have stays : Scan.step ⟨.atom read, before⟩ c = ⟨.atom (c :: read), before⟩ := by
      have notBlank : c ≠ ' ' := by
        rintro rfl
        cases here
      simp only [isAtomic, Bool.and_eq_true, Option.isNone_iff_eq_none] at here
      simp [Scan.step, Scan.stepAtom, notBlank, here.1, here.2]
    rw [List.foldl_cons, stays, ih later, List.reverse_cons, List.append_assoc]
    rfl

/-- An atom that does not have the form of a date. -/
theorem scanned_atom {atom : List Char} (nonempty : atom ≠ [])
    (inside : ∀ c ∈ atom, isAtomic c = true) (noDate : isDateForm atom = false) :
    Scanned atom [.atom atom] := by
  intro before
  cases atom with
  | nil => exact absurd rfl nonempty
  | cons c rest =>
    obtain ⟨here, later⟩ := List.forall_mem_cons.mp inside
    have opens : Scan.step ⟨.between, before⟩ c = ⟨.atom [c], before⟩ := by
      simp only [isAtomic, Bool.and_eq_true, Option.isNone_iff_eq_none] at here
      simp [Scan.step, Scan.stepBetween, here.1, here.2]
    rw [List.foldl_cons, scanner_step, scanner_between, opens, foldl_step_atom later]
    simp [Scan.settled, Scan.open?, noDate]

/-! ## Strings -/

/-- The ways of writing a character behind a backslash. -/
inductive Escaped : Char → List Char → Prop where
  | letter {c mark : Char} (stands : Scan.simpleEscape? mark = some c) : Escaped c [mark]
  | number {c mark : Char} {digits : List Char}
      (counted : Scan.escapeDigits? mark = some digits.length)
      (hexadecimal : ∀ digit ∈ digits, Text.isHexDigit digit = true)
      (value : Text.valueOfDigits 16 Text.digitValue digits = c.toNat) : Escaped c (mark :: digits)

/-- The ways of writing a character between quotes. -/
inductive SpelledChar (quote : Quote) : Char → List Char → Prop where
  | plain {c : Char} (visible : isPlain c = true) (notQuote : c ≠ quote.character)
      (notEscape : quote = .basic → c ≠ '\\') : SpelledChar quote c [c]
  | escape {c : Char} {rest : List Char} (basic : quote = .basic) (escaped : Escaped c rest) :
      SpelledChar quote c ('\\' :: rest)

/-- The ways of writing a text between quotes on one line. -/
inductive SpelledLine (quote : Quote) : List Char → List Char → Prop where
  | nil : SpelledLine quote [] []
  | cons {c : Char} {rest piece pieces : List Char} (here : SpelledChar quote c piece)
      (later : SpelledLine quote rest pieces) : SpelledLine quote (c :: rest) (piece ++ pieces)

/-- The ways of writing a text between tripled quotes, up to those that close it. -/
inductive SpelledLines (quote : Quote) : List Char → List Char → Prop where
  | quotes {count : Nat} (few : count ≤ 2) :
      SpelledLines quote (List.replicate count quote.character)
        (List.replicate count quote.character)
  | char {count : Nat} {c : Char} {rest piece pieces : List Char} (few : count ≤ 2)
      (here : SpelledChar quote c piece) (later : SpelledLines quote rest pieces) :
      SpelledLines quote (List.replicate count quote.character ++ c :: rest)
        (List.replicate count quote.character ++ piece ++ pieces)
  | line {count : Nat} {lineEnd rest pieces : List Char} (few : count ≤ 2)
      (ends : LineEnd lineEnd) (later : SpelledLines quote rest pieces) :
      SpelledLines quote (List.replicate count quote.character ++ lineEnd ++ rest)
        (List.replicate count quote.character ++ lineEnd ++ pieces)

namespace Scan

/-- A place inside a string. -/
def within (several : Bool) (quote : Quote) (read : List Char) : ScanPlace :=
  if several then .lines quote read else .line quote read

theorem within_basic (several : Bool) (read : List Char) :
    within several .basic read = inside several read := rfl

/-- The digits of an escape by number. -/
theorem foldl_step_digits {digits : List Char} (nonempty : digits ≠ [])
    (hexadecimal : ∀ digit ∈ digits, Text.isHexDigit digit = true) {several : Bool} {value : Nat}
    {c : Char} (reached : digits.foldl (fun value digit => value * 16 + Text.digitValue digit) value =
      c.toNat) (read : List Char) (before : List Token) :
    digits.foldl step ⟨.digits several digits.length value read, before⟩ =
      ⟨inside several (c :: read), before⟩ := by
  induction digits generalizing value with
  | nil => exact absurd rfl nonempty
  | cons digit rest ih =>
    obtain ⟨here, later⟩ := List.forall_mem_cons.mp hexadecimal
    rw [List.foldl_cons] at reached ⊢
    cases rest with
    | nil =>
      have valid : c.toNat.isValidChar := c.valid
      rw [List.foldl_nil] at reached
      simp [step, stepDigits, here, reached, valid]
    | cons next others =>
      have steps : step ⟨.digits several (digit :: next :: others).length value read, before⟩ digit =
          ⟨.digits several (next :: others).length (value * 16 + Text.digitValue digit) read,
            before⟩ := by
        simp [step, stepDigits, here]
      rw [steps]
      exact ih (List.cons_ne_nil _ _) later reached

/-- A character of a string, however it is written. -/
theorem foldl_step_char {quote : Quote} {c : Char} {piece : List Char}
    (spelled : SpelledChar quote c piece) (several : Bool) (read : List Char)
    (before : List Token) :
    piece.foldl step ⟨within several quote read, before⟩ =
      ⟨within several quote (c :: read), before⟩ := by
  cases spelled with
  | plain visible notQuote notEscape =>
    have noEscape : ¬(c = '\\' ∧ quote = .basic) := fun both => notEscape both.2 both.1
    have notReturn : c ≠ '\r' := by
      rintro rfl
      cases visible
    cases several <;>
      simp [within, step, stepLine, stepLines, notQuote, noEscape, notReturn, visible]
  | escape basic escaped =>
    subst basic
    have opened : step ⟨within several .basic read, before⟩ '\\' =
        ⟨.escape several read, before⟩ := by
      cases several <;> rfl
    rw [List.foldl_cons, opened, within_basic]
    cases escaped with
    | letter stands => simp [step, stepEscape, stands]
    | @number mark digits counted hexadecimal value =>
      have notLetter : simpleEscape? mark = none := by
        unfold escapeDigits? at counted
        split at counted
        · rfl
        · rfl
        · rfl
        · cases counted
      have nonempty : digits ≠ [] := by
        rintro rfl
        unfold escapeDigits? at counted
        split at counted <;> cases counted
      have numbered : step ⟨.escape several read, before⟩ mark =
          ⟨.digits several digits.length 0 read, before⟩ := by
        simp [step, stepEscape, notLetter, counted]
      rw [List.foldl_cons, numbered]
      exact foldl_step_digits nonempty hexadecimal value read before

theorem foldl_step_line {quote : Quote} {text pieces : List Char}
    (spelled : SpelledLine quote text pieces) (read : List Char) (before : List Token) :
    pieces.foldl step ⟨.line quote read, before⟩ = ⟨.line quote (text.reverse ++ read), before⟩ := by
  induction spelled generalizing read with
  | nil => rfl
  | cons here _ ih =>
    have first := foldl_step_char here false read before
    simp only [within, Bool.false_eq_true, if_false] at first
    rw [List.foldl_append, first, ih, List.reverse_cons, List.append_assoc]
    rfl

end Scan

/-- No character of a string is written with its quote in front. -/
theorem SpelledChar.exists_cons {quote : Quote} {c : Char} {piece : List Char}
    (spelled : SpelledChar quote c piece) :
    ∃ first rest, piece = first :: rest ∧ first ≠ quote.character := by
  cases spelled with
  | plain visible notQuote notEscape => exact ⟨_, _, rfl, notQuote⟩
  | escape basic escaped =>
    subst basic
    exact ⟨_, _, rfl, by decide⟩

/-- A string on one line is one token that holds the text. -/
theorem scanned_line {quote : Quote} {text pieces : List Char}
    (spelled : SpelledLine quote text pieces) :
    Scanned (quote.character :: pieces ++ [quote.character]) [.text text] := by
  intro before
  have opened : Scan.step ⟨.between, before⟩ quote.character = ⟨.openedOnce quote, before⟩ := by
    cases quote <;> rfl
  rw [List.cons_append, List.foldl_cons, scanner_step, scanner_between, opened]
  cases spelled with
  | nil =>
    simp [Scan.step, Scan.settled, Scan.open?]
  | @cons c rest piece later here spelledRest =>
    obtain ⟨first, others, rfl, notQuote⟩ := here.exists_cons
    -- After one quote a character that is no quote is read as one inside the string.
    have same : Scan.step ⟨.openedOnce quote, before⟩ first =
        Scan.step ⟨.line quote [], before⟩ first := by
      simp only [Scan.step, notQuote, if_false]
      rfl
    have read := Scan.foldl_step_line (.cons here spelledRest) [] before
    rw [List.cons_append, List.foldl_cons] at read
    rw [List.cons_append, List.cons_append, List.foldl_cons, same, List.foldl_append, read]
    simp [Scan.step, Scan.stepLine, Scan.emit, Scan.settled, Scan.open?]

/-! ## Strings of several lines -/

namespace Scan

/-- A place in a string of several lines, after so many quotes that may still belong to it. -/
def behindQuotes (quote : Quote) (count : Nat) (read : List Char) : ScanPlace :=
  if count = 0 then .lines quote read else .closing quote count read

theorem foldl_step_moreQuotes (quote : Quote) {count more : Nat} (few : count + more ≤ 5)
    (read : List Char) (before : List Token) :
    (List.replicate more quote.character).foldl step ⟨behindQuotes quote count read, before⟩ =
      ⟨behindQuotes quote (count + more) read, before⟩ := by
  induction more generalizing count with
  | zero => rfl
  | succ more ih =>
    have next : step ⟨behindQuotes quote count read, before⟩ quote.character =
        ⟨behindQuotes quote (count + 1) read, before⟩ := by
      by_cases none : count = 0
      · simp [behindQuotes, none, step, stepLines]
      · have fewer : count < 5 := by omega
        simp [behindQuotes, none, step, stepClosing, fewer]
    rw [List.replicate_succ, List.foldl_cons, next, ih (by omega), Nat.add_assoc,
      Nat.add_comm 1 more]

theorem foldl_step_quotes (quote : Quote) {count : Nat} (few : count ≤ 5) (read : List Char)
    (before : List Token) :
    (List.replicate count quote.character).foldl step ⟨.lines quote read, before⟩ =
      ⟨behindQuotes quote count read, before⟩ := by
  have quotes := foldl_step_moreQuotes quote (by omega : 0 + count ≤ 5) read before
  rwa [Nat.zero_add] at quotes

/-- After at most two quotes, a character that is no quote shows that they belong to the string. -/
theorem step_behindQuotes {quote : Quote} {count : Nat} (few : count ≤ 2) {c : Char}
    (notQuote : c ≠ quote.character) (read : List Char) (before : List Token) :
    step ⟨behindQuotes quote count read, before⟩ c =
      step ⟨.lines quote (List.replicate count quote.character ++ read), before⟩ c := by
  by_cases none : count = 0
  · subst none
    rfl
  · have open' : ¬3 ≤ count := by omega
    simp only [behindQuotes, none, step, stepClosing, notQuote, false_and, if_false, open']
    rfl

/-- A piece that does not begin with a quote, behind at most two quotes. -/
theorem foldl_step_behindQuotes {quote : Quote} {count : Nat} (few : count ≤ 2) {c : Char}
    {piece : List Char} (notQuote : c ≠ quote.character) (read : List Char) (before : List Token) :
    (List.replicate count quote.character ++ c :: piece).foldl step ⟨.lines quote read, before⟩ =
      (c :: piece).foldl step
        ⟨.lines quote (List.replicate count quote.character ++ read), before⟩ := by
  rw [List.foldl_append, foldl_step_quotes quote (by omega), List.foldl_cons, List.foldl_cons,
    step_behindQuotes few notQuote]

theorem foldl_step_lineEnd {lineEnd : List Char} (ends : LineEnd lineEnd) (quote : Quote)
    (read : List Char) (before : List Token) :
    lineEnd.foldl step ⟨.lines quote read, before⟩ =
      ⟨.lines quote (lineEnd.reverse ++ read), before⟩ := by
  cases ends <;> cases quote <;> rfl

/-- The inside of a string of several lines, and the quotes that close it. -/
theorem foldl_step_lines {quote : Quote} {text pieces : List Char}
    (spelled : SpelledLines quote text pieces) (read : List Char) (before : List Token) :
    ((pieces ++ List.replicate 3 quote.character).foldl step ⟨.lines quote read, before⟩).settled =
      ⟨.between, .paragraph (read.reverse ++ text) :: before⟩ := by
  induction spelled generalizing read with
  | @quotes count few =>
    rw [List.replicate_append_replicate, foldl_step_quotes quote (by omega)]
    simp [behindQuotes, settled, open?, closed]
  | @char count c rest piece pieces few here _ ih =>
    obtain ⟨first, others, rfl, notQuote⟩ := here.exists_cons
    have inside := foldl_step_char here true (List.replicate count quote.character ++ read) before
    simp only [within, if_true] at inside
    rw [List.append_assoc, List.foldl_append, foldl_step_behindQuotes few notQuote, inside, ih]
    simp
  | @line count lineEnd rest pieces few ends _ ih =>
    obtain ⟨first, others, rfl, notQuote⟩ : ∃ first others, lineEnd = first :: others ∧
        first ≠ quote.character := by
      cases ends <;> exact ⟨_, _, rfl, by cases quote <;> decide⟩
    rw [List.append_assoc, List.foldl_append, foldl_step_behindQuotes few notQuote,
      foldl_step_lineEnd ends, ih]
    simp

end Scan

/-- What may stand right behind the quotes that open a string of several lines: a line end, which
does not belong to the string, or nothing if the string does not begin with one. -/
inductive Opening (pieces : List Char) : List Char → Prop where
  | line {lineEnd : List Char} (ends : LineEnd lineEnd) : Opening pieces lineEnd
  | none (first : ∀ c, pieces.head? = some c → c ≠ '\n' ∧ c ≠ '\r') : Opening pieces []

/-- A string of several lines is one token that holds the text. -/
theorem scanned_lines {quote : Quote} {text pieces opening : List Char}
    (spelled : SpelledLines quote text pieces) (opened : Opening pieces opening) :
    Scanned (List.replicate 3 quote.character ++
      (opening ++ (pieces ++ List.replicate 3 quote.character))) [.paragraph text] := by
  intro before
  have opens : (List.replicate 3 quote.character).foldl Scan.step ⟨.between, before⟩ =
      ⟨.openedThrice quote, before⟩ := by
    cases quote <;> rfl
  have inside := Scan.foldl_step_lines spelled [] before
  rw [List.foldl_append, scanner_step, scanner_between, opens, List.foldl_append]
  cases opened with
  | line ends =>
    have passed : opening.foldl Scan.step ⟨.openedThrice quote, before⟩ =
        ⟨.lines quote [], before⟩ := by
      cases ends <;> rfl
    rw [passed]
    exact inside
  | none first =>
    -- The quotes that close the string stand at the latest behind its opening quotes.
    obtain ⟨c, others, same, noEnd⟩ : ∃ c others,
        pieces ++ List.replicate 3 quote.character = c :: others ∧ c ≠ '\n' ∧ c ≠ '\r' := by
      cases pieces with
      | nil => exact ⟨_, _, rfl, by cases quote <;> decide⟩
      | cons c others => exact ⟨c, _, rfl, first c rfl⟩
    have sameStep : Scan.step ⟨.openedThrice quote, before⟩ c =
        Scan.step ⟨.lines quote [], before⟩ c := by
      simp only [Scan.step, noEnd.1, noEnd.2, if_false]
      rfl
    rw [same, List.foldl_cons] at inside ⊢
    rw [List.foldl_nil, sameStep]
    exact inside

end CommandCompletion.Toml
