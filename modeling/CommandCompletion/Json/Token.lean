import CommandCompletion.Text.Decimal

/-!
# The tokens of JSON

A text is cut into brackets, braces, colons, commas, strings and atoms. An atom is a run
of other characters; it is a number or one of three words, or else it makes no sense. A
string holds no control character below the space. A character beyond the first plane is
either written as it is or as two escapes, a high and a low surrogate, and neither may
stand alone.

The text is read by a machine with one step for each character. At the first character
that makes no sense the machine gives the token `stop` and reads no further.
-/

set_option autoImplicit false

namespace CommandCompletion.Json

/-- A token. -/
inductive Token where
  | openList
  | closeList
  | openRecord
  | closeRecord
  | colon
  | comma
  | nothing
  | truth (value : Bool)
  | count (value : Nat)
  /-- A number that is no count. -/
  | other
  | text (value : List Char)
  /-- Here the text stops making sense. -/
  | stop
  deriving DecidableEq

namespace Token

/-! ## Atoms -/

/-- Digits after an optional sign. -/
def isExponent : List Char → Bool
  | '+' :: digits => Text.isDigits digits
  | '-' :: digits => Text.isDigits digits
  | digits => Text.isDigits digits

/-- Nothing, or an exponent after its mark. -/
def isExponentPart : List Char → Bool
  | [] => true
  | c :: rest => (c == 'e' || c == 'E') && isExponent rest

/-- Nothing, or what may follow the whole part of a number. -/
def isFractionPart : List Char → Bool
  | '.' :: rest =>
    Text.isDigits (rest.takeWhile Text.isDigit) && isExponentPart (rest.dropWhile Text.isDigit)
  | rest => isExponentPart rest

/-- The whole part of a number: a zero, or digits that do not begin with one. -/
def isWhole : List Char → Bool
  | ['0'] => true
  | '0' :: _ => false
  | digits => Text.isDigits digits

/-- The number that an atom without a sign denotes. -/
def unsignedNumber (atom : List Char) : Option Token :=
  let whole := atom.takeWhile Text.isDigit
  let rest := atom.dropWhile Text.isDigit
  if isWhole whole && isFractionPart rest then
    if rest.isEmpty then
      let value := Text.valueOfDigits 10 Text.decimalValue whole
      some (if value < Text.countBound then .count value else .other)
    else some .other
  else none

/-- The token of an atom. -/
def ofAtom (atom : List Char) : Token :=
  if atom = "null".toList then .nothing
  else if atom = "true".toList then .truth true
  else if atom = "false".toList then .truth false
  else
    match atom with
    | '-' :: digits => if (unsignedNumber digits).isSome then .other else .stop
    | _ => (unsignedNumber atom).getD .stop

end Token

/-! ## The machine -/

/-- Where in a text the machine is; characters and digits read so far are held in reverse. -/
inductive ScanPlace where
  | between
  | atom (read : List Char)
  | string (read : List Char)
  | escape (read : List Char)
  /-- In the digits of an escape, after a high surrogate if there was one. -/
  | digits (high : Option Nat) (count value : Nat) (read : List Char)
  /-- After a high surrogate. -/
  | lowEscape (high : Nat) (read : List Char)
  /-- After a high surrogate and a backslash. -/
  | lowMark (high : Nat) (read : List Char)
  | stopped
  deriving DecidableEq

/-- The state of the machine: the place and the tokens so far, in reverse. -/
structure Scan where
  place : ScanPlace := .between
  tokens : List Token := []
  deriving DecidableEq

namespace Scan

/-- The state after a token. -/
def emit (scan : Scan) (token : Token) : Scan :=
  { place := if token = .stop then .stopped else .between, tokens := token :: scan.tokens }

/-- The state at a character that makes no sense. -/
def fail (scan : Scan) : Scan :=
  scan.emit .stop

/-- White space between tokens. -/
def isSpace (c : Char) : Bool :=
  c == ' ' || c == '\t' || c == '\n' || c == '\r'

/-- The token of a single character. -/
def mark? : Char → Option Token
  | '[' => some .openList
  | ']' => some .closeList
  | '\x7b' => some .openRecord
  | '\x7d' => some .closeRecord
  | ':' => some .colon
  | ',' => some .comma
  | _ => none

/-- The character that an escape of one letter stands for. -/
def simpleEscape? : Char → Option Char
  | '"' => some '"'
  | '\\' => some '\\'
  | '/' => some '/'
  | 'b' => some (Char.ofNat 8)
  | 'f' => some (Char.ofNat 12)
  | 'n' => some '\n'
  | 'r' => some '\r'
  | 't' => some '\t'
  | _ => none

/-- One character between tokens. -/
def stepBetween (scan : Scan) (c : Char) : Scan :=
  if isSpace c then { scan with place := .between }
  else if c = '"' then { scan with place := .string [] }
  else
    match mark? c with
    | some token => scan.emit token
    | none => { scan with place := .atom [c] }

/-- The state after the last digit of an escape of a code unit. -/
def finishUnit (scan : Scan) (high : Option Nat) (value : Nat) (read : List Char) : Scan :=
  match high with
  | none =>
    if 0xD800 ≤ value ∧ value < 0xDC00 then { scan with place := .lowEscape value read }
    else if 0xDC00 ≤ value ∧ value < 0xE000 then scan.fail
    else { scan with place := .string (Char.ofNat value :: read) }
  | some first =>
    if 0xDC00 ≤ value ∧ value < 0xE000 then
      let code := 0x10000 + (first - 0xD800) * 0x400 + (value - 0xDC00)
      { scan with place := .string (Char.ofNat code :: read) }
    else scan.fail

/-- The state after one more character. -/
def step (scan : Scan) (c : Char) : Scan :=
  match scan.place with
  | .between => scan.stepBetween c
  | .atom read =>
    if isSpace c || c == '"' || (mark? c).isSome then
      let ended := scan.emit (Token.ofAtom read.reverse)
      if ended.place = .stopped then ended else ended.stepBetween c
    else { scan with place := .atom (c :: read) }
  | .string read =>
    if c = '"' then scan.emit (.text read.reverse)
    else if c = '\\' then { scan with place := .escape read }
    else if c.toNat < 0x20 then scan.fail
    else { scan with place := .string (c :: read) }
  | .escape read =>
    if c = 'u' then { scan with place := .digits none 0 0 read }
    else
      match simpleEscape? c with
      | some meant => { scan with place := .string (meant :: read) }
      | none => scan.fail
  | .digits high count value read =>
    if Text.isHexDigit c then
      let extended := value * 16 + Text.digitValue c
      if count = 3 then scan.finishUnit high extended read
      else { scan with place := .digits high (count + 1) extended read }
    else scan.fail
  | .lowEscape high read =>
    if c = '\\' then { scan with place := .lowMark high read } else scan.fail
  | .lowMark high read =>
    if c = 'u' then { scan with place := .digits (some high) 0 0 read } else scan.fail
  | .stopped => scan

/-- The tokens of the whole text, which may end between tokens and after an atom. -/
def result (scan : Scan) : List Token :=
  match scan.place with
  | .between | .stopped => scan.tokens.reverse
  | .atom read => (scan.emit (Token.ofAtom read.reverse)).tokens.reverse
  | _ => scan.fail.tokens.reverse

end Scan

/-- The tokens of a text. -/
def tokens (text : List Char) : List Token :=
  (text.foldl Scan.step {}).result

end CommandCompletion.Json
