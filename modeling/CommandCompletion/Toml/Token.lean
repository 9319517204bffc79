import CommandCompletion.Text.Decimal

/-!
# The tokens of TOML

A text is cut into brackets, braces, equals signs, commas, blanks, line ends, strings and
atoms. An atom is a run of other characters, dots included: a bare key or a part of one, a
number, a truth value, or a date. A date may be followed by a time after one space, and is
then one atom with it. Comments end with their line and give no token.

Strings come in four kinds. A basic string stands between double quotes and has escapes, a
literal string stands between single quotes and has none, and each of the two may hold
several lines when its quote is written three times. Of the control characters only the
tab may stand in a comment or string, and a carriage return stands right before a line
feed or nowhere.

The text is read by a machine with one step for each character. At the first character
that makes no sense the machine gives the token `stop` and reads no further.
-/

set_option autoImplicit false

namespace CommandCompletion.Toml

/-- A token. -/
inductive Token where
  | openList
  | closeList
  | openRecord
  | closeRecord
  | equals
  | comma
  | blank
  | newLine
  | atom (characters : List Char)
  /-- A string on one line, which may be a key. -/
  | text (value : List Char)
  /-- A string between tripled quotes, which may not. -/
  | paragraph (value : List Char)
  /-- Here the text stops making sense. -/
  | stop
  deriving DecidableEq

/-- The two quotes. -/
inductive Quote where
  /-- The double quote, with escapes. -/
  | basic
  /-- The single quote, without escapes. -/
  | literal
  deriving DecidableEq

/-- The character of a quote. -/
def Quote.character : Quote → Char
  | .basic => '"'
  | .literal => '\''

/-- Where in a text the machine is; characters read so far are held in reverse. -/
inductive ScanPlace where
  | between
  | comment
  /-- After a carriage return between tokens or at the end of a comment. -/
  | carriageReturn
  | atom (read : List Char)
  /-- After a date and one space. -/
  | afterDate (read : List Char)
  /-- After one quote. -/
  | openedOnce (quote : Quote)
  /-- After two quotes, which may be an empty string. -/
  | openedTwice (quote : Quote)
  /-- After three quotes, where a line end is passed over. -/
  | openedThrice (quote : Quote)
  /-- After three quotes and a carriage return. -/
  | openedLine (quote : Quote)
  /-- In a string on one line. -/
  | line (quote : Quote) (read : List Char)
  /-- In a string of several lines. -/
  | lines (quote : Quote) (read : List Char)
  /-- After a carriage return in a string of several lines. -/
  | linesReturn (quote : Quote) (read : List Char)
  /-- After so many quotes in a string of several lines. -/
  | closing (quote : Quote) (count : Nat) (read : List Char)
  /-- After a backslash, in a string of several lines or not. -/
  | escape (several : Bool) (read : List Char)
  /-- In the digits of an escape, so many being left. -/
  | digits (several : Bool) (left value : Nat) (read : List Char)
  /-- In the blanks after a backslash at the end of a line. -/
  | folding (ended : Bool) (read : List Char)
  /-- After a carriage return in those blanks. -/
  | foldingReturn (read : List Char)
  | stopped
  deriving DecidableEq

/-- The state of the machine: the place and the tokens so far, in reverse. -/
structure Scan where
  place : ScanPlace := .between
  tokens : List Token := []
  deriving DecidableEq

/-- A blank within a line. -/
def isBlank (c : Char) : Bool :=
  c == ' ' || c == '\t'

/-- A character that may stand in a comment or string as it is: not a control character,
except the tab. -/
def isPlain (c : Char) : Bool :=
  c == '\t' || (0x20 ≤ c.toNat && c.toNat != 0x7F)

/-- The form of a date: four, two and two digits with hyphens between them. -/
def isDateForm (characters : List Char) : Bool :=
  characters.length == 10 &&
    (characters.zip "0000-00-00".toList).all fun (c, form) =>
      if form == '-' then c == '-' else Text.isDigit c

namespace Scan

/-- The state after a token. -/
def emit (scan : Scan) (token : Token) : Scan :=
  { place := if token = .stop then .stopped else .between, tokens := token :: scan.tokens }

/-- The state at a character that makes no sense. -/
def fail (scan : Scan) : Scan :=
  scan.emit .stop

/-- The token of a single character. -/
def mark? : Char → Option Token
  | '[' => some .openList
  | ']' => some .closeList
  | '\x7b' => some .openRecord
  | '\x7d' => some .closeRecord
  | '=' => some .equals
  | ',' => some .comma
  | ' ' => some .blank
  | '\t' => some .blank
  | '\n' => some .newLine
  | _ => none

/-- The place that a character leads to which is neither a token nor part of an atom. -/
def opening? : Char → Option ScanPlace
  | '#' => some .comment
  | '\r' => some .carriageReturn
  | '"' => some (.openedOnce .basic)
  | '\'' => some (.openedOnce .literal)
  | _ => none

/-- One character between tokens. -/
def stepBetween (scan : Scan) (c : Char) : Scan :=
  match mark? c, opening? c with
  | some token, _ => scan.emit token
  | none, some place => { scan with place }
  | none, none => { scan with place := .atom [c] }

/-- One character of an atom or after it. -/
def stepAtom (scan : Scan) (read : List Char) (c : Char) : Scan :=
  if c = ' ' ∧ isDateForm read.reverse then { scan with place := .afterDate read }
  else if (mark? c).isSome || (opening? c).isSome then
    (scan.emit (.atom read.reverse)).stepBetween c
  else { scan with place := .atom (c :: read) }

/-- One character of a string on one line. -/
def stepLine (scan : Scan) (quote : Quote) (read : List Char) (c : Char) : Scan :=
  if c = quote.character then scan.emit (.text read.reverse)
  else if c = '\\' ∧ quote = .basic then { scan with place := .escape false read }
  else if isPlain c then { scan with place := .line quote (c :: read) }
  else scan.fail

/-- One character of a string of several lines. -/
def stepLines (scan : Scan) (quote : Quote) (read : List Char) (c : Char) : Scan :=
  if c = quote.character then { scan with place := .closing quote 1 read }
  else if c = '\\' ∧ quote = .basic then { scan with place := .escape true read }
  else if c = '\r' then { scan with place := .linesReturn quote read }
  else if isPlain c ∨ c = '\n' then { scan with place := .lines quote (c :: read) }
  else scan.fail

/-- The token of a string of several lines that ends in so many quotes, of which the last
three close it. -/
def closed (quote : Quote) (count : Nat) (read : List Char) : Token :=
  .paragraph (List.replicate (count - 3) quote.character ++ read).reverse

/-- One character after so many quotes in a string of several lines. At most two quotes
belong to the string before the three that close it. -/
def stepClosing (scan : Scan) (quote : Quote) (count : Nat) (read : List Char) (c : Char) :
    Scan :=
  if c = quote.character ∧ count < 5 then { scan with place := .closing quote (count + 1) read }
  else if 3 ≤ count then (scan.emit (closed quote count read)).stepBetween c
  else scan.stepLines quote (List.replicate count quote.character ++ read) c

/-- The character that an escape of one letter stands for. -/
def simpleEscape? : Char → Option Char
  | '"' => some '"'
  | '\\' => some '\\'
  | 'b' => some (Char.ofNat 8)
  | 'f' => some (Char.ofNat 12)
  | 'n' => some '\n'
  | 'r' => some '\r'
  | 't' => some '\t'
  | 'e' => some (Char.ofNat 27)
  | _ => none

/-- The number of digits of an escape by number. -/
def escapeDigits? : Char → Option Nat
  | 'x' => some 2
  | 'u' => some 4
  | 'U' => some 8
  | _ => none

/-- The inside of a basic string with the given characters read. -/
def inside (several : Bool) (read : List Char) : ScanPlace :=
  if several then .lines .basic read else .line .basic read

/-- One character after a backslash. -/
def stepEscape (scan : Scan) (several : Bool) (read : List Char) (c : Char) : Scan :=
  match simpleEscape? c, escapeDigits? c with
  | some meant, _ => { scan with place := inside several (meant :: read) }
  | none, some count => { scan with place := .digits several count 0 read }
  | none, none =>
    if several && isBlank c then { scan with place := .folding false read }
    else if several && c == '\n' then { scan with place := .folding true read }
    else if several && c == '\r' then { scan with place := .foldingReturn read }
    else scan.fail

/-- One digit of an escape by number, whose value has to be a character. -/
def stepDigits (scan : Scan) (several : Bool) (left value : Nat) (read : List Char) (c : Char) :
    Scan :=
  let extended := value * 16 + Text.digitValue c
  if !Text.isHexDigit c then scan.fail
  else if 1 < left then { scan with place := .digits several (left - 1) extended read }
  else if extended.isValidChar then
    { scan with place := inside several (Char.ofNat extended :: read) }
  else scan.fail

/-- One character in the blanks after a backslash, among which a line has to end. -/
def stepFolding (scan : Scan) (ended : Bool) (read : List Char) (c : Char) : Scan :=
  if isBlank c then { scan with place := .folding ended read }
  else if c = '\n' then { scan with place := .folding true read }
  else if c = '\r' then { scan with place := .foldingReturn read }
  else if ended then scan.stepLines .basic read c
  else scan.fail

/-- The state after one more character. -/
def step (scan : Scan) (c : Char) : Scan :=
  match scan.place with
  | .between => scan.stepBetween c
  | .comment =>
    if c = '\n' then scan.emit .newLine
    else if c = '\r' then { scan with place := .carriageReturn }
    else if isPlain c then scan
    else scan.fail
  | .carriageReturn => if c = '\n' then scan.emit .newLine else scan.fail
  | .atom read => scan.stepAtom read c
  | .afterDate read =>
    if Text.isDigit c then { scan with place := .atom (c :: ' ' :: read) }
    else ((scan.emit (.atom read.reverse)).emit .blank).stepBetween c
  | .openedOnce quote =>
    if c = quote.character then { scan with place := .openedTwice quote }
    else scan.stepLine quote [] c
  | .openedTwice quote =>
    if c = quote.character then { scan with place := .openedThrice quote }
    else (scan.emit (.text [])).stepBetween c
  | .openedThrice quote =>
    if c = '\n' then { scan with place := .lines quote [] }
    else if c = '\r' then { scan with place := .openedLine quote }
    else scan.stepLines quote [] c
  | .openedLine quote => if c = '\n' then { scan with place := .lines quote [] } else scan.fail
  | .line quote read => scan.stepLine quote read c
  | .lines quote read => scan.stepLines quote read c
  | .linesReturn quote read =>
    if c = '\n' then { scan with place := .lines quote ('\n' :: '\r' :: read) } else scan.fail
  | .closing quote count read => scan.stepClosing quote count read c
  | .escape several read => scan.stepEscape several read c
  | .digits several left value read => scan.stepDigits several left value read c
  | .folding ended read => scan.stepFolding ended read c
  | .foldingReturn read =>
    if c = '\n' then { scan with place := .folding true read } else scan.fail
  | .stopped => scan

/-- The tokens of the whole text. -/
def result (scan : Scan) : List Token :=
  let ended :=
    match scan.place with
    | .between | .comment | .stopped => scan
    | .atom read | .afterDate read => scan.emit (.atom read.reverse)
    | .openedTwice _ => scan.emit (.text [])
    | .closing quote count read =>
      if 3 ≤ count then scan.emit (closed quote count read) else scan.fail
    | _ => scan.fail
  ended.tokens.reverse

end Scan

/-- The tokens of a text. -/
def tokens (text : List Char) : List Token :=
  (text.foldl Scan.step {}).result

end CommandCompletion.Toml
