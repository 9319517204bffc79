import CommandCompletion.Text.Blank

/-!
# The words of a command line

A command line is cut into words by the quoting rules of a shell. Words are separated by
spaces, tabs and newlines. A backslash outside quotes takes the next character as it is,
and vanishes together with a newline. Single quotes take everything up to the next single
quote as it is. In double quotes a backslash is special only before a dollar sign, a
backquote, a double quote, a backslash and a newline. A number sign where a word could
begin starts a comment up to the end of the line.

The line is read by a machine with one step for each character. A line that ends inside
quotes or right after a backslash has no words (`Line.words?`).
-/

set_option autoImplicit false

namespace CommandCompletion.Line

/-- Where in a line the machine is. -/
inductive Place where
  /-- Before a word. -/
  | between
  /-- In a comment. -/
  | comment
  /-- In a word, outside quotes. -/
  | word
  /-- After a backslash outside quotes. -/
  | escape
  /-- In single quotes. -/
  | single
  /-- In double quotes. -/
  | double
  /-- After a backslash in double quotes. -/
  | doubleEscape
  deriving DecidableEq

/-- The state of the machine: the place, the open word in reverse, and the words that are
complete, in reverse. -/
structure Reading where
  place : Place := .between
  pending : List Char := []
  complete : List (List Char) := []
  deriving DecidableEq

namespace Reading

/-- A separator of words. -/
def isSeparator (c : Char) : Bool :=
  c == ' ' || c == '\t' || c == '\n'

/-- A character that a backslash in double quotes takes as it is. -/
def isDoubleSpecial (c : Char) : Bool :=
  "$`\"\\".toList.contains c

/-- The state with the open word extended by a character. -/
def push (reading : Reading) (c : Char) : Reading :=
  { reading with pending := c :: reading.pending }

/-- The state after the open word is complete. -/
def finish (reading : Reading) : Reading :=
  { place := .between, pending := [], complete := reading.pending.reverse :: reading.complete }

/-- One character of a word, outside quotes. -/
def stepWord (reading : Reading) (c : Char) : Reading :=
  if c = '"' then { reading with place := .double }
  else if c = '\'' then { reading with place := .single }
  else if c = '\\' then { reading with place := .escape }
  else if isSeparator c then reading.finish
  else { reading.push c with place := .word }

/-- The state after one more character. -/
def step (reading : Reading) (c : Char) : Reading :=
  match reading.place with
  | .between =>
    if isSeparator c then reading
    else if c = '#' then { reading with place := .comment }
    else reading.stepWord c
  | .comment => if c = '\n' then { reading with place := .between } else reading
  | .word => reading.stepWord c
  | .escape =>
    if c = '\n' then { reading with place := .word } else { reading.push c with place := .word }
  | .single =>
    if c = '\'' then { reading with place := .word } else reading.push c
  | .double =>
    if c = '"' then { reading with place := .word }
    else if c = '\\' then { reading with place := .doubleEscape }
    else reading.push c
  | .doubleEscape =>
    if c = '\n' then { reading with place := .double }
    else if isDoubleSpecial c then { reading.push c with place := .double }
    else { (reading.push '\\').push c with place := .double }

/-- The words of the whole line, if the line may end here. -/
def result (reading : Reading) : Option (List (List Char)) :=
  match reading.place with
  | .between | .comment => some reading.complete.reverse
  | .word => some reading.finish.complete.reverse
  | .escape | .single | .double | .doubleEscape => none

end Reading

/-- The words of a line, unless it ends inside quotes or after a backslash. -/
def words? (line : List Char) : Option (List (List Char)) :=
  (line.foldl Reading.step {}).result

end CommandCompletion.Line
