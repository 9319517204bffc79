import CommandCompletion.Text.Decimal
import CommandCompletion.Toml.Statement

/-!
# Printing TOML

A document is printed as tables, each with its header and one line for every member, and
with an empty line between two tables. A text is written between the quotes that need the
fewest escapes: on one line if it can stand there as it is, in basic or else literal
quotes; then between tripled quotes, in the same order; and only then with escapes. A key
is written without quotes if its characters allow it.

A tab is never a reason for another kind of quotes, but within basic quotes it is escaped.
-/

set_option autoImplicit false

namespace CommandCompletion.Toml

/-! ## Texts between quotes -/

/-- A control character for which an escape is needed. -/
def needsEscape (c : Char) : Bool :=
  !isPlain c && c != '\n'

/-- The longest run of a character, given the length of the run at the beginning. -/
def longestRun (mark : Char) (run : Nat) : List Char → Nat
  | [] => run
  | c :: rest =>
    if c = mark then longestRun mark (run + 1) rest else max run (longestRun mark 0 rest)

/-- A control character by its escape. -/
def escapeControl (c : Char) : List Char :=
  if c = '\t' then ['\\', 't']
  else if c = '\n' then ['\\', 'n']
  else if c = '\r' then ['\\', 'r']
  else if c.toNat = 8 then ['\\', 'b']
  else if c.toNat = 12 then ['\\', 'f']
  else ['\\', 'u', '0', '0', Text.upperHexDigit (c.toNat / 16), Text.upperHexDigit (c.toNat % 16)]

/-- One character between basic quotes, other than a quote. -/
def escapeCharacter (several : Bool) (c : Char) : List Char :=
  if c = '\\' then ['\\', '\\']
  else if several && c == '\n' then [c]
  else if c = '\t' || c = '\n' || needsEscape c then escapeControl c
  else [c]

/-- Characters between basic quotes after so many quotes that were not escaped. Two quotes in
a row may stand between tripled quotes, and none between single ones. -/
def escapeFrom (several : Bool) (run : Nat) : List Char → List Char
  | [] => []
  | c :: rest =>
    if c = '"' then
      if several && run < 2 then c :: escapeFrom several (run + 1) rest
      else '\\' :: c :: escapeFrom several 0 rest
    else escapeCharacter several c ++ escapeFrom several 0 rest

/-- A text between basic quotes on one line. -/
def basicLine (text : List Char) : List Char :=
  ['"'] ++ escapeFrom false 0 text ++ ['"']

/-- A text between literal quotes on one line. -/
def literalLine (text : List Char) : List Char :=
  ['\''] ++ text ++ ['\'']

/-- The line end after tripled quotes, which a text of several lines is given. -/
def openingLine (text : List Char) : List Char :=
  if text.contains '\n' then ['\n'] else []

/-- A text between tripled basic quotes. -/
def basicLines (text : List Char) : List Char :=
  ['"', '"', '"'] ++ openingLine text ++ escapeFrom true 0 text ++ ['"', '"', '"']

/-- A text between tripled literal quotes. -/
def literalLines (text : List Char) : List Char :=
  ['\'', '\'', '\''] ++ openingLine text ++ text ++ ['\'', '\'', '\'']

/-- A text between the quotes that need the fewest escapes. -/
def quoted (text : List Char) : List Char :=
  let controls := text.any needsEscape
  let newLine := text.contains '\n'
  let backslash := text.contains '\\'
  let basicRun := longestRun '"' 0 text
  let literalRun := longestRun '\'' 0 text
  if !controls && !backslash && !newLine && basicRun == 0 then basicLine text
  else if !controls && !newLine && literalRun == 0 then literalLine text
  else if !controls && !backslash && basicRun ≤ 2 then basicLines text
  else if !controls && literalRun ≤ 2 then literalLines text
  else if newLine then basicLines text
  else basicLine text

/-! ## Keys -/

/-- One name of a key. -/
def printedName (name : String) : List Char :=
  let text := name.toList
  let controls := text.any fun c => needsEscape c || c == '\n'
  if !text.isEmpty && text.all isBareCharacter then text
  else if !controls && !text.contains '\\' && !text.contains '"' then basicLine text
  else if !controls && !text.contains '\'' then literalLine text
  else basicLine text

/-- Names joined by dots. -/
def printedPath : List String → List Char
  | [] => []
  | [name] => printedName name
  | name :: rest => printedName name ++ ['.'] ++ printedPath rest

/-! ## Tables -/

/-- A value to be printed. -/
inductive PrintedValue where
  | text (value : String)
  | truth (value : Bool)

/-- The written form of a value. -/
def PrintedValue.characters : PrintedValue → List Char
  | .text value => quoted value.toList
  | .truth true => "true".toList
  | .truth false => "false".toList

/-- A table to be printed: the names that lead to it, and its members. -/
structure PrintedTable where
  path : List String
  members : List (String × PrintedValue)

namespace PrintedTable

/-- One member on a line of its own. -/
def memberLine (member : String × PrintedValue) : List Char :=
  printedName member.1 ++ " = ".toList ++ member.2.characters ++ ['\n']

/-- A table with its header. -/
def characters (table : PrintedTable) : List Char :=
  ['['] ++ printedPath table.path ++ [']', '\n'] ++ table.members.flatMap memberLine

/-- Tables with an empty line between two of them. -/
def document : List PrintedTable → List Char
  | [] => []
  | [table] => table.characters
  | table :: rest => table.characters ++ ['\n'] ++ document rest

end PrintedTable

end CommandCompletion.Toml
