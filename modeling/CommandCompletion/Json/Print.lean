import CommandCompletion.Index
import CommandCompletion.Text.Decimal

/-!
# Printing JSON

The index is printed as JSON on several lines: every item and member stands on a line of
its own, indented by two spaces for each list or record around it, and an empty list or
record stands on one line. In a string the quote, the backslash and the control
characters below the space are escaped, and everything else stands as it is.
-/

set_option autoImplicit false

namespace CommandCompletion.Json

/-- A value to be printed. -/
inductive Value where
  | text (value : String)
  | list (items : List Value)
  | record (members : List (String × Value))

/-- One character of a string. -/
def escapeChar (c : Char) : List Char :=
  if c = '"' ∨ c = '\\' then ['\\', c]
  else if c = '\n' then ['\\', 'n']
  else if c = '\r' then ['\\', 'r']
  else if c = '\t' then ['\\', 't']
  else if c.toNat = 8 then ['\\', 'b']
  else if c.toNat = 12 then ['\\', 'f']
  else if c.toNat < 0x20 then
    ['\\', 'u', '0', '0', Text.hexDigit (c.toNat / 16), Text.hexDigit (c.toNat % 16)]
  else [c]

/-- A string between quotes. -/
def quoted (text : String) : List Char :=
  '"' :: text.toList.flatMap escapeChar ++ ['"']

/-- A new line inside so many lists and records. -/
def newLine (depth : Nat) : List Char :=
  '\n' :: List.replicate (2 * depth) ' '

namespace Value

mutual
/-- A value inside so many lists and records. -/
def pretty (depth : Nat) : Value → List Char
  | .text value => quoted value
  | .list [] => ['[', ']']
  | .list (item :: rest) =>
    ['['] ++ newLine (depth + 1) ++ pretty (depth + 1) item ++ prettyItems (depth + 1) rest ++
      newLine depth ++ [']']
  | .record [] => ['\x7b', '\x7d']
  | .record ((name, value) :: rest) =>
    ['\x7b'] ++ newLine (depth + 1) ++ quoted name ++ [':', ' '] ++ pretty (depth + 1) value ++
      prettyMembers (depth + 1) rest ++ newLine depth ++ ['\x7d']

/-- The items of a list after the first. -/
def prettyItems (depth : Nat) : List Value → List Char
  | [] => []
  | item :: rest => [','] ++ newLine depth ++ pretty depth item ++ prettyItems depth rest

/-- The members of a record after the first. -/
def prettyMembers (depth : Nat) : List (String × Value) → List Char
  | [] => []
  | (name, value) :: rest =>
    [','] ++ newLine depth ++ quoted name ++ [':', ' '] ++ pretty depth value ++
      prettyMembers depth rest
end

/-- The value as a text of several lines. -/
def print (value : Value) : String :=
  String.ofList (pretty 0 value)

/-- A list of texts. -/
def texts (values : List String) : Value :=
  .list (values.map .text)

/-- A table as a record. -/
def ofTable {α : Type} (value : α → Value) (table : Table α) : Value :=
  .record (table.entries.map fun entry => (entry.1, value entry.2))

/-- The index: the key of the program and the five tables. -/
def ofIndex (index : Index) : Value :=
  .record [
    ("root", .text index.root),
    ("subcommands", ofTable texts index.subcommandTable),
    ("option_strings", ofTable texts index.flagTable),
    ("choices", ofTable (ofTable texts) index.choiceTable),
    ("providers", ofTable (ofTable .text) index.providerTable),
    ("arity", ofTable (ofTable fun arity => .text arity.text) index.arityTable)]

end Value

end CommandCompletion.Json
