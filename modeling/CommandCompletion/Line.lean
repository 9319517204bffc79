import CommandCompletion.Candidates
import CommandCompletion.Line.Words

/-!
# A command line with a cursor

What matters of a command line is what stands before the cursor: the words that are
complete, without the program's name, and the word that is being typed. After a blank the
word being typed is empty. A line that does not split by the quoting rules is cut at
blanks instead.

The cursor counts bytes. It need not stand between two characters, nor inside the line:
from the end of the line or from the cursor, whichever comes first, the last place where a
character begins or the line ends is looked for byte by byte, towards the beginning
(`Line.boundary?`). What stands before that place is split, and all the rest is ignored.
-/

set_option autoImplicit false

namespace CommandCompletion

/-- The complete words of a command line and the word being typed. -/
structure TypedLine where
  words : List String := []
  current : String := ""
  deriving DecidableEq

namespace Line

/-- Whether a line ends at a byte offset, or the byte there is the first one of a character. -/
def isBoundary (line : String) (offset : Nat) : Bool :=
  String.Pos.Raw.isValid line ⟨offset⟩

/-- The last boundary at an offset or before it, looked for one byte after the other. There is
nothing to go on with before the beginning of the line. -/
def boundary? (line : String) : Nat → Option Nat
  | 0 => if isBoundary line 0 then some 0 else none
  | offset + 1 => if isBoundary line (offset + 1) then some (offset + 1) else boundary? line offset

/-- The text of the bytes before an offset, if they are those of a text. -/
def upTo? (line : String) (offset : Nat) : Option String :=
  String.fromUTF8? (line.toUTF8.extract 0 offset)

/-- What stands before a cursor, which may be anywhere. -/
def beforeCursor? (line : String) (cursor : Nat) : Option String :=
  (boundary? line (min cursor line.utf8ByteSize)).bind (upTo? line)

/-- The words of a line, cut at blanks if it does not split by the quoting rules. -/
def splitWords (line : List Char) : List (List Char) :=
  (words? line).getD (Text.splitBlank line)

/-- Whether a text ends in a blank. -/
def endsInBlank (line : List Char) : Bool :=
  line.getLast?.any Text.isBlank

end Line

namespace TypedLine

/-- The words after the program's name; the last one is being typed. -/
def ofWords (words : List String) : TypedLine :=
  ⟨words.dropLast, words.getLast?.getD ""⟩

/-- What stands in the whole of a line. -/
def ofCharacters (line : List Char) : TypedLine :=
  let words := ((Line.splitWords line).drop 1).map String.ofList
  if Line.endsInBlank line then ⟨words, ""⟩ else ofWords words

/-- What is typed before the cursor of a line. -/
def ofLine (line : String) (cursor : Nat) : TypedLine :=
  match Line.beforeCursor? line cursor with
  | some before => ofCharacters before.toList
  | none => {}

/-- What stands in a line whose cursor is at its end. -/
def ofWholeLine (line : String) : TypedLine :=
  ofLine line line.utf8ByteSize

/-- The candidates for the word being typed. -/
def complete (index : Index) (description : Description) (registry : Registry)
    (line : TypedLine) : List String :=
  CommandCompletion.complete index description registry line.words line.current

end TypedLine

end CommandCompletion
