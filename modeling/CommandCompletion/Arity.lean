import CommandCompletion.Failure
import CommandCompletion.Text.Decimal

/-!
# How many words a slot takes

An arity says how many words of a command line belong to an option or to a positional:
a fixed count, at most one, any number, at least one, or everything that follows. Each
has one text form, a decimal count or one of four symbols, and reading drops the blanks
at both ends of the text.
-/

set_option autoImplicit false

namespace CommandCompletion

/-- How many words a slot takes. -/
inductive Arity where
  /-- Exactly this many words; none for a plain flag. -/
  | exactly (count : Nat)
  /-- One word or none. -/
  | optional
  /-- Any number of words. -/
  | zeroOrMore
  /-- At least one word. -/
  | oneOrMore
  /-- Every word that follows. -/
  | remainder
  deriving DecidableEq, Inhabited

namespace Arity

/-- An arity without an upper bound. -/
def isUnbounded : Arity → Bool
  | .exactly _ | .optional => false
  | .zeroOrMore | .oneOrMore | .remainder => true

/-- The text form of an arity. -/
def text : Arity → String
  | .exactly count => toString count
  | .optional => "?"
  | .zeroOrMore => "*"
  | .oneOrMore => "+"
  | .remainder => "..."

/-- The arity that characters without blanks at the ends denote. -/
def ofTrimmed? : List Char → Option Arity
  | ['?'] => some .optional
  | ['*'] => some .zeroOrMore
  | ['+'] => some .oneOrMore
  | ['.', '.', '.'] => some .remainder
  | digits => (Text.readCount digits).map .exactly

/-- Reads an arity; a text that is none is reported as it was given. -/
def ofText (text : String) : Except SpecificationFault Arity :=
  match ofTrimmed? (Text.trim text.toList) with
  | some arity => .ok arity
  | none => .error (.invalidArity text)

end Arity

end CommandCompletion
