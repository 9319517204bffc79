import CommandCompletion.Arity
import CommandCompletion.Description

/-!
# The slot that takes words

While a command line is read, at most one slot is open: that of an option whose flag was
typed, or that of a positional that takes more than one word. A bounded slot takes
exactly the words it still needs, a slot of at most one word takes it unless the word
looks like an option, and an unbounded slot takes every word, the separator and flags
included.
-/

set_option autoImplicit false

namespace CommandCompletion

/-- What opened a slot. -/
inductive SlotKind where
  | option
  | positional
  deriving DecidableEq

/-- A slot that is taking words. -/
structure ActiveSlot where
  /-- The flag, or the key of the positional. -/
  key : String
  kind : SlotKind
  arity : Arity
  /-- The words taken so far; for a positional, the one that opened it among them. -/
  consumed : Nat
  deriving DecidableEq

namespace ActiveSlot

/-- How many words the slot must still get before anything else may come. -/
def required (slot : ActiveSlot) : Nat :=
  match slot.arity with
  | .exactly count => count - slot.consumed
  | .oneOrMore => if slot.consumed = 0 then 1 else 0
  | .optional | .zeroOrMore | .remainder => 0

/-- Whether the slot takes a word. -/
def absorbs (slot : ActiveSlot) (description : Description) (word : String) : Bool :=
  match slot.arity with
  | .exactly count => slot.consumed < count
  | .optional => slot.consumed == 0 && !description.looksLikeOption word
  | .zeroOrMore | .oneOrMore | .remainder => true

/-- Whether the slot has everything it can take. -/
def isExhausted (slot : ActiveSlot) : Bool :=
  match slot.arity with
  | .exactly count => count ≤ slot.consumed
  | .optional => 1 ≤ slot.consumed
  | .zeroOrMore | .oneOrMore | .remainder => false

end ActiveSlot

end CommandCompletion
