import CommandCompletion.Arity

/-!
# Command specifications

A specification is a tree of commands: the program at the root and its subcommands
below. Each command declares options and positionals. An option is a list of flags, the
words that invoke it, which share one slot; the first flag is the primary one. The slot
of a positional is its place in the list.

A slot has an arity, and may have a list of literal choices and the name of a provider,
a source of candidates that is asked when a word is completed.
-/

set_option autoImplicit false

namespace CommandCompletion

/-- An option: the flags that invoke it and what its slot takes. -/
structure OptionDecl where
  flags : List String
  arity : Arity := .exactly 0
  choices : Option (List String) := none
  provider : Option String := none
  deriving DecidableEq, Inhabited

namespace OptionDecl

/-- The flag by which the option is known. -/
def primary (option : OptionDecl) : Option String :=
  option.flags.head?

/-- Two declarations with the same slot data. -/
def sameSlot (first second : OptionDecl) : Bool :=
  first.arity == second.arity && first.choices == second.choices &&
    first.provider == second.provider

end OptionDecl

/-- A positional: its name, which only people read, and what its slot takes. -/
structure PositionalDecl where
  name : String
  arity : Arity := .exactly 1
  choices : Option (List String) := none
  provider : Option String := none
  deriving DecidableEq, Inhabited

/-- A program or subcommand with everything below it. -/
structure Command where
  name : String
  options : List OptionDecl := []
  positionals : List PositionalDecl := []
  subcommands : List Command := []
  deriving Inhabited

namespace Command

/-- The same command under another name. -/
def rename (command : Command) (name : String) : Command :=
  { command with name }

mutual
/-- The number of commands in the tree. -/
def size : Command → Nat
  | ⟨_, _, _, subcommands⟩ => 1 + sizeAll subcommands

/-- The number of commands in a list of trees. -/
def sizeAll : List Command → Nat
  | [] => 0
  | command :: rest => command.size + sizeAll rest
end

end Command

/-- The key of the slot of the positional at a place. -/
def positionalKey (place : Nat) : String :=
  "pos_" ++ toString place

/-- A text that reads as the key of a positional slot, which therefore no flag may be. -/
def isPositionalKey (text : String) : Bool :=
  match text.toList with
  | 'p' :: 'o' :: 's' :: '_' :: digits => Text.isDigits digits
  | _ => false

end CommandCompletion
