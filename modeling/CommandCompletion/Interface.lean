import CommandCompletion.Command.Arena
import CommandCompletion.Provider

/-!
# Declared command lines

A program that parses its own command line declares what it takes: every command has
arguments and subcommands, and every argument says how it is written, how many values
follow it and which values are possible. An argument with neither a long nor a short form
is positional.

Such a declaration holds more than a specification needs. Its specification keeps the
visible part (`Interface.arena`): what is hidden is left out, an argument becomes an
option with all visible flags or a positional, a range of counts becomes the closest
arity, and values that are paths are completed by the built-in providers. A command gets
its options and positionals in the order of the arguments, then each subcommand is created
and gets its own before the next one is created.
-/

set_option autoImplicit false

namespace CommandCompletion

/-- How many values follow an argument; without a greatest number, any more may. -/
structure CountRange where
  least : Nat
  greatest : Option Nat
  deriving DecidableEq

/-- The closest arity: the one that allows the fewest counts besides those of the range. -/
def CountRange.arity (range : CountRange) : Arity :=
  match range.least, range.greatest with
  | 0, none => .zeroOrMore
  | _, none => .oneOrMore
  | 0, some 1 => .optional
  | least, some greatest =>
    if least = greatest then .exactly least
    else if least = 0 then .zeroOrMore
    else .oneOrMore

/-- What happens when an argument is given. -/
inductive ArgumentAction where
  /-- Its value is kept. -/
  | set
  /-- Its values are added to those given before. -/
  | append
  | setTrue
  | setFalse
  | count
  | help
  /-- Help in its short form is shown. -/
  | helpShort
  /-- Help in its long form is shown. -/
  | helpLong
  | version
  deriving DecidableEq

/-- Whether values that follow the argument are kept. -/
def ArgumentAction.takesValues : ArgumentAction → Bool
  | .set | .append => true
  | .setTrue | .setFalse | .count | .help | .helpShort | .helpLong | .version => false

/-- How many values follow unless something else is said. -/
def ArgumentAction.counts (action : ArgumentAction) : CountRange :=
  if action.takesValues then ⟨1, some 1⟩ else ⟨0, some 0⟩

/-- A value that is possible for an argument. -/
structure PossibleValue where
  name : String
  isHidden : Bool := false
  deriving DecidableEq

/-- What the values of an argument are. -/
inductive ValueKind where
  /-- Any text. -/
  | text
  /-- One of the possible values. -/
  | choice (values : List PossibleValue)
  /-- A path, which must not be empty. -/
  | path
  /-- One of the possible values, which stand for paths. -/
  | pathChoice (values : List PossibleValue)
  deriving DecidableEq

namespace ValueKind

/-- The values that are possible, if they are listed. -/
def possibleValues : ValueKind → List PossibleValue
  | .choice values | .pathChoice values => values
  | .text | .path => []

/-- Whether the values are paths. -/
def isPath : ValueKind → Bool
  | .path | .pathChoice _ => true
  | .text | .choice _ => false

end ValueKind

/-- What the values of an argument are unless something else is said. -/
def ArgumentAction.kind : ArgumentAction → ValueKind
  | .setTrue | .setFalse => .choice [{ name := "true" }, { name := "false" }]
  | .set | .append | .count | .help | .helpShort | .helpLong | .version => .text

/-- What a value stands for, as far as completion makes use of it. -/
inductive ValueHint where
  | anyPath
  | filePath
  | directoryPath
  | executablePath
  | other
  deriving DecidableEq

/-- An argument of a command. -/
structure Argument where
  name : String
  long : Option String := none
  /-- Further long forms that are shown. -/
  longAliases : List String := []
  /-- Further long forms that are not shown. -/
  hiddenLongAliases : List String := []
  short : Option Char := none
  /-- Further short forms that are shown. -/
  shortAliases : List Char := []
  /-- Further short forms that are not shown. -/
  hiddenShortAliases : List Char := []
  action : ArgumentAction := .set
  /-- How many values follow, if that is said. -/
  counts : Option CountRange := none
  /-- What the values are, if that is said. -/
  kind : Option ValueKind := none
  hint : Option ValueHint := none
  isHidden : Bool := false
  isRequired : Bool := false
  /-- Only after the bare separator. -/
  isLast : Bool := false
  /-- Everything after the first value belongs to it. -/
  isTrailing : Bool := false
  /-- Every subcommand has the argument too. -/
  isGlobal : Bool := false
  /-- The arguments that must not be given together with this one. -/
  conflicts : List String := []
  deriving DecidableEq

/-- What a command adds of itself, or does not. -/
structure InterfaceOptions where
  withoutHelpFlag : Bool := false
  withoutVersionFlag : Bool := false
  withoutHelpCommand : Bool := false
  /-- The subcommands have the version of the command. -/
  sharesVersion : Bool := false
  deriving DecidableEq

/-- The declaration of a command and its subcommands. -/
structure Interface where
  name : String
  version : Option String := none
  arguments : List Argument := []
  subcommands : List Interface := []
  isHidden : Bool := false
  /-- The command does nothing without one of its subcommands. -/
  needsSubcommand : Bool := false
  options : InterfaceOptions := {}

/-! ## The specification of a declaration -/

namespace Argument

/-- Whether the argument is given by its place. -/
def isPositional (argument : Argument) : Bool :=
  argument.long.isNone && argument.short.isNone

/-- The visible flags: the long forms, then the short ones. -/
def flags (argument : Argument) : List String :=
  let longs := argument.long.toList.flatMap fun long => long :: argument.longAliases
  let shorts := argument.short.toList.flatMap fun short => short :: argument.shortAliases
  longs.map ("--" ++ ·) ++ shorts.map fun short => "-" ++ short.toString

/-- How many values follow the argument. -/
def range (argument : Argument) : CountRange :=
  argument.counts.getD argument.action.counts

/-- Whether any values follow the argument, kept or not. -/
def hasValues (argument : Argument) : Bool :=
  argument.range.greatest != some 0

/-- What the values of the argument are. -/
def valueKind (argument : Argument) : ValueKind :=
  argument.kind.getD argument.action.kind

/-- How many words follow a flag or make up a positional. Values that are not kept do not
count. -/
def arity (argument : Argument) : Arity :=
  if argument.action.takesValues then argument.range.arity else .exactly 0

/-- The possible values, if any values follow. -/
def possibleValues (argument : Argument) : List PossibleValue :=
  if argument.hasValues then argument.valueKind.possibleValues else []

/-- The names of the possible values that are shown, if there are any. -/
def choices (argument : Argument) : Option (List String) :=
  let shown := (argument.possibleValues.filter (!·.isHidden)).map (·.name)
  if shown.isEmpty then none else some shown

/-- What a value stands for; a path is a path of any kind unless something else is said. -/
def valueHint (argument : Argument) : ValueHint :=
  match argument.hint with
  | some hint => hint
  | none =>
    if argument.hasValues && argument.valueKind.isPath then .anyPath else .other

/-- The provider that completes a value. -/
def provider (argument : Argument) : Option String :=
  match argument.valueHint with
  | .anyPath | .filePath | .executablePath => some fileCompleter
  | .directoryPath => some directoryCompleter
  | .other => none

/-- The option of an argument that is given by flags, if it has any. -/
def option? (argument : Argument) : Option OptionDecl :=
  if argument.flags.isEmpty then none
  else if argument.arity = .exactly 0 then some { flags := argument.flags }
  else
    some { flags := argument.flags, arity := argument.arity, choices := argument.choices,
           provider := argument.provider }

/-- The positional of an argument that is given by its place. -/
def positional (argument : Argument) : PositionalDecl :=
  { name := argument.name
    arity := if argument.isLast || argument.isTrailing then .remainder else argument.arity
    choices := argument.choices
    provider := argument.provider }

/-- Adds an argument to the command with the given number, unless it is hidden. -/
def declareInto (number : Nat) (arena : Arena) (argument : Argument) : Arena :=
  if argument.isHidden then arena
  else if argument.isPositional then arena.addPositional number argument.positional
  else
    match argument.option? with
    | some option => arena.addOption number option
    | none => arena

end Argument

namespace Interface

mutual
/-- Adds what a declaration shows to the command with the given number. -/
def lowerInto : Interface → Arena → Nat → Arena
  | ⟨_, _, arguments, subcommands, _, _, _⟩, arena, number =>
    lowerAll subcommands (arguments.foldl (Argument.declareInto number) arena) number

/-- Creates a subcommand of the command with the given number for each declaration of a list
that is not hidden, each one lowered before the next one is created. -/
def lowerAll : List Interface → Arena → Nat → Arena
  | [], arena, _ => arena
  | interface :: rest, arena, parent =>
    if interface.isHidden then lowerAll rest arena parent
    else
      lowerAll rest (interface.lowerInto (arena.addSubcommand parent interface.name) arena.size)
        parent
end

/-- What a declaration shows as an arena. -/
def arena (interface : Interface) : Arena :=
  interface.lowerInto (Arena.new interface.name) Arena.root

end Interface

end CommandCompletion
