import CommandCompletion.Interface.Implied
import CommandCompletion.Text.Blank

/-!
# Reading the words of a command line

The words behind the program's name are read from the left by a declaration with all that
it implies. The name of a subcommand leads to that subcommand, which reads all the words
that follow. A word that begins with two hyphens gives an argument by its long form, with
a value behind an equals sign or none; a word that begins with one hyphen gives arguments
by their short forms, of which the last one may have its value attached. A value that is
not attached is the next word, unless that word begins with a hyphen and something else.
Every other word is a positional, and after the bare separator every word is.

The values of an argument are kept back until the next argument is met or the words end.
Only then are their number and kind checked, so a fault in them is reported late. A
subcommand is checked as a whole before the command above it.
-/

set_option autoImplicit false

namespace CommandCompletion

/-- Why words are not acted on. -/
inductive UsageFault where
  | unknownArgument
  | invalidValue
  | invalidSubcommand
  | missingArgument
  | missingSubcommand
  | conflictingArguments
  | tooManyValues
  | wrongNumberOfValues
  /-- Help is asked for. -/
  | helpAsked
  /-- The version is asked for. -/
  | versionAsked
  /-- Nothing is given where something is needed, so that help is shown. -/
  | nothingGiven
  deriving DecidableEq

/-- What was given to one command: the values of its arguments by name. -/
structure GivenArguments where
  command : String
  values : List (String × List String)
  deriving DecidableEq

/-! ## Arguments -/

namespace Argument

/-- Whether a long form belongs to the argument. -/
def hasLong (argument : Argument) (name : String) : Bool :=
  argument.long == some name || argument.longAliases.contains name ||
    argument.hiddenLongAliases.contains name

/-- Whether a short form belongs to the argument. -/
def hasShort (argument : Argument) (name : Char) : Bool :=
  argument.short == some name || argument.shortAliases.contains name ||
    argument.hiddenShortAliases.contains name

/-- Whether one more value may follow so many. -/
def takesMore (argument : Argument) (count : Nat) : Bool :=
  argument.range.greatest.all (count < ·)

/-- Whether the argument may be given as several words. -/
def isRepeated (argument : Argument) : Bool :=
  argument.action == .append || argument.range.greatest.all (1 < ·)

/-- Refuses a wrong number of values. -/
def checkCount (argument : Argument) (count : Nat) : Except UsageFault Unit :=
  if count = 0 ∧ 0 < argument.range.least then .error .invalidValue
  else if count < argument.range.least ∨ ¬argument.range.greatest.all (count ≤ ·) then
    .error .wrongNumberOfValues
  else .ok ()

/-- Whether a text can be a value of the argument. -/
def accepts (argument : Argument) (value : String) : Bool :=
  match argument.valueKind with
  | .text => true
  | .choice values | .pathChoice values => values.any (·.name == value)
  | .path => !value.isEmpty

end Argument

/-! ## The words of one command -/

/-- What the next word may be. -/
inductive Awaiting where
  /-- Anything. -/
  | anything
  /-- A value of the argument that is kept back. -/
  | value
  /-- Anything but the name of a subcommand, as a positional goes on. -/
  | positional
  deriving DecidableEq

/-- How far the words of one command are read. -/
structure UsageState where
  /-- The values that are checked, by the name of the argument. -/
  given : List (String × List String) := []
  /-- The argument whose values are kept back. -/
  pending : Option (Argument × List String) := none
  awaiting : Awaiting := .anything
  /-- The number of positionals that are complete. -/
  place : Nat := 0
  /-- Whether only positionals follow. -/
  separated : Bool := false

namespace UsageState

/-- Takes the values of an argument, or does what the argument asks for. -/
def give (state : UsageState) (argument : Argument) (values : List String) :
    Except UsageFault UsageState := do
  argument.checkCount values.length
  let before := state.given.lookup argument.name
  let kept ←
    match argument.action with
    | .help | .helpShort | .helpLong => .error .helpAsked
    | .version => .error .versionAsked
    | .append | .count => .ok (before.getD [] ++ values)
    | .set | .setTrue | .setFalse =>
      if before.isSome then .error .conflictingArguments else .ok values
  if values.all argument.accepts then
    .ok { state with
      given := state.given.filter (·.1 != argument.name) ++ [(argument.name, kept)] }
  else .error .invalidValue

/-- Takes the values that are kept back. -/
def settle (state : UsageState) : Except UsageFault UsageState :=
  match state.pending with
  | none => .ok state
  | some (argument, values) => { state with pending := none }.give argument values

/-- Gives an argument with all its values. -/
def giveNow (state : UsageState) (argument : Argument) (values : List String) :
    Except UsageFault UsageState := do
  let settled ← state.settle
  let next ← settled.give argument values
  .ok { next with awaiting := .anything }

/-- Gives an argument whose values follow. -/
def expectValues (state : UsageState) (argument : Argument) : Except UsageFault UsageState := do
  let settled ← state.settle
  .ok { settled with pending := some (argument, []), awaiting := .value }

/-- A word that begins with two hyphens, given without them. -/
def readLong (state : UsageState) (arguments : List Argument) (characters : List Char) :
    Except UsageFault UsageState :=
  let name := String.ofList (characters.takeWhile (· != '='))
  let attached :=
    match characters.dropWhile (· != '=') with
    | [] => none
    | _ :: value => some (String.ofList value)
  match arguments.find? (·.hasLong name), attached with
  | none, _ => .error .unknownArgument
  | some argument, some value =>
    if argument.hasValues then state.giveNow argument [value] else .error .tooManyValues
  | some argument, none =>
    if argument.hasValues then state.expectValues argument
    else state.giveNow argument []

/-- A word that begins with one hyphen, given without it. -/
def readShort (state : UsageState) (arguments : List Argument) :
    List Char → Except UsageFault UsageState
  | [] => .ok state
  | c :: rest =>
    match arguments.find? (·.hasShort c) with
    | none => .error .unknownArgument
    | some argument =>
      if argument.hasValues then
        match rest with
        | [] => state.expectValues argument
        | '=' :: value => state.giveNow argument [String.ofList value]
        | value => state.giveNow argument [String.ofList value]
      else do
        let next ← state.giveNow argument []
        readShort next arguments rest

/-- A word that is a value of the argument that is kept back. -/
def readValue (state : UsageState) (word : String) : UsageState :=
  match state.pending with
  | none => state
  | some (argument, values) =>
    { state with
      pending := some (argument, values ++ [word])
      awaiting := if argument.takesMore (values.length + 1) then .value else .anything }

/-- Why a word is refused for which there is no positional. -/
def excess (state : UsageState) (interface : Interface) (word : String) : UsageFault :=
  let isSubcommand := interface.subcommands.any (·.name == word)
  if state.separated && isSubcommand then .unknownArgument
  else if !interface.subcommands.isEmpty && !interface.arguments.any (·.isPositional) then
    .invalidSubcommand
  else .unknownArgument

/-- A word that is a positional. After the separator the last one may be meant. -/
def readPositional (state : UsageState) (interface : Interface) (word : String) :
    Except UsageFault UsageState :=
  let positionals := interface.arguments.filter (·.isPositional)
  let place :=
    if state.separated && positionals.any (·.isLast) then positionals.length - 1 else state.place
  match positionals[place]? with
  | none => .error (state.excess interface word)
  | some argument =>
    if argument.isLast && !state.separated then .error .unknownArgument
    else do
      let goesOn := argument.isRepeated && state.pending.any (·.1.name == argument.name)
      let settled ← if goesOn then .ok state else state.settle
      let before := (settled.pending.map (·.2)).getD []
      .ok { settled with
        pending := some (argument, before ++ [word])
        awaiting := if argument.isRepeated then .positional else .anything
        place := if argument.isRepeated then place else place + 1
        separated := settled.separated || argument.isTrailing }

/-- The state after one more word that is no subcommand. -/
def read (state : UsageState) (interface : Interface) (word : String) :
    Except UsageFault UsageState :=
  let other :=
    if state.awaiting = .value ∧ ¬state.separated then .ok (state.readValue word)
    else state.readPositional interface word
  if state.separated then other
  else
    match word.toList with
    | ['-', '-'] => .ok { state with separated := true }
    | '-' :: '-' :: rest => state.readLong interface.arguments rest
    | ['-'] => other
    | '-' :: rest => state.readShort interface.arguments rest
    | _ => other

/-- Refuses a command without the subcommand it needs, arguments that exclude each other, and
the lack of an argument that is required. -/
def check (state : UsageState) (interface : Interface) (descended : Bool) :
    Except UsageFault Unit :=
  let isGiven := fun name => (state.given.lookup name).isSome
  if interface.needsSubcommand && !descended then
    .error (if state.given.isEmpty then .nothingGiven else .missingSubcommand)
  else if interface.arguments.any fun argument =>
      isGiven argument.name && argument.conflicts.any isGiven then
    .error .conflictingArguments
  else if interface.arguments.any fun argument =>
      argument.isRequired && !isGiven argument.name then
    .error .missingArgument
  else .ok ()

/-- What was given when the words of the command end. -/
def finish (state : UsageState) (interface : Interface) (descended : Bool) :
    Except UsageFault GivenArguments := do
  let settled ← state.settle
  settled.check interface descended
  .ok ⟨interface.name, settled.given⟩

end UsageState

/-! ## All words -/

namespace Interface

/-- The subcommand of a name. -/
def subcommand? (interface : Interface) (name : String) : Option Interface :=
  interface.subcommands.find? (·.name == name)

/-- Whether a name stands for the implied subcommand that shows help. -/
def isHelp (interface : Interface) (name : String) : Bool :=
  name == helpName && !interface.options.withoutHelpCommand

/-- What comes of asking for help about the command that names lead to. -/
def helpAbout (interface : Interface) : List String → UsageFault
  | [] => .helpAsked
  | name :: rest =>
    match interface.subcommand? name with
    | none => .invalidSubcommand
    | some inner =>
      if interface.isHelp name then if rest.isEmpty then .helpAsked else .invalidSubcommand
      else helpAbout inner rest

/-- Reads the words of a command from a state on. The answer lists what was given to the
command and to the subcommands below it. -/
def readFrom (interface : Interface) (state : UsageState) :
    List String → Except UsageFault (List GivenArguments)
  | [] => do
    let given ← state.finish interface false
    .ok [given]
  | word :: rest =>
    let descent :=
      if state.awaiting = .anything ∧ ¬state.separated then interface.subcommand? word else none
    match descent with
    | some inner =>
      if interface.isHelp word then .error (interface.helpAbout rest)
      else do
        let below ← readFrom inner {} rest
        let given ← state.finish interface true
        .ok (given :: below)
    | none => do
      let next ← state.read interface word
      readFrom interface next rest

/-- Reads the words behind the program's name by its declaration. -/
def read (interface : Interface) (words : List String) :
    Except UsageFault (List GivenArguments) :=
  (interface.expand {}).readFrom {} words

end Interface

end CommandCompletion
