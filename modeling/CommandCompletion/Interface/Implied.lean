import CommandCompletion.Interface

/-!
# What a declaration implies

Besides what it declares, a command takes a flag that asks for help, a flag that asks for
its version if it has one, and the global arguments of the commands above it. A command
with subcommands also has a last subcommand `help`, whose subcommands repeat the names of
the others, and `help` itself once more, without any arguments. Each of these can be
turned off, for a command and everything below it.

The arguments of a command are its own, then the global ones it does not have itself, then
the flag for help and the flag for the version.
-/

set_option autoImplicit false

namespace CommandCompletion

/-- What a command gets from the commands above it. -/
structure Inherited where
  options : InterfaceOptions := {}
  /-- The version, if it is shared. -/
  version : Option String := none
  /-- The global arguments. -/
  arguments : List Argument := []

/-- What is turned off here or above. -/
def InterfaceOptions.union (first second : InterfaceOptions) : InterfaceOptions :=
  { withoutHelpFlag := first.withoutHelpFlag || second.withoutHelpFlag
    withoutVersionFlag := first.withoutVersionFlag || second.withoutVersionFlag
    withoutHelpCommand := first.withoutHelpCommand || second.withoutHelpCommand
    sharesVersion := first.sharesVersion || second.sharesVersion }

/-- The name of the subcommand that shows help. -/
def Interface.helpName : String := "help"

/-- What a subcommand of a name gets. While `help` is implied, nothing of that name gets
the global arguments. -/
def Inherited.forCommand (inherited : Inherited) (name : String) : Inherited :=
  if name = Interface.helpName ∧ ¬inherited.options.withoutHelpCommand then
    { inherited with arguments := [] }
  else inherited

namespace Interface

/-- The flag that asks for help. -/
def helpFlag : Argument :=
  { name := "help", long := some "help", short := some 'h', action := .help }

/-- The flag that asks for the version. -/
def versionFlag : Argument :=
  { name := "version", long := some "version", short := some 'V', action := .version }

mutual
/-- The bare names of a command and everything below it. -/
def bare : Interface → Interface
  | ⟨name, _, _, subcommands, isHidden, _, _⟩ =>
    { name, subcommands := bareAll subcommands, isHidden }

/-- The bare names of commands and everything below them. -/
def bareAll : List Interface → List Interface
  | [] => []
  | interface :: rest => interface.bare :: bareAll rest
end

/-- The subcommand that shows help about the given ones and itself. -/
def helpCommand (subcommands : List Interface) : Interface :=
  { name := helpName, subcommands := bareAll subcommands ++ [{ name := helpName }] }

/-- All arguments of a command: its own, the global ones, and the implied flags. -/
def impliedArguments (inherited : Inherited) (own : List Argument) (options : InterfaceOptions)
    (version : Option String) : List Argument :=
  let added := inherited.arguments.filter fun global => !own.any (·.name == global.name)
  own ++ added ++
    (if options.withoutHelpFlag then [] else [helpFlag]) ++
    (if options.withoutVersionFlag || version.isNone then [] else [versionFlag])

mutual
/-- The declaration with everything that it implies. -/
def expand (inherited : Inherited) : Interface → Interface
  | ⟨name, version, arguments, subcommands, isHidden, needsSubcommand, options⟩ =>
    let options := options.union inherited.options
    let version := version <|> inherited.version
    let arguments := impliedArguments inherited arguments options version
    let below : Inherited :=
      { options
        version := if options.sharesVersion then version else none
        arguments := arguments.filter (·.isGlobal) }
    let help :=
      if options.withoutHelpCommand || subcommands.isEmpty then [] else [helpCommand subcommands]
    { name, version, arguments, isHidden, needsSubcommand, options,
      subcommands := expandAll below subcommands ++ help }

/-- The declarations of subcommands with everything that they imply. -/
def expandAll (inherited : Inherited) : List Interface → List Interface
  | [] => []
  | interface :: rest =>
    interface.expand (inherited.forCommand interface.name) :: expandAll inherited rest
end

/-- The specification of a program by its declaration, implied parts included. -/
def specification (interface : Interface) : Command :=
  (interface.expand {}).arena.command

end Interface

end CommandCompletion
