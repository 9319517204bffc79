import CommandCompletion.Description
import CommandCompletion.Shell
import CommandCompletion.Text.Blank

/-!
# Settings

The settings give the defaults for the generation of scripts, bind providers to shell
functions of the user's own, and say how much is logged. Everything has a default, so
settings may be given in part or not at all.

A function name is usable if it is not empty and holds no blank. Settings are checked as a
whole, and the first unusable name is reported (`Settings.check`).
-/

set_option autoImplicit false

namespace CommandCompletion

/-- How much is logged. -/
inductive LogLevel where
  | error
  | warn
  | info
  | debug
  | trace
  deriving DecidableEq, Inhabited

namespace LogLevel

/-- All levels, from the quietest on. -/
def all : List LogLevel := [.error, .warn, .info, .debug, .trace]

/-- The name of a level. -/
def name : LogLevel → String
  | .error => "error"
  | .warn => "warn"
  | .info => "info"
  | .debug => "debug"
  | .trace => "trace"

end LogLevel

/-- The defaults for the generation of scripts. -/
structure GenerationSettings where
  shell : Shell := .bash
  ignoreCase : Bool := false
  /-- The file whose text is put into every script right before the registration. -/
  preamble : Option String := none
  deriving DecidableEq

/-- How the program logs. -/
structure LoggingSettings where
  level : LogLevel := .warn
  timestamps : Bool := false
  deriving DecidableEq

/-- All settings. -/
structure Settings where
  generation : GenerationSettings := {}
  /-- The user's shell functions, by provider. -/
  providers : Table ShellFunctions := Table.empty
  logging : LoggingSettings := {}
  deriving DecidableEq

namespace Settings

/-- Whether the name of a function can be used in a script. -/
def isUsable (function : String) : Bool :=
  !function.isEmpty && function.toList.all (!Text.isBlank ·)

/-- Every function that is bound, with its provider and shell, in order. -/
def functions (settings : Settings) : List (String × Shell × String) :=
  settings.providers.entries.flatMap fun (provider, functions) =>
    Shell.all.filterMap fun shell =>
      (functions.get? shell).map fun function => (provider, shell, function)

/-- The name of the field that holds a function. -/
def fieldName (provider : String) (shell : Shell) : String :=
  "providers." ++ provider ++ "." ++ shell.name

/-- Refuses the first function whose name cannot be used. -/
def check (settings : Settings) : Except SettingsFault Unit :=
  match settings.functions.find? fun (_, _, function) => !isUsable function with
  | some (provider, shell, function) => .error (.invalidValue (fieldName provider shell) function)
  | none => .ok ()

/-- The built-in bindings, overridden and extended by those of the user. -/
def bindings (settings : Settings) : Bindings :=
  settings.functions.foldl
    (fun bindings (provider, shell, function) => Bindings.bind bindings provider shell function)
    Bindings.builtin

/-- How candidates are compared with the word being completed. -/
def matchCase (settings : Settings) : MatchCase :=
  if settings.generation.ignoreCase then .insensitive else .sensitive

end Settings

end CommandCompletion
