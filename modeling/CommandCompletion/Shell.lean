import CommandCompletion.Failure
import CommandCompletion.Provider
import CommandCompletion.Table
import CommandCompletion.Text.Lowercase

/-!
# Shells, and the functions that stand for providers in them

Scripts are written for three shells. In a script a provider is a shell function: the
bindings say for each provider and shell which function that is. A provider without a
function in a shell is left out of the scripts for it, so its slots offer their choices
only. Every script brings the functions of the two built-in providers along.
-/

set_option autoImplicit false

namespace CommandCompletion

/-- A shell that scripts are written for. -/
inductive Shell where
  | bash
  | zsh
  | fish
  deriving DecidableEq, Inhabited

namespace Shell

/-- All shells, in order. -/
def all : List Shell := [.bash, .zsh, .fish]

/-- The name of a shell. -/
def name : Shell → String
  | .bash => "bash"
  | .zsh => "zsh"
  | .fish => "fish"

/-- The shell with exactly this name. -/
def ofName? (text : String) : Option Shell :=
  all.find? (·.name == text)

/-- Reads the name of a shell, upper and lower case alike. -/
def ofText (text : String) : Except Failure Shell :=
  match ofName? (String.ofList (Text.lowercase text.toList)) with
  | some shell => .ok shell
  | none =>
    .error (.general ("Unsupported shell: " ++ text ++ ". Supported shells: bash, zsh, fish"))

end Shell

/-! ## Bindings -/

/-- The functions of one provider, by shell. -/
structure ShellFunctions where
  bash : Option String := none
  zsh : Option String := none
  fish : Option String := none
  deriving DecidableEq, Inhabited

namespace ShellFunctions

/-- The function in a shell. -/
def get? (functions : ShellFunctions) : Shell → Option String
  | .bash => functions.bash
  | .zsh => functions.zsh
  | .fish => functions.fish

/-- The functions with another function in one shell. -/
def set (functions : ShellFunctions) (shell : Shell) (function : String) : ShellFunctions :=
  match shell with
  | .bash => { functions with bash := some function }
  | .zsh => { functions with zsh := some function }
  | .fish => { functions with fish := some function }

end ShellFunctions

/-- The shell functions of providers, by name of the provider. -/
abbrev Bindings := Table ShellFunctions

namespace Bindings

/-- Lets a function stand for a provider in a shell. -/
def bind (bindings : Bindings) (provider : String) (shell : Shell) (function : String) :
    Bindings :=
  bindings.update provider {} (·.set shell function)

/-- The function that stands for a provider in a shell. -/
def resolve (bindings : Bindings) (provider : String) (shell : Shell) : Option String :=
  (bindings.get? provider).bind (·.get? shell)

/-- The function that lists paths, which every script defines. -/
def filesFunction : String := "__tabgen_files"

/-- The function that lists directories, which every script defines. -/
def directoriesFunction : String := "__tabgen_dirs"

/-- The bindings of the built-in providers. -/
def builtin : Bindings :=
  Shell.all.foldl
    (fun bindings shell =>
      (bind bindings fileCompleter shell filesFunction).bind directoryCompleter shell
        directoriesFunction)
    Table.empty

end Bindings

end CommandCompletion
