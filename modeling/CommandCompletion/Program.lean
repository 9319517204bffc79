import CommandCompletion.Document.Load
import CommandCompletion.Index.Build
import CommandCompletion.Json.Print
import CommandCompletion.Line
import CommandCompletion.Program.Request
import CommandCompletion.Script
import CommandCompletion.Settings.Load

/-!
# The program

A request is carried out on a store of files. First the settings are loaded; settings that
cannot be used are replaced by the defaults, with a warning. Then the task is performed. A
task either fails, and then prints nothing and changes no file, or it prints a text. Only
the generation of a script that goes to a file changes a file, and only that one.
-/

set_option autoImplicit false

namespace CommandCompletion.Program

variable {m : Type → Type} [Monad m] [FileStore m]

/-! ## Settings of a run -/

/-- The settings with the level of logging that a request asks for. -/
def adjust (request : Request) (settings : Settings) : Settings :=
  { settings with
    logging := { settings.logging with level := request.level?.getD settings.logging.level } }

/-- The warning about settings that are not used. -/
def warning (fault : SettingsFault) : String :=
  "Warning: Configuration validation failed: " ++ (Failure.settings fault).message ++
    "\nUsing default configuration instead.\n"

/-- The settings in effect, and a warning or nothing. -/
def settingsFor (request : Request) : ExceptT Failure m (Settings × String) := do
  let loaded ← Settings.load request.settingsPath
  match loaded.check with
  | .ok () => return (adjust request loaded, "")
  | .error fault => return (adjust request {}, warning fault)

/-! ## Tasks -/

/-- The index of the specification in a file. -/
def loadIndex (path : String) : ExceptT Failure m Index := do
  let document ← CommandDocument.load path
  MonadExcept.ofExcept (document.arena.command.index.mapError .specification)

/-- The algorithm in effect. -/
def description (settings : Settings) (ignoreCase : Bool) : Description :=
  .standard (if ignoreCase then .insensitive else settings.matchCase)

/-- The text that is put into a script: that of the file that is asked for, or else that of
the file that the settings name. -/
def loadPreamble (settings : Settings) (path : Option String) :
    ExceptT Failure m (Option String) := do
  match path, settings.generation.preamble with
  | some path, _ =>
    let text ← FileStore.readText path
    return some text
  | none, some path =>
    let home ← FileStore.home
    let text ← FileStore.readText (home.elim path (Path.expandHome · path))
    return some text
  | none, none => return none

/-- The script for the specification in a file. -/
def generate (settings : Settings) (path : String) (shell : Option Shell)
    (program preamble : Option String) (ignoreCase : Bool) : ExceptT Failure m String := do
  let index ← loadIndex path
  let preamble ← loadPreamble settings preamble
  return Script.render index (description settings ignoreCase)
    (shell.getD settings.generation.shell) { program, preamble, bindings := settings.bindings }

/-- The candidates for what is typed, with the specification in a file. The only directory
that may have to be listed is the one that the word being typed names. -/
def candidates (settings : Settings) (path : String) (typed : TypedLine) (ignoreCase : Bool) :
    ExceptT Failure m (List String) := do
  let index ← loadIndex path
  let listing ← FileStore.list (Provider.listedDirectory "." typed.current)
  return typed.complete index (description settings ignoreCase)
    (Registry.builtin (fun _ => listing) ".")

/-- The index of the program's own command line. -/
def index : Except SpecificationFault Index :=
  interface.specification.index

/-- The script for the program itself. -/
def completionScript (settings : Settings) (shell : Shell) : Except Failure String := do
  let index ← index.mapError .specification
  .ok (Script.render index (description settings false) shell { bindings := settings.bindings })

/-- Shows the settings in effect, or checks the file that holds them, or both. -/
def showSettings (settings : Settings) (path : Option String) (showsAll validates : Bool) :
    ExceptT Failure m String := do
  let path ← path.elim Settings.defaultPath pure
  let checked ←
    if !validates then pure ""
    else if ← FileStore.pathExists path then
      let read ← Settings.read path
      MonadExcept.ofExcept (read.check.mapError .settings)
      pure (path ++ ": ok\n")
    else pure (path ++ ": not found, defaults apply\n")
  let shown := if showsAll || !validates then "# " ++ path ++ "\n" ++ settings.text else ""
  return checked ++ shown

/-- What is printed about the version. -/
def versionText : String :=
  "tabgen version " ++ Script.version ++ "\nRust version: 1.91\n"

/-- Lines of text. -/
def lines (texts : List String) : String :=
  String.join (texts.map (· ++ "\n"))

/-- Performs the task of a request and gives what is printed. -/
def perform (settings : Settings) (request : Request) : ExceptT Failure m String := do
  match request.task with
  | .generate path shell program preamble ignoreCase output =>
    let script ← generate settings path shell program preamble ignoreCase
    match output with
    | some path =>
      FileStore.writeText path script
      return ""
    | none => return script
  | .complete path line ignoreCase words =>
    let found ← candidates settings path
      (line.elim (TypedLine.ofWords words) TypedLine.ofWholeLine) ignoreCase
    return lines found
  | .inspect path =>
    let index ← loadIndex path
    return (Json.Value.ofIndex index).print ++ "\n"
  | .completion shell => MonadExcept.ofExcept (completionScript settings shell)
  | .config showsAll validates => showSettings settings request.settingsPath showsAll validates
  | .version => return versionText

/-! ## Runs -/

/-- What comes of a request. -/
structure Report where
  /-- The settings in effect, if they could be loaded. -/
  settings : Option Settings := none
  warning : String := ""
  /-- What is printed, or why the request failed. -/
  result : Except Failure String

/-- What the outcome of a task puts on the standard output: a text, and nothing if it failed. -/
def printed : Except Failure String → String
  | .ok text => text
  | .error _ => ""

/-- Carries out a request. -/
def run (request : Request) : m Report := do
  match ← (settingsFor request).run with
  | .error cause => return { result := .error cause }
  | .ok (settings, warning) =>
    let result ← (perform settings request).run
    return { settings := some settings, warning, result }

end CommandCompletion.Program
