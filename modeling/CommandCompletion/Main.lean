import CommandCompletion.Program

/-!
# The command line

The program run on the real files: it reads its words, carries out the request and writes
what comes of it. Output goes to the standard output, warnings and failures to the
standard error. The exit code is one for a failure and two for words that make no sense.
-/

set_option autoImplicit false

namespace CommandCompletion.CommandLine

/-- Why the system refused, as far as the program tells it apart. -/
def faultOf : IO.Error → FileFault
  | .noFileOrDirectory _ _ _ => .notFound
  | .inappropriateType _ code _ => if code = 21 then .isADirectory else .notADirectory
  | error => .described (toString error)

/-- An operation at a path, which has to be a path at all. -/
def attempt {α : Type} (path : String) (operation : String → IO α) :
    IO (Except FileFault α) := do
  if path.isEmpty then return .error .notFound
  else if path.toList.contains '\x00' then return .error .unusablePath
  else
    try
      let value ← operation path
      return .ok value
    catch error => return .error (faultOf error)

/-- The entries of a directory. -/
def listDirectory (path : String) : IO (List DirectoryEntry) := do
  let here ← IO.currentDir
  let entries ← (here / path).readDir
  entries.toList.filterMapM fun entry => do
    let isDirectory ← entry.path.isDir
    return DirectoryEntry.ofName? entry.fileName isDirectory

/-- The text of a file, or the reason why its bytes are none. -/
def readText (path : String) : IO (Except FileFault String) := do
  let content ← attempt path fun path => IO.FS.readBinFile path
  return content.bind fun bytes =>
    match String.fromUTF8? bytes with
    | some text => .ok text
    | none => .error .notText

/-- The path of the home directory, as the environment says. -/
def homePath : IO (Option String) :=
  IO.getEnv "HOME"

/-- The path of the directory of settings: the one of the environment if it is absolute, and
otherwise the usual place below the home directory. -/
def settingsPath : IO (Option String) := do
  match ← IO.getEnv "XDG_CONFIG_HOME" with
  | some path => if Path.isAbsolute path then return some path else usual
  | none => usual
where
  /-- The usual place. -/
  usual : IO (Option String) := do
    return (← homePath).map (Path.join · ".config")

instance : FileStore IO where
  pathExists path := do
    let here ← IO.currentDir
    if path.isEmpty then return false else (here / path).pathExists
  read := readText
  list path := attempt path listDirectory
  write path text := attempt path fun path => IO.FS.writeFile path text
  home := homePath
  settingsDirectory := settingsPath

/-- What is printed when words are not acted on. -/
def usageText : UsageFault → String
  | .unknownArgument => "error: unexpected argument"
  | .invalidValue => "error: invalid value"
  | .invalidSubcommand => "error: unrecognized subcommand"
  | .missingArgument => "error: a required argument is missing"
  | .missingSubcommand => "error: a subcommand is required"
  | .conflictingArguments => "error: arguments cannot be used together"
  | .tooManyValues | .wrongNumberOfValues => "error: wrong number of values"
  | .versionAsked => "tabgen " ++ Script.version
  | .helpAsked | .nothingGiven =>
    "Usage: tabgen [OPTIONS] <COMMAND>\n\nCommands: " ++
      String.intercalate ", " (Program.interface.subcommands.map (·.name))

/-- Writes what comes of a request, and gives the exit code. -/
def conclude (report : Program.Report) : IO UInt32 := do
  IO.eprint report.warning
  IO.print (Program.printed report.result)
  match report.result with
  | .ok _ => return 0
  | .error cause =>
    IO.eprintln ("Error: " ++ cause.message)
    return 1

end CommandCompletion.CommandLine

open CommandCompletion CommandCompletion.CommandLine in
/-- Carries out the request that the words make. -/
def main (words : List String) : IO UInt32 := do
  match Request.read words with
  | .ok request => conclude (← Program.run request)
  | .error .helpAsked =>
    IO.println (usageText .helpAsked)
    return 0
  | .error .versionAsked =>
    IO.println (usageText .versionAsked)
    return 0
  | .error fault =>
    IO.eprintln (usageText fault)
    return 2
