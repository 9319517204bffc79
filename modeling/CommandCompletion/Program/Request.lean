import CommandCompletion.Interface.Reading
import CommandCompletion.Script.Emitter
import CommandCompletion.Settings

/-!
# What the program is asked to do

The program declares its own command line like any other (`Program.interface`), so that it
can be completed like any other. What is read from its words is a request: one task, and
the options that every task has.
-/

set_option autoImplicit false

namespace CommandCompletion

namespace Program

/-! ## The declaration -/

/-- The file of a specification, which every task about one needs. -/
def specificationArgument : Argument :=
  { name := "spec", kind := some .path, hint := some .filePath, isRequired := true }

/-- The flag that ignores case. -/
def ignoreCaseArgument : Argument :=
  { name := "ignore_case", long := some "ignore-case", short := some 'i', action := .setTrue }

/-- The names of the shells. -/
def shellKind : ValueKind :=
  .choice (Shell.all.map fun shell => { name := shell.name })

/-- The arguments that every task has. -/
def globalArguments : List Argument :=
  [{ name := "config_file", long := some "config", short := some 'c', kind := some .path,
     hint := some .filePath, isGlobal := true },
   { name := "quiet", long := some "quiet", short := some 'q', action := .setTrue,
     isGlobal := true },
   { name := "verbose", long := some "verbose", short := some 'v', action := .setTrue,
     isGlobal := true },
   { name := "very_verbose", long := some "vv", action := .setTrue, isGlobal := true }]

/-- Writes a script. -/
def generateInterface : Interface :=
  { name := "generate"
    arguments :=
      [specificationArgument,
       { name := "shell", long := some "shell", short := some 's', kind := some shellKind },
       { name := "prog", long := some "prog" },
       { name := "preamble", long := some "preamble", kind := some .path, hint := some .filePath },
       ignoreCaseArgument,
       { name := "output", long := some "output", short := some 'o', kind := some .path,
         hint := some .filePath }] }

/-- Lists candidates. -/
def completeInterface : Interface :=
  { name := "complete"
    arguments :=
      [specificationArgument,
       { name := "line", long := some "line", conflicts := ["words"] },
       ignoreCaseArgument,
       { name := "words", action := .append, counts := some ⟨1, none⟩, isLast := true }] }

/-- Prints an index. -/
def inspectInterface : Interface :=
  { name := "inspect", arguments := [specificationArgument] }

/-- Writes a script for the program itself. -/
def completionInterface : Interface :=
  { name := "completion"
    arguments := [{ name := "shell", kind := some shellKind, isRequired := true }] }

/-- Shows settings. -/
def configInterface : Interface :=
  { name := "config"
    arguments :=
      [{ name := "show", long := some "show", action := .setTrue },
       { name := "validate", long := some "validate", action := .setTrue }] }

/-- Shows the version. -/
def versionInterface : Interface :=
  { name := "version" }

/-- The command line of the program. -/
def interface : Interface :=
  { name := "tabgen"
    version := some Script.version
    arguments := globalArguments
    subcommands :=
      [generateInterface, completeInterface, inspectInterface, completionInterface,
       configInterface, versionInterface]
    needsSubcommand := true }

end Program

/-! ## Requests -/

/-- What the program is to do. -/
inductive Task where
  /-- Write the script for a specification. -/
  | generate (specification : String) (shell : Option Shell) (program preamble : Option String)
      (ignoreCase : Bool) (output : Option String)
  /-- List the candidates for a command line, or for words of which the last is completed. -/
  | complete (specification : String) (line : Option String) (ignoreCase : Bool)
      (words : List String)
  /-- Print the index of a specification. -/
  | inspect (specification : String)
  /-- Write the script for the program itself. -/
  | completion (shell : Shell)
  /-- Show the settings or check the file that holds them. -/
  | config (showsAll validates : Bool)
  | version
  deriving DecidableEq

/-- A task and the options that every task has. -/
structure Request where
  /-- The file with the settings, if it is not the default one. -/
  settingsPath : Option String := none
  quiet : Bool := false
  verbose : Bool := false
  veryVerbose : Bool := false
  task : Task
  deriving DecidableEq

namespace Request

/-- The level of logging that is asked for. -/
def level? (request : Request) : Option LogLevel :=
  if request.veryVerbose then some .trace
  else if request.verbose then some .debug
  else if request.quiet then some .error
  else none

/-- The first value of an argument. -/
def value? (given : GivenArguments) (name : String) : Option String :=
  (given.values.lookup name).bind (·.head?)

/-- Whether an argument is given. -/
def has (given : GivenArguments) (name : String) : Bool :=
  (given.values.lookup name).isSome

/-- The value of an argument that has to be given. -/
def required (given : GivenArguments) (name : String) : Except UsageFault String :=
  match value? given name with
  | some value => .ok value
  | none => .error .missingArgument

/-- The task of a subcommand. -/
def taskOf (given : GivenArguments) : Except UsageFault Task :=
  match given.command with
  | "generate" => do
    let specification ← required given "spec"
    .ok (.generate specification ((value? given "shell").bind Shell.ofName?) (value? given "prog")
      (value? given "preamble") (has given "ignore_case") (value? given "output"))
  | "complete" => do
    let specification ← required given "spec"
    .ok (.complete specification (value? given "line") (has given "ignore_case")
      ((given.values.lookup "words").getD []))
  | "inspect" => do
    let specification ← required given "spec"
    .ok (.inspect specification)
  | "completion" => do
    let name ← required given "shell"
    match Shell.ofName? name with
    | some shell => .ok (.completion shell)
    | none => .error .invalidValue
  | "config" => .ok (.config (has given "show") (has given "validate"))
  | "version" => .ok .version
  | _ => .error .missingSubcommand

/-- The request that is made by the program's own arguments and those of a subcommand. An
argument that both may have counts as given to the subcommand. -/
def ofGiven (own sub : GivenArguments) : Except UsageFault Request := do
  let task ← taskOf sub
  let anywhere := fun name => has own name || has sub name
  .ok { settingsPath := value? sub "config_file" <|> value? own "config_file"
        quiet := anywhere "quiet"
        verbose := anywhere "verbose"
        veryVerbose := anywhere "very_verbose"
        task }

/-- Reads the words behind the program's name. -/
def read (words : List String) : Except UsageFault Request := do
  match ← Program.interface.read words with
  | [own, sub] => ofGiven own sub
  | _ => .error .missingSubcommand

end Request

end CommandCompletion
