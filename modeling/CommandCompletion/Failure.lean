/-!
# What can go wrong

Every failure of the program is one of five kinds: a command specification that cannot
be compiled, a settings file that cannot be used, a document that cannot be read, a file
operation that the system refuses, and a failure told in free words. Each kind lists its
causes, and the wording of every cause is fixed in one function `message`.

A specification is refused as a whole, at the first defect found, so a cause names the
node and the word at fault. Nodes are named by their key: the program's name followed by
the names of the subcommands on the way, joined by underscores.
-/

set_option autoImplicit false

namespace CommandCompletion

/-! ## Specifications -/

/-- Why a command specification cannot be compiled. -/
inductive SpecificationFault where
  /-- Two subcommands of one node have the same name. -/
  | duplicateSubcommand (node name : String)
  /-- One flag is declared twice at a node with different slot data. -/
  | conflictingOption (node flag : String)
  /-- Two nodes have the same key. -/
  | duplicateNode (node : String)
  /-- A name, flag, choice or provider that a script cannot hold. -/
  | invalidName (node name : String)
  /-- A text that is no arity. -/
  | invalidArity (text : String)
  deriving DecidableEq

/-- The wording of a specification fault. -/
def SpecificationFault.message : SpecificationFault → String
  | .duplicateSubcommand node name => "duplicate subcommand '" ++ name ++ "' under '" ++ node ++ "'"
  | .conflictingOption node flag =>
    "conflicting declarations of option '" ++ flag ++ "' under '" ++ node ++ "'"
  | .duplicateNode node => "two subcommand paths share the prefix '" ++ node ++ "'"
  | .invalidName node name => "invalid name '" ++ name ++ "' under '" ++ node ++ "'"
  | .invalidArity text =>
    "invalid arity '" ++ text ++ "' (expected a count, '?', '*', '+' or '...')"

/-! ## Documents -/

/-- Why a text does not decode into the structure it should hold. -/
inductive DecodingFault where
  /-- The text is malformed, or a value has the wrong kind, length or range. -/
  | malformed
  /-- A field that must be there is not. -/
  | missingField (name : String)
  /-- A field that must not be there is. -/
  | unknownField (name : String) (expected : List String)
  /-- A field is given twice. -/
  | duplicateField (name : String)
  /-- A name that is none of the alternatives. -/
  | unknownVariant (name : String) (expected : List String)
  /-- A text that is no arity. -/
  | invalidArity (text : String)
  /-- A fault told in free words. -/
  | described (text : String)
  deriving DecidableEq

/-- Names between backquotes, separated by commas. -/
def quotedNames (names : List String) : String :=
  String.intercalate ", " (names.map fun name => "`" ++ name ++ "`")

/-- The wording of a decoding fault. -/
def DecodingFault.message : DecodingFault → String
  | .malformed => "the text is malformed, or a value in it has the wrong kind"
  | .missingField name => "missing field `" ++ name ++ "`"
  | .unknownField name expected =>
    "unknown field `" ++ name ++ "`, expected one of " ++ quotedNames expected
  | .duplicateField name => "duplicate field `" ++ name ++ "`"
  | .unknownVariant name expected =>
    "unknown variant `" ++ name ++ "`, expected one of " ++ quotedNames expected
  | .invalidArity text => (SpecificationFault.invalidArity text).message
  | .described text => text

/-- The two formats of a specification document. -/
inductive DocumentFormat where
  | toml
  | json
  deriving DecidableEq

/-- The name of a format. -/
def DocumentFormat.name : DocumentFormat → String
  | .toml => "TOML"
  | .json => "JSON"

/-! ## Settings -/

/-- Why a settings file cannot be used. -/
inductive SettingsFault where
  /-- The file that was asked for does not exist. -/
  | fileNotFound (path : String)
  /-- The file does not hold settings. -/
  | invalidFormat (cause : DecodingFault)
  /-- A field holds a value that cannot be used. -/
  | invalidValue (field value : String)
  deriving DecidableEq

/-- The wording of a settings fault. -/
def SettingsFault.message : SettingsFault → String
  | .fileNotFound path => "Config file not found: " ++ path
  | .invalidFormat cause => "Invalid config format: " ++ cause.message
  | .invalidValue field value => "Invalid value '" ++ value ++ "' for field '" ++ field ++ "'"

/-! ## Files -/

/-- Why the system refuses a file operation. -/
inductive FileFault where
  /-- Nothing stands at the path. -/
  | notFound
  /-- A part of the path that should be a directory is not. -/
  | notADirectory
  /-- The path names a directory where a file is wanted. -/
  | isADirectory
  /-- The file's bytes are not text. -/
  | notText
  /-- The path holds a character that no path can hold. -/
  | unusablePath
  /-- A refusal told in free words. -/
  | described (text : String)
  deriving DecidableEq

/-- The wording of a file fault. -/
def FileFault.message : FileFault → String
  | .notFound => "No such file or directory (os error 2)"
  | .notADirectory => "Not a directory (os error 20)"
  | .isADirectory => "Is a directory (os error 21)"
  | .notText => "stream did not contain valid UTF-8"
  | .unusablePath => "file name contained an unexpected NUL byte"
  | .described text => text

/-! ## All failures -/

/-- Any failure of the program. -/
inductive Failure where
  | specification (fault : SpecificationFault)
  | settings (fault : SettingsFault)
  | document (format : DocumentFormat) (fault : DecodingFault)
  | file (fault : FileFault)
  | general (text : String)
  deriving DecidableEq

/-- The wording of a failure. -/
def Failure.message : Failure → String
  | .specification fault => "Specification error: " ++ fault.message
  | .settings fault => "Configuration error: " ++ fault.message
  | .document format fault =>
    "Document error: invalid " ++ format.name ++ " specification: " ++ fault.message
  | .file fault => "I/O error: " ++ fault.message
  | .general text => text

end CommandCompletion
