import CommandCompletion.Files
import CommandCompletion.Table
import CommandCompletion.Text.Blank
import CommandCompletion.Text.Escaped

/-!
# Providers

A provider is a named source of candidates that is asked while a word is completed. It
gets the word and answers with a list, which may hold more than what fits the word, or
refuses. A registry maps names to providers; asking an unknown name or a provider that
refuses gives nothing.

Two providers are built in, for paths and for directories. They list the directory that
the word names up to its last slash and keep that part in front of every answer. What
follows the last slash only decides whether hidden names, those that begin with a dot,
are listed instead of the others. Entries whose names are no texts are passed over.
-/

set_option autoImplicit false

namespace CommandCompletion

/-- A source of candidates for a word. -/
abbrev Provider := String → Except FileFault (List String)

/-- The name of the provider of paths. -/
def fileCompleter : String := "file-completer"

/-- The name of the provider of directories. -/
def directoryCompleter : String := "directory-completer"

/-- How a store of files answers when a directory is listed. -/
abbrev Lister := String → Except FileFault (List DirectoryEntry)

namespace Provider

/-- A provider that always gives the same list. -/
def ofList (values : List String) : Provider :=
  fun _ => .ok values

/-- The directory to list for a word, words without a slash belonging to the base. -/
def listedDirectory (base word : String) : String :=
  let directory := (Path.splitLast word).1
  if directory.isEmpty then base else Path.join base directory

/-- Whether an entry is as hidden as the part of a word after its last slash. -/
def hiddenLike (name entry : String) : Bool :=
  Text.startsWith entry "." == Text.startsWith name "."

/-- The path that an entry of the listed directory stands for, if its name is a text and it is
offered for a word that consists of a directory and a name. -/
def path? (directoriesOnly : Bool) (directory name : String) (entry : DirectoryEntry) :
    Option String :=
  entry.name?.bind fun own =>
    if hiddenLike name own && (!directoriesOnly || entry.isDirectory) then some (directory ++ own)
    else none

/-- The provider of paths, or of directories only, relative to a base. -/
def paths (list : Lister) (base : String) (directoriesOnly : Bool) : Provider := fun word => do
  let (directory, name) := Path.splitLast word
  let entries ← list (listedDirectory base word)
  .ok ((entries.filterMap (path? directoriesOnly directory name)).mergeSort
    (fun first second => first ≤ second))

end Provider

/-- Providers by name. -/
abbrev Registry := Table Provider

namespace Registry

/-- The two built-in providers, relative to a base. -/
def builtin (list : Lister) (base : String) : Registry :=
  (Table.empty.insert fileCompleter (Provider.paths list base false)).insert directoryCompleter
    (Provider.paths list base true)

/-- What a provider gives for a word; nothing if it is unknown or refuses. -/
def invoke (registry : Registry) (name word : String) : List String :=
  match registry.get? name with
  | none => []
  | some provider =>
    match provider word with
    | .ok values => values
    | .error _ => []

/-- A line that lists the names of the providers. -/
def describe (registry : Registry) : String :=
  "ProviderRegistry \x7b providers: [" ++
    String.intercalate ", " (registry.keys.map Text.listedForm) ++ "] \x7d"

end Registry

end CommandCompletion
