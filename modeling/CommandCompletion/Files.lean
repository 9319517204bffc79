import CommandCompletion.Failure
import CommandCompletion.Files.Path

/-!
# Trees of files

A file tree says what stands at every place: a file with its bytes, or a directory. A
place is the list of names that lead to it from the root, and the root is always a
directory. A path is followed name by name, and every name but the last has to lead to a
directory.

The operations answer as a system does: they return what was asked for, or the reason of
the refusal. Writing replaces one file and leaves every other place as it was.

The program itself works with any store of files that offers these operations
(`FileStore`), so that it can be run on the real files and reasoned about on a tree.
-/

set_option autoImplicit false

namespace CommandCompletion

/-- What stands at a place. -/
inductive FileEntry where
  | file (content : ByteArray)
  | directory

/-- Whether a directory stands at the place. -/
def FileEntry.isDirectory : FileEntry → Bool
  | .file _ => false
  | .directory => true

/-- A name in a directory, and whether it names a directory itself. Systems keep names in bytes,
which need not be those of a text; no name is empty. -/
structure DirectoryEntry where
  bytes : ByteArray
  isDirectory : Bool
  named : 0 < bytes.size

namespace DirectoryEntry

/-- The name, if it is a text. -/
def name? (entry : DirectoryEntry) : Option String :=
  String.fromUTF8? entry.bytes

/-- The entry that has a text as its name, unless the text is empty. -/
def ofName? (name : String) (isDirectory : Bool) : Option DirectoryEntry :=
  if named : 0 < name.toUTF8.size then some { bytes := name.toUTF8, isDirectory, named } else none

end DirectoryEntry

/-- Files and directories by place, the place from which relative paths start, and the
path of the home directory. -/
structure FileTree where
  entries : List (List String × FileEntry)
  working : List String
  home : String

namespace FileTree

/-- What stands at a place; the root is a directory. -/
def entryAt (tree : FileTree) (place : List String) : Option FileEntry :=
  if place.isEmpty then some .directory else tree.entries.lookup place

/-- The place one name further on, if the place reached is a directory. -/
def enter (tree : FileTree) (place : List String) (name : String) :
    Except FileFault (List String) :=
  match tree.entryAt place with
  | none => .error .notFound
  | some (.file _) => .error .notADirectory
  | some .directory =>
    if name = "" ∨ name = "." then .ok place
    else if name = ".." then .ok place.dropLast
    else .ok (place ++ [name])

/-- The place that a list of names leads to. -/
def follow (tree : FileTree) (place : List String) : List String → Except FileFault (List String)
  | [] => .ok place
  | name :: rest => do
    let further ← tree.enter place name
    follow tree further rest

/-- The place that a path leads to. Something need not stand there. -/
def locate (tree : FileTree) (path : String) : Except FileFault (List String) :=
  if path.isEmpty then .error .notFound
  else if path.toList.contains '\x00' then .error .unusablePath
  else tree.follow (if Path.isAbsolute path then [] else tree.working) (Path.names path)

/-- Whether something stands at a path. -/
def pathExists (tree : FileTree) (path : String) : Bool :=
  match tree.locate path with
  | .ok place => (tree.entryAt place).isSome
  | .error _ => false

/-- The text of a file. -/
def read (tree : FileTree) (path : String) : Except FileFault String := do
  let place ← tree.locate path
  match tree.entryAt place with
  | none => .error .notFound
  | some .directory => .error .isADirectory
  | some (.file content) =>
    match String.fromUTF8? content with
    | some text => .ok text
    | none => .error .notText

/-- The entry of a directory that a place gives, if the place is right below it. -/
def childOf (directory : List String) (entry : List String × FileEntry) : Option DirectoryEntry :=
  match entry.1.getLast? with
  | some name =>
    if entry.1.dropLast = directory then DirectoryEntry.ofName? name entry.2.isDirectory else none
  | none => none

/-- The entries of a directory. -/
def list (tree : FileTree) (path : String) : Except FileFault (List DirectoryEntry) := do
  let place ← tree.locate path
  match tree.entryAt place with
  | none => .error .notFound
  | some (.file _) => .error .notADirectory
  | some .directory => .ok (tree.entries.filterMap (childOf place))

/-- A list of entries with another entry at a place. -/
def setEntry (place : List String) (entry : FileEntry) :
    List (List String × FileEntry) → List (List String × FileEntry)
  | [] => [(place, entry)]
  | first :: rest =>
    if first.1 = place then (place, entry) :: rest else first :: setEntry place entry rest

/-- The tree after a text was written to a file, which need not have been there. -/
def write (tree : FileTree) (path text : String) : Except FileFault FileTree := do
  let bare := String.ofList (path.toList.reverse.dropWhile (· == '/')).reverse
  let place ← tree.locate (if bare.isEmpty then path else bare)
  if Path.endsInSlash path then .error .isADirectory
  else
    match tree.entryAt place with
    | some .directory => .error .isADirectory
    | _ => .ok { tree with entries := setEntry place (.file text.toUTF8) tree.entries }

end FileTree

/-! ## Stores of files -/

/-- The file operations that the program needs. -/
class FileStore (m : Type → Type) where
  pathExists : String → m Bool
  read : String → m (Except FileFault String)
  list : String → m (Except FileFault (List DirectoryEntry))
  write : String → String → m (Except FileFault Unit)
  /-- The path of the home directory, if there is one. -/
  home : m (Option String)
  /-- The path of the directory in which programs keep their settings, if there is one. -/
  settingsDirectory : m (Option String)

/-- A computation that reads and changes a file tree is a store of files. -/
instance : FileStore (StateM FileTree) where
  pathExists path := do return (← get).pathExists path
  read path := do return (← get).read path
  list path := do return (← get).list path
  write path text := do
    match (← get).write path text with
    | .ok changed => set changed; return .ok ()
    | .error fault => return .error fault
  home := do return some (← get).home
  settingsDirectory := do return some (Path.join (← get).home ".config")

variable {m : Type → Type} [Monad m] [FileStore m]

/-- A computation that may fail works with the files of the one it is built on. -/
instance {ε : Type} : FileStore (ExceptT ε m) where
  pathExists path := ExceptT.lift (FileStore.pathExists path)
  read path := ExceptT.lift (FileStore.read path)
  list path := ExceptT.lift (FileStore.list path)
  write path text := ExceptT.lift (FileStore.write path text)
  home := ExceptT.lift FileStore.home
  settingsDirectory := ExceptT.lift FileStore.settingsDirectory

namespace FileStore

/-- The text of a file, or the failure of the program. -/
def readText (path : String) : ExceptT Failure m String :=
  ExceptT.mk do return (← FileStore.read path).mapError .file

/-- Writes a text to a file, or fails the program. -/
def writeText (path text : String) : ExceptT Failure m Unit :=
  ExceptT.mk do return (← FileStore.write path text).mapError .file

end FileStore

end CommandCompletion
