/-!
# Paths

A path is a text cut into names by slashes. It is absolute when it begins with a slash.
Empty names and the name of one dot stay where they are, the name of two dots goes up.
Only the system knows what stands at a path; this module only cuts and joins the text.
-/

set_option autoImplicit false

namespace CommandCompletion.Path

/-- The pieces of a text between separators, the characters of the open piece being held
in reverse. -/
def splitFrom (separator : Char) (piece : List Char) : List Char → List (List Char)
  | [] => [piece.reverse]
  | c :: rest =>
    if c = separator then piece.reverse :: splitFrom separator [] rest
    else splitFrom separator (c :: piece) rest

/-- The names of a path in order, empty ones included. -/
def names (path : String) : List String :=
  (splitFrom '/' [] path.toList).map String.ofList

/-- Whether a path starts from the root of the file tree. -/
def isAbsolute (path : String) : Bool :=
  path.toList.head? == some '/'

/-- Whether a path ends in a slash, which only a directory may. -/
def endsInSlash (path : String) : Bool :=
  path.toList.getLast? == some '/'

/-- A path followed by another: the second alone if it is absolute, and otherwise the two
with one slash between them. -/
def join (first second : String) : String :=
  if isAbsolute second then second
  else if first.isEmpty || endsInSlash first then first ++ second
  else first ++ "/" ++ second

/-- The part of a word up to its last slash, and the rest. -/
def splitLast (word : String) : String × String :=
  let name := (word.toList.reverse.takeWhile (· != '/')).reverse
  (String.ofList (word.toList.take (word.toList.length - name.length)), String.ofList name)

/-- The names that count: neither empty nor a single dot. -/
def significantNames (path : String) : List String :=
  (names path).filter fun name => name != "" && name != "."

/-- The last name, unless the path goes up last. -/
def fileName (path : String) : Option String :=
  (significantNames path).getLast?.filter (· != "..")

/-- What follows the last dot of the last name, if something stands before that dot. -/
def extension (path : String) : Option String :=
  (fileName path).bind fun name =>
    let ending := name.toList.reverse.takeWhile (· != '.')
    if ending.length + 1 < name.toList.length then some (String.ofList ending.reverse) else none

/-- The path below a home directory that a path beginning with a tilde stands for, and any
other path as it is. -/
def expandHome (home path : String) : String :=
  match names path with
  | "~" :: rest =>
    let skipped := rest.dropWhile fun name => name == "" || name == "."
    let kept := (skipped.reverse.dropWhile fun name => name == "" || name == ".").reverse
    join home (String.intercalate "/" kept)
  | _ => path

end CommandCompletion.Path
