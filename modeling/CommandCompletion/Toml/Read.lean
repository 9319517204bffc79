import CommandCompletion.Toml.Statement

/-!
# Reading TOML

The statements of a document are grouped by headers: the assignments before the first
header belong to the root table, those behind a header to its table. The groups are worked
off in order, and the whole document is refused if one of them does not fit. A byte order
mark at the beginning is passed over.
-/

set_option autoImplicit false

namespace CommandCompletion.Toml

/-- A header with the assignments that belong to it. -/
structure Section where
  /-- Whether the header stands for one more table of a list. -/
  several : Bool
  key : Key
  assignments : List (Key × Datum)

/-- The assignments before the first header, and the groups of all headers. -/
def sections : List Statement → List (Key × Datum) × List Section
  | [] => ([], [])
  | .assignment key datum :: rest =>
    let (assignments, later) := sections rest
    ((key, datum) :: assignments, later)
  | .table key :: rest =>
    let (assignments, later) := sections rest
    ([], ⟨false, key, assignments⟩ :: later)
  | .oneMore key :: rest =>
    let (assignments, later) := sections rest
    ([], ⟨true, key, assignments⟩ :: later)

/-- The root table after one more group. -/
def Section.apply (part : Section) (root : Members) : Option Members :=
  root.changeAt
    (if part.several then Members.declareOneMore part.key.name part.assignments
      else Members.declareTable part.key.name part.assignments)
    part.key.path

/-- The root table that statements make up. -/
def assemble (statements : List Statement) : Option Members := do
  let (assignments, parts) := sections statements
  let root ← Members.assignAll assignments []
  parts.foldlM (fun root part => part.apply root) root

/-- A text without the byte order mark at its beginning. -/
def withoutMark : List Char → List Char
  | '\uFEFF' :: rest => rest
  | text => text

/-- What a TOML document says, if it is one. -/
def read (text : List Char) : Option Datum := do
  let found ← statements (tokens (withoutMark text))
  let root ← assemble found
  some root.datum

/-- Decodes a document, the whole of which has to be sound. -/
def decode {α : Type} (decoder : Datum → Except DecodingFault α) (text : List Char) :
    Except DecodingFault α :=
  match read text with
  | some datum => decoder datum
  | none => .error .malformed

end CommandCompletion.Toml
