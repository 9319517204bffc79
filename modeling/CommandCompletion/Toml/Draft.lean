import CommandCompletion.Data
import CommandCompletion.Table

/-!
# Tables that grow by statements

The value of a TOML document is put together from statements in any order. Until the last
one a table is a draft: besides its members it remembers where it comes from, as that
decides which statements may still add to it. A table that has a header of its own gets
no second one and nothing by keys with dots; a table that came about through a key with
dots gets no header; a table that a header only passed through may get one header. A
value that is written out as a list or record gets nothing more.

The path of a header leads through lists of tables by their last table. The members of a
table are kept in increasing order of their names, which is also the order in which they
are examined later.
-/

set_option autoImplicit false

namespace CommandCompletion.Toml

/-- A key: the names that lead to a table, and the name of a member of it. -/
structure Key where
  path : List String
  name : String
  deriving DecidableEq

/-- Where a table comes from. -/
inductive Origin where
  /-- A header on the way to another table passed through it. -/
  | passed
  /-- A key with dots led through it. -/
  | dotted
  /-- It has a header of its own. -/
  | declared
  deriving DecidableEq

/-- A value that may still grow. -/
inductive Draft where
  /-- A value that is written out. -/
  | value (datum : Datum)
  | table (origin : Origin) (members : List (String × Draft))
  /-- A list of tables, the last one and those before it, the latest first. -/
  | tables (last : List (String × Draft)) (before : List (List (String × Draft)))

/-- The members of a table by name, in increasing order. -/
abbrev Members := List (String × Draft)

/-! ## What a draft says -/

mutual
/-- What a draft says. -/
def Draft.datum : Draft → Datum
  | .value datum => datum
  | .table _ members => .record (membersData members) true
  | .tables last before => .list (tablesData before [.record (membersData last) true]) true

/-- What the members of a table say. -/
def membersData : List (String × Draft) → List (String × Datum)
  | [] => []
  | (name, draft) :: rest => (name, draft.datum) :: membersData rest

/-- What tables say, the latest first, in front of what the later ones say. -/
def tablesData : List (List (String × Draft)) → List Datum → List Datum
  | [], later => later
  | members :: before, later => tablesData before (.record (membersData members) true :: later)
end

namespace Members

/-- What a table says. -/
def datum (members : Members) : Datum :=
  .record (membersData members) true

/-! ## Assignments -/

/-- Assigns a value to a name that is still free, in the table that a path leads to. Every
table on the path is new or was led to by keys with dots before; a table that a header
passed through may stand on the path, but not at its end. -/
def assign (path : List String) (name : String) (datum : Datum) (members : Members) :
    Option Members :=
  match path with
  | [] =>
    match members.lookup name with
    | none => some (Table.insertEntry name (.value datum) members)
    | some _ => none
  | first :: rest =>
    match members.lookup first with
    | none =>
      (assign rest name datum []).map fun inner =>
        Table.insertEntry first (.table .dotted inner) members
    | some (.table origin inner) =>
      if origin = .declared ∨ (rest = [] ∧ origin ≠ .dotted) then none
      else (assign rest name datum inner).map fun inner =>
        Table.insertEntry first (.table origin inner) members
    | some (.tables last before) =>
      if rest = [] then none
      else (assign rest name datum last).map fun last =>
        Table.insertEntry first (.tables last before) members
    | some (.value _) => none

/-- Makes a list of assignments, one after the other. -/
def assignAll (assignments : List (Key × Datum)) (members : Members) : Option Members :=
  assignments.foldlM (fun members (key, datum) => members.assign key.path key.name datum) members

/-! ## Headers -/

/-- Changes the table that the path of a header leads to, which is made if it is missing. -/
def changeAt (change : Members → Option Members) (path : List String) (members : Members) :
    Option Members :=
  match path with
  | [] => change members
  | first :: rest =>
    match members.lookup first with
    | none =>
      (changeAt change rest []).map fun inner =>
        Table.insertEntry first (.table .passed inner) members
    | some (.table origin inner) =>
      (changeAt change rest inner).map fun inner =>
        Table.insertEntry first (.table origin inner) members
    | some (.tables last before) =>
      (changeAt change rest last).map fun last =>
        Table.insertEntry first (.tables last before) members
    | some (.value _) => none

/-- Makes assignments in the table of a name, which gets its header by this. -/
def declareTable (name : String) (assignments : List (Key × Datum)) (members : Members) :
    Option Members :=
  let finish := fun inner : Members =>
    (inner.assignAll assignments).map fun inner =>
      Table.insertEntry name (.table .declared inner) members
  match members.lookup name with
  | none => finish []
  | some (.table .passed inner) => finish inner
  | some _ => none

/-- Makes assignments in one more table of the list of a name. -/
def declareOneMore (name : String) (assignments : List (Key × Datum)) (members : Members) :
    Option Members :=
  let finish := fun before : List Members =>
    (assignAll assignments []).map fun last =>
      Table.insertEntry name (.tables last before) members
  match members.lookup name with
  | none => finish []
  | some (.tables last before) => finish (last :: before)
  | some _ => none

end Members

end CommandCompletion.Toml
