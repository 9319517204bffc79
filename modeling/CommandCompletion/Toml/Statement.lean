import CommandCompletion.Files.Path
import CommandCompletion.Toml.Draft
import CommandCompletion.Toml.Scalar
import CommandCompletion.Toml.Token

/-!
# The statements of TOML

A document is a list of statements, one on a line. A statement is a header, which says
what table the assignments after it belong to, or the assignment of a value to a key. A
key is a list of names joined by dots. A value is a scalar, a list or a record; in a list
the lines may end anywhere, in a record anywhere but within a key, and the last comma is
optional. A key has at most eighty names, and at most eighty lists and records may be open
at once.

The tokens of the text are put together by a machine. A list or record that is open is
kept as a frame; what a record holds is assembled by the same rules as a table.
-/

set_option autoImplicit false

namespace CommandCompletion.Toml

/-! ## Keys -/

/-- A key that is being read: its names so far, in reverse, and whether it may end here. -/
structure KeyReading where
  names : List String := []
  complete : Bool := false
  deriving DecidableEq

/-- A character of a name that is written without quotes. -/
def isBareCharacter (c : Char) : Bool :=
  Text.isAlphanumeric c || c == '_' || c == '-'

namespace KeyReading

/-- The number of names that a key may have. -/
def maximalLength : Nat := 80

/-- One more name. -/
def name (reading : KeyReading) (characters : List Char) : Option KeyReading :=
  if reading.complete || maximalLength ≤ reading.names.length then none
  else some ⟨String.ofList characters :: reading.names, true⟩

/-- One more name without quotes, or nothing at all. -/
def bareName (reading : KeyReading) (characters : List Char) : Option KeyReading :=
  if characters.isEmpty then some reading
  else if characters.all isBareCharacter then reading.name characters
  else none

/-- One more dot. -/
def dot (reading : KeyReading) : Option KeyReading :=
  if reading.complete then some { reading with complete := false } else none

/-- The reading after pieces of an atom, a dot standing before each. -/
def pieces (reading : KeyReading) : List (List Char) → Option KeyReading
  | [] => some reading
  | piece :: rest => do
    let dotted ← reading.dot
    let named ← dotted.bareName piece
    named.pieces rest

/-- One more atom: names and dots in any number. -/
def atom (reading : KeyReading) (characters : List Char) : Option KeyReading :=
  match Path.splitFrom '.' [] characters with
  | [] => some reading
  | piece :: rest => do
    let named ← reading.bareName piece
    named.pieces rest

/-- The key, if it may end here. -/
def key? (reading : KeyReading) : Option Key :=
  match reading.complete, reading.names with
  | true, name :: path => some ⟨path.reverse, name⟩
  | _, _ => none

/-- The reading after one more token, unless the token ends the key. -/
def token? (reading : KeyReading) : Token → Option KeyReading
  | .atom characters => reading.atom characters
  | .text value => reading.name value
  | _ => none

end KeyReading

/-! ## The machine -/

/-- A statement. -/
inductive Statement where
  /-- The assignments that follow belong to the table of a key. -/
  | table (key : Key)
  /-- The assignments that follow belong to one more table in the list of a key. -/
  | oneMore (key : Key)
  | assignment (key : Key) (value : Datum)

/-- A list or record that is open. A list holds its items in reverse; a record holds its
members and the key whose value comes next. -/
inductive Frame where
  | list (items : List Datum)
  | record (members : Members) (key : Key)

/-- What may come next in a value. -/
inductive Expected where
  | value
  | itemOrEnd
  | commaOrListEnd
  /-- A key or its rest, or the end of the record if no key has begun. -/
  | key (reading : KeyReading)
  | commaOrRecordEnd

/-- Where in a statement the machine is. -/
inductive Place where
  /-- At the start of a line. -/
  | start
  /-- In the key of an assignment. -/
  | key (reading : KeyReading)
  /-- In the value of an assignment. -/
  | value (key : Key) (frames : List Frame) (expected : Expected)
  /-- Right after the first bracket of a header, where a second one may follow without a
  blank between them. -/
  | bracket
  /-- In the key of a header, of one more table in a list or not. -/
  | header (several : Bool) (reading : KeyReading)
  /-- Right after the first closing bracket of a header of one more table. -/
  | closing (key : Key)
  /-- After a statement, where the line has to end. -/
  | finished
  /-- After a token that makes no sense. -/
  | broken

/-- The state of the machine: the place and the statements so far, in reverse. -/
structure Reading where
  place : Place := .start
  statements : List Statement := []

namespace Reading

/-- The number of lists and records that may be open at once. -/
def maximalDepth : Nat := 80

/-- The state after a statement. -/
def finish (reading : Reading) (statement : Statement) : Reading :=
  { place := .finished, statements := statement :: reading.statements }

/-- The state at a token that makes no sense. -/
def fail (reading : Reading) : Reading :=
  { reading with place := .broken }

/-- A complete value inside the open lists and records. -/
def complete (reading : Reading) (key : Key) (datum : Datum) : List Frame → Reading
  | [] => reading.finish (.assignment key datum)
  | .list items :: rest =>
    { reading with place := .value key (.list (datum :: items) :: rest) .commaOrListEnd }
  | .record members inner :: rest =>
    match Members.assign inner.path inner.name datum members with
    | some extended =>
      { reading with place := .value key (.record extended inner :: rest) .commaOrRecordEnd }
    | none => reading.fail

/-- Opens a list or record, if not too many are open. -/
def enter (reading : Reading) (key : Key) (frames : List Frame) (frame : Frame)
    (expected : Expected) : Reading :=
  if frames.length < maximalDepth then
    { reading with place := .value key (frame :: frames) expected }
  else reading.fail

/-- A token where a value is expected. -/
def stepValue (reading : Reading) (key : Key) (frames : List Frame) : Token → Reading
  | .openList => reading.enter key frames (.list []) .itemOrEnd
  | .openRecord => reading.enter key frames (.record [] key) (.key {})
  | .text value | .paragraph value => reading.complete key (.text (String.ofList value)) frames
  | .atom characters =>
    match Scalar.ofAtom characters with
    | some datum => reading.complete key datum frames
    | none => reading.fail
  | _ => reading.fail

/-- A token in the key of a member of a record, which is the innermost frame. -/
def stepMember (reading : Reading) (key : Key) (members : Members) (rest : List Frame)
    (inner : KeyReading) (token : Token) : Reading :=
  match token, inner.names, inner.key? with
  | .closeRecord, [], _ => reading.complete key (Members.datum members) rest
  | .equals, _, some complete =>
    { reading with place := .value key (.record members complete :: rest) .value }
  | .newLine, _, _ =>
    if inner.names.isEmpty || inner.complete then reading else reading.fail
  | _, _, _ =>
    match inner.token? token with
    | some extended =>
      { reading with place := .value key (.record members key :: rest) (.key extended) }
    | none => reading.fail

/-- A token inside the value of an assignment. -/
def stepInside (reading : Reading) (key : Key) (frames : List Frame) (expected : Expected)
    (token : Token) : Reading :=
  match expected, token, frames with
  | _, .blank, _ => reading
  | .value, .newLine, [] => reading.fail
  | .value, .newLine, _ => reading
  | .value, _, _ => reading.stepValue key frames token
  | .itemOrEnd, .newLine, _ => reading
  | .itemOrEnd, .closeList, .list items :: rest =>
    reading.complete key (.list items.reverse true) rest
  | .itemOrEnd, _, _ => reading.stepValue key frames token
  | .commaOrListEnd, .newLine, _ => reading
  | .commaOrListEnd, .comma, _ => { reading with place := .value key frames .itemOrEnd }
  | .commaOrListEnd, .closeList, .list items :: rest =>
    reading.complete key (.list items.reverse true) rest
  | .key inner, _, .record members _ :: rest => reading.stepMember key members rest inner token
  | .commaOrRecordEnd, .newLine, _ => reading
  | .commaOrRecordEnd, .comma, _ => { reading with place := .value key frames (.key {}) }
  | .commaOrRecordEnd, .closeRecord, .record members _ :: rest =>
    reading.complete key (Members.datum members) rest
  | _, _, _ => reading.fail

/-- A token in the key of a header. -/
def stepHeader (reading : Reading) (several : Bool) (inner : KeyReading) (token : Token) :
    Reading :=
  match token, inner.key? with
  | .blank, _ => reading
  | .closeList, some key =>
    if several then { reading with place := .closing key } else reading.finish (.table key)
  | _, _ =>
    match inner.token? token with
    | some extended => { reading with place := .header several extended }
    | none => reading.fail

/-- The state after one more token. -/
def step (reading : Reading) (token : Token) : Reading :=
  match reading.place, token with
  | .start, .blank | .start, .newLine => reading
  | .start, .openList => { reading with place := .bracket }
  | .start, _ =>
    match KeyReading.token? {} token with
    | some inner => { reading with place := .key inner }
    | none => reading.fail
  | .key _, .blank => reading
  | .key inner, .equals =>
    match inner.key? with
    | some key => { reading with place := .value key [] .value }
    | none => reading.fail
  | .key inner, _ =>
    match inner.token? token with
    | some extended => { reading with place := .key extended }
    | none => reading.fail
  | .value key frames expected, _ => reading.stepInside key frames expected token
  | .bracket, .openList => { reading with place := .header true {} }
  | .bracket, .blank => { reading with place := .header false {} }
  | .bracket, _ => reading.stepHeader false {} token
  | .header several inner, _ => reading.stepHeader several inner token
  | .closing key, .closeList => reading.finish (.oneMore key)
  | .closing _, _ => reading.fail
  | .finished, .blank => reading
  | .finished, .newLine => { reading with place := .start }
  | .finished, _ => reading.fail
  | .broken, _ => reading

/-- The statements of the whole text, which may end between lines or after a statement. -/
def result (reading : Reading) : Option (List Statement) :=
  match reading.place with
  | .start | .finished => some reading.statements.reverse
  | _ => none

end Reading

/-- The statements that tokens make up. -/
def statements (tokens : List Token) : Option (List Statement) :=
  (tokens.foldl Reading.step {}).result

end CommandCompletion.Toml
