import CommandCompletion.Data
import CommandCompletion.Json.Token

/-!
# Reading JSON

The tokens of a text are put together by a machine that keeps the lists and records that
are open. Where a token does not fit, or the tokens end too early, the machine stops: what
is open is left unclosed, and a member whose value is missing gets an unreadable value.

At most 127 lists and records may be open at once.
-/

set_option autoImplicit false

namespace CommandCompletion.Json

/-- A list or record that is open, what it holds so far being held in reverse. The name is
that of the member whose value comes next. -/
inductive Frame where
  | list (items : List Datum)
  | record (members : List (String × Datum)) (name : String)

/-- What may come next. -/
inductive Expected where
  | value
  | itemOrEnd
  | nameOrEnd
  | name
  | colon
  | separatorOrEnd
  /-- Nothing more: the value is complete. -/
  | nothing
  deriving DecidableEq

/-- The state of the machine: the open lists and records from the inside out, or the value
that was read and whether the text is sound. -/
inductive Building where
  | inside (frames : List Frame) (expected : Expected)
  | finished (datum : Datum)
  | broken (datum : Datum)

namespace Building

/-- The number of lists and records that may be open at once. -/
def maximalDepth : Nat := 127

/-- A complete value inside the open lists and records. -/
def place (datum : Datum) : List Frame → Building
  | [] => .finished datum
  | .list items :: rest => .inside (.list (datum :: items) :: rest) .separatorOrEnd
  | .record members name :: rest =>
    .inside (.record ((name, datum) :: members) name :: rest) .separatorOrEnd

/-- The value of everything that is open when the text breaks off. The innermost value is
missing altogether or unreadable. -/
def abandon (innermost : Option Datum) : List Frame → Datum
  | [] => innermost.getD .unreadable
  | .list items :: rest =>
    abandon (some (.list (innermost.toList ++ items).reverse false)) rest
  | .record members name :: rest =>
    abandon
      (some (.record ((innermost.toList.map (name, ·)) ++ members).reverse false)) rest

/-- What was read when the text breaks off. -/
def leave (frames : List Frame) : Expected → Datum
  | .value | .colon => abandon (some .unreadable) frames
  | _ => abandon none frames

/-- Opens a list or record, if not too many are open. -/
def enter (frames : List Frame) (expected : Expected) (frame : Frame) (inner : Expected) :
    Building :=
  if frames.length < maximalDepth then .inside (frame :: frames) inner
  else .broken (leave frames expected)

/-- A token where a value is expected. -/
def stepValue (frames : List Frame) (expected : Expected) : Token → Building
  | .openList => enter frames expected (.list []) .itemOrEnd
  | .openRecord => enter frames expected (.record [] "") .nameOrEnd
  | .nothing => place .nothing frames
  | .truth value => place (.truth value) frames
  | .count value => place (.count value) frames
  | .other => place .other frames
  | .text value => place (.text (String.ofList value)) frames
  | _ => .broken (leave frames expected)

/-- The state after one more token. -/
def step : Building → Token → Building
  | .inside frames expected, token =>
    match expected, token, frames with
    | .value, _, _ => stepValue frames .value token
    | .itemOrEnd, .closeList, .list items :: rest => place (.list items.reverse true) rest
    | .itemOrEnd, _, _ => stepValue frames .itemOrEnd token
    | .nameOrEnd, .closeRecord, .record members _ :: rest =>
      place (.record members.reverse true) rest
    | .nameOrEnd, .text name, .record members _ :: rest =>
      .inside (.record members (String.ofList name) :: rest) .colon
    | .name, .text name, .record members _ :: rest =>
      .inside (.record members (String.ofList name) :: rest) .colon
    | .colon, .colon, _ => .inside frames .value
    | .separatorOrEnd, .comma, .list _ :: _ => .inside frames .value
    | .separatorOrEnd, .comma, .record _ _ :: _ => .inside frames .name
    | .separatorOrEnd, .closeList, .list items :: rest => place (.list items.reverse true) rest
    | .separatorOrEnd, .closeRecord, .record members _ :: rest =>
      place (.record members.reverse true) rest
    | _, _, _ => .broken (leave frames expected)
  | .finished datum, _ => .broken datum
  | .broken datum, _ => .broken datum

/-- The value that was read, and whether the text is sound. -/
def result : Building → Datum × Bool
  | .inside frames expected => (leave frames expected, false)
  | .finished datum => (datum, true)
  | .broken datum => (datum, false)

end Building

/-- What a text says, and whether it is one JSON value and nothing else. -/
def read (text : List Char) : Datum × Bool :=
  ((tokens text).foldl Building.step (.inside [] .value)).result

/-- Decodes a text: the first problem in its order counts, trailing text among them. -/
def decode {α : Type} (decoder : Datum → Except DecodingFault α) (text : List Char) :
    Except DecodingFault α := do
  let (datum, sound) := read text
  let value ← decoder datum
  Datum.finish sound
  .ok value

end CommandCompletion.Json
