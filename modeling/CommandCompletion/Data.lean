import CommandCompletion.Failure
import CommandCompletion.Text.Decimal

/-!
# What a structured text says

Documents and settings are written in JSON or in TOML. Both denote data of the same kind:
texts, counts, truth values, lists and records. A text that breaks off or stops making
sense still says something up to that point, and a problem before that point is reported
first. So data are kept together with the places where the text was left: a list or
record that was not closed says so, and a value that could not be read is marked.

The members of a record stand in the order in which they are to be examined, and the same
name may occur twice. Fractions and negative numbers are never wanted here and are not
told apart. Dates and times are not wanted either; where a record may stand, one of them
counts as a record with a single member, whose name is reserved for this.

A number may be well written and still have no value, because no range of numbers holds
it. This is a problem only where the number is looked at. A member that nobody asks for
is looked at with everything in it before it is passed over (`Datum.passOver`).
-/

set_option autoImplicit false

namespace CommandCompletion

/-- What a structured text says, as far as it can be read. -/
inductive Datum where
  | nothing
  | truth (value : Bool)
  | count (value : Nat)
  /-- A value of a kind that is never wanted. -/
  | other
  /-- A number without a value. -/
  | valueless
  | text (value : String)
  /-- A date or a time of day. -/
  | moment
  | list (items : List Datum) (closed : Bool)
  | record (members : List (String × Datum)) (closed : Bool)
  /-- A value where the text breaks off or makes no sense. -/
  | unreadable
  deriving Inhabited

namespace Datum

/-- The name of the only member that a date or a time has as a record. -/
def momentMember : String := "$__toml_private_datetime"

/-- A text. -/
def asText : Datum → Except DecodingFault String
  | .text value => .ok value
  | _ => .error .malformed

/-- A truth value. -/
def asTruth : Datum → Except DecodingFault Bool
  | .truth value => .ok value
  | _ => .error .malformed

/-- A value that may be left open. -/
def asOptional {α : Type} (decode : Datum → Except DecodingFault α) :
    Datum → Except DecodingFault (Option α)
  | .nothing => .ok none
  | datum => (decode datum).map some

/-- The end of a list or record, which has to be closed. -/
def finish (closed : Bool) : Except DecodingFault Unit :=
  if closed then .ok () else .error .malformed

/-- Texts one after the other. -/
def textsOf : List Datum → Except DecodingFault (List String)
  | [] => .ok []
  | item :: rest => do
    let first ← item.asText
    let others ← textsOf rest
    .ok (first :: others)

/-- A list of texts. -/
def asTexts : Datum → Except DecodingFault (List String)
  | .list items closed => do
    let values ← textsOf items
    finish closed
    .ok values
  | _ => .error .malformed

/-- The value of a member that is given at most once. -/
def once {α : Type} (name : String) (before : Option α) (value : Except DecodingFault α) :
    Except DecodingFault (Option α) :=
  match before with
  | some _ => .error (.duplicateField name)
  | none => value.map some

mutual
/-- Looks at a value that nobody asks for. -/
def passOver : Datum → Except DecodingFault Unit
  | .valueless | .unreadable => .error .malformed
  | .list items closed => do
    passOverItems items
    finish closed
  | .record members closed => do
    passOverMembers members
    finish closed
  | _ => .ok ()

/-- Looks at values one after the other. -/
def passOverItems : List Datum → Except DecodingFault Unit
  | [] => .ok ()
  | item :: rest => do
    passOver item
    passOverItems rest

/-- Looks at the values of members one after the other. -/
def passOverMembers : List (String × Datum) → Except DecodingFault Unit
  | [] => .ok ()
  | (_, value) :: rest => do
    passOver value
    passOverMembers rest
end

/-- A name among alternatives, given as a text, or as a record whose only member has that
name and an empty value. -/
def asVariant {α : Type} (alternatives : List (String × α)) : Datum → Except DecodingFault α
  | .text name => choose name
  | .record [(name, value)] true => do
    let chosen ← choose name
    match value with
    | .list [] true | .record [] true => .ok chosen
    | _ => .error .malformed
  | _ => .error .malformed
where
  /-- The alternative of a name. -/
  choose (name : String) : Except DecodingFault α :=
    match alternatives.lookup name with
    | some chosen => .ok chosen
    | none => .error (.unknownVariant name (alternatives.map (·.1)))

end Datum

end CommandCompletion
