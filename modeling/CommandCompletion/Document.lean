import CommandCompletion.Command.Arena
import CommandCompletion.Data
import CommandCompletion.Json.Read
import CommandCompletion.Toml.Read

/-!
# Specification documents

A document says a command tree outright: a command has a name, options, positionals and
subcommands. All but the name may be left out. The name of a positional may be left out
too, and is then made up from its place. The slot of an option takes no word unless the
document says otherwise, that of a positional takes one.

A document is lowered into an arena from the root down (`CommandDocument.arena`): a command
gets its options and positionals first, then each subcommand is created and lowered before
the next one is. The tree that a document says is also given outright
(`CommandDocument.command`).

Every command, option and positional is a record, or a list of its fields in order. A
record has no other fields than the declared ones and none twice. The members are
examined in their order, and a field that is missing is noticed at the end of the record;
the first problem met is the one reported.
-/

set_option autoImplicit false

namespace CommandCompletion

/-- An option of a document. -/
structure OptionDocument where
  flags : List String
  arity : Arity := .exactly 0
  choices : Option (List String) := none
  provider : Option String := none
  deriving DecidableEq

/-- A positional of a document. -/
structure PositionalDocument where
  name : Option String := none
  arity : Arity := .exactly 1
  choices : Option (List String) := none
  provider : Option String := none
  deriving DecidableEq

/-- A command of a document, with its subcommands. -/
structure CommandDocument where
  name : String
  options : List OptionDocument := []
  positionals : List PositionalDocument := []
  subcommands : List CommandDocument := []

/-! ## From documents to specifications -/

/-- The option as it is declared. -/
def OptionDocument.declare (option : OptionDocument) : OptionDecl :=
  { flags := option.flags, arity := option.arity, choices := option.choices,
    provider := option.provider }

namespace PositionalDocument

/-- The positional at a place, which gives it a name if it has none. -/
def declare (positional : PositionalDocument) (place : Nat) : PositionalDecl :=
  { name := positional.name.getD ("arg" ++ toString place)
    arity := positional.arity
    choices := positional.choices
    provider := positional.provider }

/-- The positionals of a list, numbered from the given place on. -/
def declareFrom (place : Nat) : List PositionalDocument → List PositionalDecl
  | [] => []
  | positional :: rest => positional.declare place :: declareFrom (place + 1) rest

end PositionalDocument

namespace CommandDocument

mutual
/-- The command tree that a document says. -/
def command : CommandDocument → Command
  | ⟨name, options, positionals, subcommands⟩ =>
    { name, options := options.map OptionDocument.declare,
      positionals := PositionalDocument.declareFrom 0 positionals,
      subcommands := commands subcommands }

/-- The command trees of a list of documents. -/
def commands : List CommandDocument → List Command
  | [] => []
  | document :: rest => document.command :: commands rest
end

/-- Adds options, then positionals, to the command with the given number. -/
def declareInto (options : List OptionDocument) (positionals : List PositionalDocument)
    (arena : Arena) (number : Nat) : Arena :=
  let withOptions := options.foldl (fun arena option => arena.addOption number option.declare) arena
  (PositionalDocument.declareFrom 0 positionals).foldl
    (fun arena positional => arena.addPositional number positional) withOptions

mutual
/-- Adds what a document says to the command with the given number. What is created comes behind
all commands that are there. -/
def lowerInto : CommandDocument → Arena → Nat → Arena
  | ⟨_, options, positionals, subcommands⟩, arena, number =>
    lowerAll subcommands (declareInto options positionals arena number) number

/-- Creates a subcommand of the command with the given number for each document of a list, each
one lowered before the next one is created. -/
def lowerAll : List CommandDocument → Arena → Nat → Arena
  | [], arena, _ => arena
  | document :: rest, arena, parent =>
    lowerAll rest (document.lowerInto (arena.addSubcommand parent document.name) arena.size) parent
end

/-- The document as an arena. -/
def arena (document : CommandDocument) : Arena :=
  document.lowerInto (Arena.new document.name) Arena.root

end CommandDocument

/-! ## Decoding -/

/-- An arity: a count, or the text form. -/
def Arity.decode : Datum → Except DecodingFault Arity
  | .count count => .ok (.exactly count)
  | .text text =>
    match Arity.ofText text with
    | .ok arity => .ok arity
    | .error _ => .error (.invalidArity text)
  | _ => .error .malformed

namespace Datum

/-- The end of a list of fields. Only in TOML may more items follow than there are fields. -/
def finishFields (format : DocumentFormat) (rest : List Datum) (closed : Bool) :
    Except DecodingFault Unit :=
  match format, rest with
  | .toml, _ => finish closed
  | .json, [] => finish closed
  | .json, _ :: _ => .error .malformed

/-- The first item as the value of a field, if there is one, and the items behind it. -/
def field {α : Type} (decode : Datum → Except DecodingFault α) :
    List Datum → Except DecodingFault (Option α × List Datum)
  | [] => .ok (none, [])
  | item :: rest => (decode item).map fun value => (some value, rest)

/-- A field that has to be there. -/
def require {α : Type} (fault : DecodingFault) : Option α → Except DecodingFault α
  | some value => .ok value
  | none => .error fault

end Datum

/-! ### Options and positionals -/

/-- The fields of an option met so far. -/
structure OptionFields where
  flags : Option (List String) := none
  arity : Option Arity := none
  choices : Option (Option (List String)) := none
  provider : Option (Option String) := none

namespace OptionFields

/-- The names of the fields. -/
def names : List String := ["flags", "nargs", "choices", "provider"]

/-- The fields after one more member. -/
def add (fields : OptionFields) (name : String) (value : Datum) :
    Except DecodingFault OptionFields :=
  match name with
  | "flags" => do
    let value ← Datum.once name fields.flags value.asTexts
    .ok { fields with flags := value }
  | "nargs" => do
    let value ← Datum.once name fields.arity (Arity.decode value)
    .ok { fields with arity := value }
  | "choices" => do
    let value ← Datum.once name fields.choices (value.asOptional Datum.asTexts)
    .ok { fields with choices := value }
  | "provider" => do
    let value ← Datum.once name fields.provider (value.asOptional Datum.asText)
    .ok { fields with provider := value }
  | _ => .error (.unknownField name names)

/-- The option that the fields say. -/
def finish (fault : DecodingFault) (fields : OptionFields) :
    Except DecodingFault OptionDocument := do
  let flags ← Datum.require fault fields.flags
  .ok { flags, arity := fields.arity.getD (.exactly 0), choices := fields.choices.getD none,
        provider := fields.provider.getD none }

end OptionFields

/-- An option. -/
def OptionDocument.decode (format : DocumentFormat) :
    Datum → Except DecodingFault OptionDocument
  | .record members closed => do
    let fields ← members.foldlM (fun fields member => fields.add member.1 member.2)
      ({} : OptionFields)
    Datum.finish closed
    fields.finish (.missingField "flags")
  | .list items closed => do
    let (flags, items) ← Datum.field Datum.asTexts items
    let flags ← Datum.require .malformed flags
    let (arity, items) ← Datum.field Arity.decode items
    let (choices, items) ← Datum.field (Datum.asOptional Datum.asTexts) items
    let (provider, items) ← Datum.field (Datum.asOptional Datum.asText) items
    Datum.finishFields format items closed
    .ok { flags, arity := arity.getD (.exactly 0), choices := choices.getD none,
          provider := provider.getD none }
  | .moment => .error (.unknownField Datum.momentMember OptionFields.names)
  | _ => .error .malformed

/-- The fields of a positional met so far. -/
structure PositionalFields where
  name : Option (Option String) := none
  arity : Option Arity := none
  choices : Option (Option (List String)) := none
  provider : Option (Option String) := none

namespace PositionalFields

/-- The names of the fields. -/
def names : List String := ["name", "nargs", "choices", "provider"]

/-- The fields after one more member. -/
def add (fields : PositionalFields) (name : String) (value : Datum) :
    Except DecodingFault PositionalFields :=
  match name with
  | "name" => do
    let value ← Datum.once name fields.name (value.asOptional Datum.asText)
    .ok { fields with name := value }
  | "nargs" => do
    let value ← Datum.once name fields.arity (Arity.decode value)
    .ok { fields with arity := value }
  | "choices" => do
    let value ← Datum.once name fields.choices (value.asOptional Datum.asTexts)
    .ok { fields with choices := value }
  | "provider" => do
    let value ← Datum.once name fields.provider (value.asOptional Datum.asText)
    .ok { fields with provider := value }
  | _ => .error (.unknownField name names)

/-- The positional that the fields say. -/
def finish (fields : PositionalFields) : PositionalDocument :=
  { name := fields.name.getD none, arity := fields.arity.getD (.exactly 1),
    choices := fields.choices.getD none, provider := fields.provider.getD none }

end PositionalFields

/-- A positional. -/
def PositionalDocument.decode (format : DocumentFormat) :
    Datum → Except DecodingFault PositionalDocument
  | .record members closed => do
    let fields ← members.foldlM (fun fields member => fields.add member.1 member.2)
      ({} : PositionalFields)
    Datum.finish closed
    .ok fields.finish
  | .list items closed => do
    let (name, items) ← Datum.field (Datum.asOptional Datum.asText) items
    let (arity, items) ← Datum.field Arity.decode items
    let (choices, items) ← Datum.field (Datum.asOptional Datum.asTexts) items
    let (provider, items) ← Datum.field (Datum.asOptional Datum.asText) items
    Datum.finishFields format items closed
    .ok { name := name.getD none, arity := arity.getD (.exactly 1), choices := choices.getD none,
          provider := provider.getD none }
  | .moment => .error (.unknownField Datum.momentMember PositionalFields.names)
  | _ => .error .malformed

/-- A list whose items are all of one kind. -/
def Datum.asList {α : Type} (decode : Datum → Except DecodingFault α) :
    Datum → Except DecodingFault (List α)
  | .list items closed => do
    let values ← items.mapM decode
    Datum.finish closed
    .ok values
  | _ => .error .malformed

/-! ### Commands -/

/-- The fields of a command met so far. -/
structure CommandFields where
  name : Option String := none
  options : Option (List OptionDocument) := none
  positionals : Option (List PositionalDocument) := none
  subcommands : Option (List CommandDocument) := none

namespace CommandFields

/-- The names of the fields. -/
def names : List String := ["name", "options", "positionals", "subcommands"]

/-- The command that the fields say. -/
def finish (fault : DecodingFault) (fields : CommandFields) :
    Except DecodingFault CommandDocument := do
  let name ← Datum.require fault fields.name
  .ok { name, options := fields.options.getD [], positionals := fields.positionals.getD [],
        subcommands := fields.subcommands.getD [] }

end CommandFields

namespace CommandDocument

mutual
/-- A command with its subcommands. -/
def decode (format : DocumentFormat) : Datum → Except DecodingFault CommandDocument
  | .record members closed => do
    let fields ← decodeMembers format {} members
    Datum.finish closed
    fields.finish (.missingField "name")
  | .list items closed => do
    let fields ← decodeItems format items
    if format = .json ∧ 4 < items.length then .error .malformed
    else do
      Datum.finish closed
      fields.finish .malformed
  | .moment => .error (.unknownField Datum.momentMember CommandFields.names)
  | _ => .error .malformed

/-- The fields of a command after the members of a record. -/
def decodeMembers (format : DocumentFormat) (fields : CommandFields) :
    List (String × Datum) → Except DecodingFault CommandFields
  | [] => .ok fields
  | (name, value) :: rest => do
    let extended ←
      match name with
      | "name" => do
        let value ← Datum.once name fields.name value.asText
        .ok { fields with name := value }
      | "options" => do
        let value ← Datum.once name fields.options (value.asList (OptionDocument.decode format))
        .ok { fields with options := value }
      | "positionals" => do
        let value ← Datum.once name fields.positionals
          (value.asList (PositionalDocument.decode format))
        .ok { fields with positionals := value }
      | "subcommands" => do
        let value ← Datum.once name fields.subcommands (decodeList format value)
        .ok { fields with subcommands := value }
      | _ => .error (.unknownField name CommandFields.names)
    decodeMembers format extended rest

/-- The fields of a command given as a list, in order. -/
def decodeItems (format : DocumentFormat) : List Datum → Except DecodingFault CommandFields
  | [] => .error .malformed
  | [name] => do
    let name ← name.asText
    .ok { name }
  | [name, options] => do
    let name ← name.asText
    let options ← options.asList (OptionDocument.decode format)
    .ok { name, options }
  | [name, options, positionals] => do
    let name ← name.asText
    let options ← options.asList (OptionDocument.decode format)
    let positionals ← positionals.asList (PositionalDocument.decode format)
    .ok { name, options, positionals }
  | name :: options :: positionals :: subcommands :: _ => do
    let name ← name.asText
    let options ← options.asList (OptionDocument.decode format)
    let positionals ← positionals.asList (PositionalDocument.decode format)
    let subcommands ← decodeList format subcommands
    .ok { name, options, positionals, subcommands }

/-- A list of commands. -/
def decodeList (format : DocumentFormat) : Datum → Except DecodingFault (List CommandDocument)
  | .list items closed => do
    let commands ← decodeAll format items
    Datum.finish closed
    .ok commands
  | _ => .error .malformed

/-- Commands one after the other. -/
def decodeAll (format : DocumentFormat) :
    List Datum → Except DecodingFault (List CommandDocument)
  | [] => .ok []
  | item :: rest => do
    let first ← decode format item
    let others ← decodeAll format rest
    .ok (first :: others)
end

/-- Reads a document in JSON. -/
def ofJson (text : String) : Except DecodingFault CommandDocument :=
  Json.decode (decode .json) text.toList

/-- Reads a document in TOML. -/
def ofToml (text : String) : Except DecodingFault CommandDocument :=
  Toml.decode (decode .toml) text.toList

end CommandDocument

end CommandCompletion
