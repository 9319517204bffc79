import CommandCompletion.Command
import CommandCompletion.Table

/-!
# The lookup index

The index is the flat form of a specification that completion works on. Every command is
found under its key, the program's name followed by the names of the subcommands on the
way, joined by underscores. Under a key stand the names of the subcommands, the flags,
and for every slot of the command its arity, its choices and its provider. A slot is
named by a flag or by the key of a positional.

Every query takes any text as a key: a key that the index does not have counts as the
key of the program (`Index.resolve`), so queries never fail.
-/

set_option autoImplicit false

namespace CommandCompletion

/-- What the index holds about one command. -/
structure IndexEntry where
  /-- The names of the subcommands, in declaration order. -/
  subcommands : List String
  /-- Every flag once, in the order of first declaration. -/
  flags : List String
  /-- The choices of the slots that have choices. -/
  choices : Table (List String)
  /-- The providers of the slots that have one. -/
  providers : Table String
  /-- The arity of every slot. -/
  arities : Table Arity
  deriving DecidableEq

/-- The commands of a specification by key, and the key of the program. -/
structure Index where
  root : String
  entries : Table IndexEntry
  deriving DecidableEq

/-- The key of a subcommand of the command with the given key. -/
def childKey (key name : String) : String :=
  key ++ "_" ++ name

namespace Index

/-- All keys, in increasing order. -/
def keys (index : Index) : List String :=
  index.entries.keys

/-- Whether a text is the key of a command. -/
def hasKey (index : Index) (key : String) : Bool :=
  index.entries.contains key

/-- The key itself if it is known, and otherwise the key of the program. -/
def resolve (index : Index) (key : String) : String :=
  if index.hasKey key then key else index.root

/-- What the index holds under a key, an unknown key counting as the program's. -/
def entry? (index : Index) (key : String) : Option IndexEntry :=
  index.entries.get? (index.resolve key)

/-- The names of the subcommands of a command. -/
def subcommands (index : Index) (key : String) : List String :=
  ((index.entry? key).map (·.subcommands)).getD []

/-- The flags of a command. -/
def flags (index : Index) (key : String) : List String :=
  ((index.entry? key).map (·.flags)).getD []

/-- The choices of a slot, none if it has none. -/
def choices (index : Index) (key slot : String) : List String :=
  ((index.entry? key).bind (·.choices.get? slot)).getD []

/-- The provider of a slot. -/
def provider (index : Index) (key slot : String) : Option String :=
  (index.entry? key).bind (·.providers.get? slot)

/-- The arity of a slot. -/
def arity (index : Index) (key slot : String) : Option Arity :=
  (index.entry? key).bind (·.arities.get? slot)

/-- Whether a word is the name of a subcommand. -/
def isSubcommand (index : Index) (key word : String) : Bool :=
  (index.subcommands key).contains word

/-- Whether a word is a flag. -/
def isFlag (index : Index) (key word : String) : Bool :=
  (index.flags key).contains word

/-! ## The five tables -/

/-- The subcommands of every command. -/
def subcommandTable (index : Index) : Table (List String) :=
  index.entries.map (·.subcommands)

/-- The flags of every command. -/
def flagTable (index : Index) : Table (List String) :=
  index.entries.map (·.flags)

/-- The choices of every slot of every command. -/
def choiceTable (index : Index) : Table (Table (List String)) :=
  index.entries.map (·.choices)

/-- The providers of every slot of every command. -/
def providerTable (index : Index) : Table (Table String) :=
  index.entries.map (·.providers)

/-- The arities of every slot of every command. -/
def arityTable (index : Index) : Table (Table Arity) :=
  index.entries.map (·.arities)

end Index

end CommandCompletion
