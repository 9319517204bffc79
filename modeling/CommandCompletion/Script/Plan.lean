import CommandCompletion.Index
import CommandCompletion.Shell
import CommandCompletion.Script.Template

/-!
# What a script holds

A script is written from a plan: the name of the program it completes, the stem of the
names of its functions and tables, and the rows of its five lookup tables. The tables of
subcommands and of flags are keyed by the key of a command; those of choices, providers
and arities by the key of a command, a space, and the key of a slot. A provider stands
in its table with the function that is bound to it in the shell of the script, and
without one it has no row.
-/

set_option autoImplicit false

namespace CommandCompletion.Script

/-- A lookup table as a list of rows. -/
structure ScriptTable where
  name : String
  rows : List (String × List String)
  deriving DecidableEq

/-- The key of a row about a slot. -/
def slotKey (key slot : String) : String :=
  key ++ " " ++ slot

/-- A name with every character replaced that a function name cannot hold. -/
def sanitize (name : String) : String :=
  String.ofList (name.toList.map fun c => if Text.isAlphanumeric c || c == '_' then c else '_')

/-- Everything that a script is written from. -/
structure Plan where
  /-- The name under which the script is registered. -/
  program : String
  /-- The stem of the names of functions and tables. -/
  function : List Char
  /-- The keys of all commands. -/
  keys : List String
  /-- The lookup tables, in the order in which they are written. -/
  tables : List ScriptTable
  deriving DecidableEq

namespace Plan

/-- The stem of the names in a script. The two underscores of the stem in fish mark private
names; in the other shells they are kept for the built-in functions. -/
def functionStem (shell : Shell) (program : String) : String :=
  match shell with
  | .fish => "__tabgen_" ++ sanitize program
  | .bash | .zsh => "_tabgen_" ++ sanitize program

/-- The rows of a table about slots. -/
def slotRows {α : Type} (table : Table (Table α)) (value : α → List String) :
    List (String × List String) :=
  table.entries.flatMap fun entry =>
    entry.2.entries.map fun slot => (slotKey entry.1 slot.1, value slot.2)

/-- The functions of all slots whose provider has one in a shell, by the key of the row. -/
def boundProviders (index : Index) (shell : Shell) (bindings : Bindings) : Table String :=
  Table.ofList <| index.providerTable.entries.flatMap fun entry =>
    entry.2.entries.filterMap fun slot =>
      (bindings.resolve slot.2 shell).map fun function => (slotKey entry.1 slot.1, function)

/-- The five tables of a script. -/
def tablesOf (index : Index) (shell : Shell) (bindings : Bindings) : List ScriptTable :=
  [⟨"subcommands", index.subcommandTable.entries⟩,
    ⟨"options", index.flagTable.entries⟩,
    ⟨"choices", slotRows index.choiceTable id⟩,
    ⟨"providers", (boundProviders index shell bindings).entries.map fun row => (row.1, [row.2])⟩,
    ⟨"arity", slotRows index.arityTable fun arity => [arity.text]⟩]

/-- The plan of a script for a program; without a name the one of the index is taken. -/
def of (index : Index) (shell : Shell) (program : Option String) (bindings : Bindings) : Plan :=
  let name := program.getD index.root
  { program := name
    function := (functionStem shell name).toList
    keys := index.keys
    tables := tablesOf index shell bindings }

end Plan

end CommandCompletion.Script
