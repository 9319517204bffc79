import CommandCompletion.Proofs.Script.Quoted

/-!
# The table section of a script

The tables of a script are text again, laid out in a way of its own for each shell. Here
that text is read back, by readers that know the layout and the quoting of the shell but
nothing of the plan the script was written from. What is read of a table is its name, its
keys and its values (`TableText`); a value is the text of one word, and the shells take
its lines that are not empty (`linesOf`).

The whole section of a plan reads back as the tables of the plan (`readSection_tables`),
provided only that their names are made of letters, digits and underscores.
-/

set_option autoImplicit false

namespace CommandCompletion.Script

/-! ## Readers of parts -/

/-- What stands behind an expected text. -/
def skip (expected text : List Char) : Option (List Char) :=
  expected.isPrefixOf? text

theorem skip_append (expected rest : List Char) : skip expected (expected ++ rest) = some rest :=
  List.isPrefixOf?_eq_some_iff_append_eq.mpr rfl

/-- A character of a name of a function or a table. -/
def isNameCharacter (c : Char) : Bool :=
  Text.isAlphanumeric c || c == '_'

/-- The name at the beginning of a text, and what follows it. -/
def readName (text : List Char) : List Char × List Char :=
  (text.takeWhile isNameCharacter, text.dropWhile isNameCharacter)

theorem readName_append {name rest : List Char} (valid : ∀ c ∈ name, isNameCharacter c = true)
    (ends : rest.takeWhile isNameCharacter = []) : readName (name ++ rest) = (name, rest) := by
  have behind : rest.dropWhile isNameCharacter = rest := by
    have parts := List.takeWhile_append_dropWhile (p := isNameCharacter) (l := rest)
    rwa [ends, List.nil_append] at parts
  rw [readName, List.takeWhile_append_of_pos valid, List.dropWhile_append_of_pos valid, ends,
    behind, List.append_nil]

/-- Reads as often as something can be read. -/
def readMany {α : Type} (read : List Char → Option (α × List Char)) (text : List Char) :
    List α × List Char :=
  match read text with
  | none => ([], text)
  | some (item, rest) =>
    if rest.length < text.length then
      let (items, final) := readMany read rest
      (item :: items, final)
    else ([], text)
termination_by text.length

/-- Items written one after the other are read one after the other, up to a text at which no
item begins. Reading an item may take a condition on what stands behind it. -/
theorem readMany_flatMap {α β : Type} {read : List Char → Option (β × List Char)}
    {write : α → List Char} {meaning : α → β} {fits : List Char → Prop} {values : List α}
    (item : ∀ value ∈ values, ∀ rest, fits rest →
      read (write value ++ rest) = some (meaning value, rest))
    (next : ∀ value rest, fits (write value ++ rest))
    {rest : List Char} (last : fits rest) (stops : read rest = none) :
    readMany read (values.flatMap write ++ rest) = (values.map meaning, rest) := by
  induction values with
  | nil =>
    rw [List.flatMap_nil, List.nil_append, readMany, stops]
    rfl
  | cons first others ih =>
    obtain ⟨firstItem, otherItems⟩ := List.forall_mem_cons.mp item
    have behind : fits (others.flatMap write ++ rest) := by
      cases others with
      | nil => exact last
      | cons second further =>
        rw [List.flatMap_cons, List.append_assoc]
        exact next second _
    -- An item of no characters would be read even where reading stops.
    have nonempty : write first ≠ [] := by
      intro empty
      have impossible := firstItem rest last
      rw [empty, List.nil_append, stops] at impossible
      cases impossible
    have shorter : (others.flatMap write ++ rest).length <
        (write first ++ (others.flatMap write ++ rest)).length := by
      have positive := List.length_pos_of_ne_nil nonempty
      simp only [List.length_append]
      omega
    rw [List.flatMap_cons, List.append_assoc, readMany, firstItem _ behind]
    simp only [shorter, if_true, ih otherItems, List.map_cons]

/-! ## Tables as they are written -/

/-- A table as it stands in a script. The keys and the values are lists of their own. -/
structure TableText where
  name : List Char
  keys : List (List Char)
  values : List (List Char)
  deriving DecidableEq

/-- The lines of a value that are not empty. -/
def linesOf (value : List Char) : List String :=
  ((value.splitOn '\n').filter (· ≠ [])).map String.ofList

/-- The lines that stand under a key of a table. -/
def TableText.held? (table : TableText) (key : String) : Option (List String) :=
  ((table.keys.zip table.values).lookup key.toList).map linesOf

/-- The name of a table in a script with a stem. -/
def tableName (stem : List Char) (name : String) : List Char :=
  stem ++ "_".toList ++ name.toList

/-- What a section holds under a key of the table with a name; a table that is not there holds
nothing. -/
def heldIn? (tables : List TableText) (name : List Char) (key : String) : Option (List String) :=
  (tables.find? (·.name = name)).bind (·.held? key)

/-- What a table of a plan looks like when it is written. -/
def ScriptTable.written (stem : List Char) (table : ScriptTable) : TableText where
  name := tableName stem table.name
  keys := table.rows.map fun row => row.1.toList
  values := table.rows.map fun row => joinWith ['\n'] (row.2.map String.toList)

/-! ## Readers of tables -/

/-- The texts around the key and the value of a row. No word goes on into what is behind it. -/
structure RowLayout where
  opening : List Char
  between : List Char
  closing : List Char
  between_ends : ∀ rest, readPosix .plain (between ++ rest) = some ([], between ++ rest)
  closing_ends : ∀ rest, readPosix .plain (closing ++ rest) = some ([], closing ++ rest)

/-- A row of a table of bash. -/
def bashRow : RowLayout :=
  ⟨"    [".toList, "]=".toList, "\n".toList, fun _ => rfl, fun _ => rfl⟩

/-- A row of a table of zsh. -/
def zshRow : RowLayout :=
  ⟨"    ".toList, " ".toList, "\n".toList, fun _ => rfl, fun _ => rfl⟩

/-- The key and the value of a row of bash or zsh. -/
def readRow (layout : RowLayout) (text : List Char) :
    Option ((List Char × List Char) × List Char) := do
  let text ← skip layout.opening text
  let (key, text) ← readPosix .plain text
  let text ← skip layout.between text
  let (value, text) ← readPosix .plain text
  let text ← skip layout.closing text
  some ((key, value), text)

/-- The rows of a table, between the brackets that hold them. -/
def readRows (layout : RowLayout) (name text : List Char) : Option (TableText × List Char) := do
  let text ← skip "=(\n".toList text
  let (rows, text) := readMany (readRow layout) text
  let text ← skip ")\n".toList text
  some (⟨name, rows.map (·.1), rows.map (·.2)⟩, text)

/-- A table of bash. -/
def readBashTable (text : List Char) : Option (TableText × List Char) := do
  let text ← skip "declare -gA ".toList text
  let (name, text) := readName text
  readRows bashRow name text

/-- A table of zsh, which is declared before it is filled. -/
def readZshTable (text : List Char) : Option (TableText × List Char) := do
  let text ← skip "typeset -gA ".toList text
  let (name, text) := readName text
  let text ← skip "\n".toList text
  let text ← skip name text
  readRows zshRow name text

/-- One item of a list of fish, on a line of its own. -/
def readItem (text : List Char) : Option (List Char × List Char) := do
  let text ← skip " \\\n        ".toList text
  readFish .plain text

/-- What a table of fish does with its two lists. -/
def fishLookUp : List Char := lines [
  "    if set -l i (contains -i -- \"$argv[1]\" $keys)",
  "        string split --no-empty \\n -- $values[$i]",
  "    end",
  "end"]

/-- A table of fish, which is a function that holds two lists. -/
def readFishTable (text : List Char) : Option (TableText × List Char) := do
  let text ← skip "\nfunction ".toList text
  let (name, text) := readName text
  let text ← skip "\n".toList text
  let text ← skip "    set -l keys".toList text
  let (keys, text) := readMany readItem text
  let text ← skip "\n    set -l values".toList text
  let (values, text) := readMany readItem text
  let text ← skip "\n".toList text
  let text ← skip fishLookUp text
  some (⟨name, keys, values⟩, text)

/-- The function of fish that lists the keys of all commands. -/
def readKeyList (text : List Char) : Option (List (List Char) × List Char) := do
  let text ← skip "function ".toList text
  let (_, text) := readName text
  let text ← skip "\n    printf '%s\\n'".toList text
  let (keys, text) := readMany readItem text
  let text ← skip "\nend\n".toList text
  some (keys, text)

/-- One table of a shell. -/
def readTable : Shell → List Char → Option (TableText × List Char)
  | .bash => readBashTable
  | .zsh => readZshTable
  | .fish => readFishTable

/-- A section that consists of tables and nothing else. -/
def readTables (shell : Shell) (text : List Char) : Option (List TableText) :=
  let (tables, rest) := readMany (readTable shell) text
  if rest.isEmpty then some tables else none

/-- The table section of a script; in fish the list of all keys stands before the tables. -/
def readSection : Shell → List Char → Option (List TableText)
  | .bash, text => readTables .bash text
  | .zsh, text => readTables .zsh text
  | .fish, text => do
    let (_, text) ← readKeyList text
    readTables .fish text

/-! ## Tables of bash and zsh -/

/-- A row as it is written. -/
def RowLayout.write (layout : RowLayout) (row : String × List String) : List Char :=
  layout.opening ++ (posixQuote row.1.toList ++ (layout.between ++
    (ansiLines (row.2.map String.toList) ++ layout.closing)))

/-- A row as it is read. -/
def writtenRow (row : String × List String) : List Char × List Char :=
  (row.1.toList, joinWith ['\n'] (row.2.map String.toList))

theorem readRow_write (layout : RowLayout) (row : String × List String) (rest : List Char) :
    readRow layout (layout.write row ++ rest) = some (writtenRow row, rest) := by
  simp only [RowLayout.write, List.append_assoc, readRow, skip_append, readPosix_posixQuote,
    readPosix_ansiLines, layout.between_ends, layout.closing_ends, prepend_some, List.append_nil,
    Option.bind_eq_bind, Option.bind_some, writtenRow]

theorem readRows_write {layout : RowLayout} {table : ScriptTable} {stem name : List Char}
    (named : name = (table.written stem).name)
    (stops : ∀ rest, readRow layout (")\n".toList ++ rest) = none) (rest : List Char) :
    readRows layout name
        ("=(\n".toList ++ (table.rows.flatMap layout.write ++ (")\n".toList ++ rest))) =
      some (table.written stem, rest) := by
  have rows : readMany (readRow layout)
      (table.rows.flatMap layout.write ++ (")\n".toList ++ rest)) =
        (table.rows.map writtenRow, ")\n".toList ++ rest) :=
    readMany_flatMap (fun row _ rest (_ : True) => readRow_write layout row rest)
      (fun _ _ => trivial) trivial (stops rest)
  simp only [readRows, skip_append, rows, Option.bind_eq_bind, Option.bind_some, List.map_map,
    named]
  rfl

section Named

variable {stem : List Char} {table : ScriptTable}
  (valid : ∀ c ∈ (table.written stem).name, isNameCharacter c = true) (rest : List Char)
include valid

theorem readBashTable_table :
    readBashTable (Bash.table stem table ++ rest) = some (table.written stem, rest) := by
  have layout : Bash.table stem table ++ rest =
      "declare -gA ".toList ++ ((table.written stem).name ++
        ("=(\n".toList ++ (table.rows.flatMap bashRow.write ++ (")\n".toList ++ rest)))) := by
    -- Not `rw`: it makes an equation for the definition, and evaluates the literals for it.
    unfold Bash.table
    simp only [ScriptTable.written, tableName, List.append_assoc]
    rfl
  unfold readBashTable
  rw [layout, skip_append, Option.bind_eq_bind, Option.bind_some,
    readName_append valid rfl]
  exact readRows_write rfl (fun _ => rfl) rest

theorem readZshTable_table :
    readZshTable (Zsh.table stem table ++ rest) = some (table.written stem, rest) := by
  have layout : Zsh.table stem table ++ rest =
      "typeset -gA ".toList ++ ((table.written stem).name ++ ("\n".toList ++
        ((table.written stem).name ++ ("=(\n".toList ++
          (table.rows.flatMap zshRow.write ++ (")\n".toList ++ rest)))))) := by
    unfold Zsh.table
    simp only [ScriptTable.written, tableName, List.append_assoc]
    rfl
  unfold readZshTable
  rw [layout, skip_append, Option.bind_eq_bind, Option.bind_some,
    readName_append valid rfl]
  simp only [skip_append, Option.bind_some]
  exact readRows_write rfl (fun _ => rfl) rest

end Named

/-! ## Tables of fish -/

/-- A text that a word of fish does not go on into. -/
def EndsWord (rest : List Char) : Prop :=
  readFish .plain rest = some ([], rest)

theorem readItem_continued {quote : List Char} {rest word : List Char}
    (read : readFish .plain (quote ++ rest) = prepend word (readFish .plain rest))
    (ends : EndsWord rest) : readItem (Fish.continued quote ++ rest) = some (word, rest) := by
  unfold Fish.continued readItem
  rw [List.append_assoc, skip_append, Option.bind_eq_bind, Option.bind_some, read, ends,
    prepend_some, List.append_nil]

/-- A list whose items read back by themselves reads back item by item, up to a line that holds no
item. -/
theorem readMany_continued {α : Type} {quote meaning : α → List Char} {rest : List Char}
    (back : ∀ value rest, readFish .plain (quote value ++ rest) =
      prepend (meaning value) (readFish .plain rest))
    (ends : EndsWord rest) (stops : readItem rest = none) (values : List α) :
    readMany readItem (values.flatMap (fun value => Fish.continued (quote value)) ++ rest) =
      (values.map meaning, rest) :=
  readMany_flatMap (fun value _ rest => readItem_continued (back value rest)) (fun _ _ => rfl) ends
    stops

theorem readFishTable_table {stem : List Char} {table : ScriptTable}
    (valid : ∀ c ∈ (table.written stem).name, isNameCharacter c = true) (rest : List Char) :
    readFishTable (Fish.table stem table ++ rest) = some (table.written stem, rest) := by
  have layout : Fish.table stem table ++ rest =
      "\nfunction ".toList ++ ((table.written stem).name ++ ("\n".toList ++
        ("    set -l keys".toList ++
          (table.rows.flatMap (fun row => Fish.continued (fishQuote row.1.toList)) ++
            ("\n    set -l values".toList ++
              (table.rows.flatMap
                (fun row => Fish.continued (fishLines (row.2.map String.toList))) ++
                ("\n".toList ++ (fishLookUp ++ rest)))))))) := by
    unfold Fish.table
    simp only [ScriptTable.written, tableName, List.append_assoc]
    rfl
  unfold readFishTable
  rw [layout, skip_append, Option.bind_eq_bind, Option.bind_some, readName_append valid rfl]
  simp only [skip_append, Option.bind_some]
  have key (row : String × List String) := readFish_fishQuote row.1.toList
  have value (row : String × List String) := readFish_fishLines (row.2.map String.toList)
  rw [readMany_continued key ?keysEnd ?keysStop table.rows]
  simp only [skip_append, Option.bind_some]
  rw [readMany_continued value ?valuesEnd ?valuesStop table.rows]
  simp only [skip_append, Option.bind_some]
  case keysEnd | keysStop | valuesEnd | valuesStop => rfl
  rfl

theorem readKeyList_keyList {plan : Plan}
    (valid : ∀ c ∈ plan.function, isNameCharacter c = true) (rest : List Char) :
    readKeyList (Fish.keyList plan ++ rest) = some (plan.keys.map String.toList, rest) := by
  have layout : Fish.keyList plan ++ rest =
      "function ".toList ++ ((plan.function ++ "_prefixes".toList) ++
        ("\n    printf '%s\\n'".toList ++
          (plan.keys.flatMap (fun key => Fish.continued (fishQuote key.toList)) ++
            ("\nend\n".toList ++ rest)))) := by
    unfold Fish.keyList
    simp only [List.append_assoc]
    rfl
  have named : ∀ c ∈ plan.function ++ "_prefixes".toList, isNameCharacter c = true := by
    intro c member
    rcases List.mem_append.mp member with own | added
    · exact valid c own
    · have all : "_prefixes".toList.all isNameCharacter = true := by decide
      exact List.all_eq_true.mp all c added
  unfold readKeyList
  rw [layout, skip_append, Option.bind_eq_bind, Option.bind_some, readName_append named rfl]
  simp only [skip_append, Option.bind_some]
  have key (text : String) := readFish_fishQuote text.toList
  rw [readMany_continued key ?keysEnd ?keysStop plan.keys]
  simp only [skip_append, Option.bind_some]
  case keysEnd | keysStop => rfl

/-! ## Whole sections -/

/-- A table as the script for a shell writes it. -/
def writeTable : Shell → List Char → ScriptTable → List Char
  | .bash => Bash.table
  | .zsh => Zsh.table
  | .fish => Fish.table

theorem readTable_writeTable (shell : Shell) {stem : List Char} {table : ScriptTable}
    (valid : ∀ c ∈ (table.written stem).name, isNameCharacter c = true) (rest : List Char) :
    readTable shell (writeTable shell stem table ++ rest) = some (table.written stem, rest) := by
  cases shell with
  | bash => exact readBashTable_table valid rest
  | zsh => exact readZshTable_table valid rest
  | fish => exact readFishTable_table valid rest

/-- Names of letters, digits and underscores, which a script can use as they are. -/
structure Plan.Named (plan : Plan) : Prop where
  stem : ∀ c ∈ plan.function, isNameCharacter c = true
  tables : ∀ table ∈ plan.tables, ∀ c ∈ table.name.toList, isNameCharacter c = true

theorem Plan.Named.written {plan : Plan} (named : plan.Named) {table : ScriptTable}
    (member : table ∈ plan.tables) :
    ∀ c ∈ (table.written plan.function).name, isNameCharacter c = true := by
  intro c inside
  rcases List.mem_append.mp inside with inside | own
  · rcases List.mem_append.mp inside with stem | joint
    · exact named.stem c stem
    · exact List.mem_singleton.mp joint ▸ rfl
  · exact named.tables table member c own

theorem readTable_nil (shell : Shell) : readTable shell [] = none := by
  cases shell <;> rfl

theorem readTables_flatMap (shell : Shell) {plan : Plan} (named : plan.Named) :
    readTables shell (plan.tables.flatMap (writeTable shell plan.function)) =
      some (plan.tables.map (·.written plan.function)) := by
  have read : readMany (readTable shell)
      (plan.tables.flatMap (writeTable shell plan.function) ++ []) =
        (plan.tables.map (·.written plan.function), []) :=
    readMany_flatMap
      (fun table member rest (_ : True) => readTable_writeTable shell (named.written member) rest)
      (fun _ _ => trivial) trivial (readTable_nil shell)
  rw [List.append_nil] at read
  simp only [readTables, read, List.isEmpty_nil, if_true]

/-- The table section of a plan reads back as the tables of the plan. -/
theorem readSection_tables (shell : Shell) {plan : Plan} (named : plan.Named) :
    readSection shell ((emitterFor shell).tables plan) =
      some (plan.tables.map (·.written plan.function)) := by
  cases shell with
  | bash => exact readTables_flatMap .bash named
  | zsh => exact readTables_flatMap .zsh named
  | fish =>
    have keys := readKeyList_keyList named.stem (plan.tables.flatMap (Fish.table plan.function))
    change (readKeyList (Fish.keyList plan ++ plan.tables.flatMap (Fish.table plan.function))).bind
      (fun read => readTables .fish read.2) = _
    rw [keys]
    exact readTables_flatMap .fish named

/-! ## The names in a script -/

theorem isNameCharacter_sanitize (name : String) :
    ∀ c ∈ (sanitize name).toList, isNameCharacter c = true := by
  intro c member
  rw [sanitize, String.toList_ofList, List.mem_map] at member
  obtain ⟨original, _, rfl⟩ := member
  split
  · assumption
  · rfl

/-- Whatever the name of the program is, the stem is made of letters, digits and underscores. -/
theorem isNameCharacter_functionStem (shell : Shell) (program : String) :
    ∀ c ∈ (Plan.functionStem shell program).toList, isNameCharacter c = true := by
  have added (fixed : String) (valid : fixed.toList.all isNameCharacter = true) :
      ∀ c ∈ (fixed ++ sanitize program).toList, isNameCharacter c = true := by
    intro c member
    rcases List.mem_append.mp (String.toList_append ▸ member) with own | rest
    · exact List.all_eq_true.mp valid c own
    · exact isNameCharacter_sanitize program c rest
  cases shell with
  | bash | zsh => exact added "_tabgen_" (by decide)
  | fish => exact added "__tabgen_" (by decide)

theorem Plan.named_of (index : Index) (shell : Shell) (program : Option String)
    (bindings : Bindings) : (Plan.of index shell program bindings).Named where
  stem := isNameCharacter_functionStem shell (program.getD index.root)
  tables := by
    have all : ["subcommands", "options", "choices", "providers", "arity"].all
        (fun name => name.toList.all isNameCharacter) = true := by decide
    intro table member
    have listed : table.name ∈ ["subcommands", "options", "choices", "providers", "arity"] := by
      simpa [Plan.of, Plan.tablesOf] using List.mem_map_of_mem (f := ScriptTable.name) member
    exact List.all_eq_true.mp (List.all_eq_true.mp all _ listed)

end CommandCompletion.Script
