import CommandCompletion.Proofs.Script.Answers
import CommandCompletion.Proofs.Script.Parts

/-!
# What bindings and the caller's code do to a script

The bindings of providers show in one place of a script, the rows of its table of
providers. A slot has a row there if its provider has a function in the shell of the
script, and no two slots share a row (`get?_boundProviders`). So a binding that no slot
refers to, or that is for another shell, changes nothing (`boundProviders_congr`), and
taking the functions of some providers away takes the rows of their slots away and nothing
else (`providerRows_unbound`). In fish a row has two halves, one in each list of the table;
both halves go.

The caller's code shows in one place too, right before the registration. It is copied as
it is, even where it looks like a hole of a template, since the holes are filled before it
is put in.
-/

set_option autoImplicit false

namespace CommandCompletion

/-! ## Bindings -/

theorem ShellFunctions.get?_set (functions : ShellFunctions) (shell other : Shell)
    (function : String) : (functions.set shell function).get? other =
      if other = shell then some function else functions.get? other := by
  cases shell <;> cases other <;> rfl

theorem Bindings.resolve_eq_none {bindings : Bindings} {provider : String}
    (missing : provider ∉ bindings.keys) (shell : Shell) :
    bindings.resolve provider shell = none := by
  cases found : bindings.get? provider with
  | none => rw [Bindings.resolve, found, Option.bind_none]
  | some functions => exact absurd (Table.mem_keys_iff.mpr ⟨functions, found⟩) missing

/-- A binding shows for its provider and its shell only. -/
theorem Bindings.resolve_bind (bindings : Bindings) (provider other : String)
    (shell otherShell : Shell) (function : String) :
    (bindings.bind provider shell function).resolve other otherShell =
      if other = provider ∧ otherShell = shell then some function
      else bindings.resolve other otherShell := by
  rw [Bindings.bind, Bindings.resolve, Table.update, Table.get?_insert]
  by_cases same : other = provider
  · subst same
    rw [if_pos rfl, Option.bind_some, ShellFunctions.get?_set, Bindings.resolve]
    cases found : bindings.get? other with
    | some functions => simp
    | none => cases otherShell <;> simp [ShellFunctions.get?]
  · simp [same, Bindings.resolve]

namespace Script

/-! ## The text of a table -/

/-- What a table of a script begins with, up to its first row. -/
def tableOpening (shell : Shell) (name : List Char) : List Char :=
  match shell with
  | .bash => "declare -gA ".toList ++ name ++ "=(\n".toList
  | .zsh => "typeset -gA ".toList ++ name ++ "\n".toList ++ name ++ "=(\n".toList
  | .fish => "\nfunction ".toList ++ name ++ "\n".toList ++ "    set -l keys".toList

/-- What stands for a row in a table: in bash and zsh its line, in fish its key. -/
def rowText (shell : Shell) (row : String × List String) : List Char :=
  match shell with
  | .bash => bashRow.write row
  | .zsh => zshRow.write row
  | .fish => Fish.continued (fishQuote row.1.toList)

/-- What stands between the two lists of a table of fish. -/
def tableMiddle : Shell → List Char
  | .bash | .zsh => []
  | .fish => "\n    set -l values".toList

/-- What stands for a row in the second list of a table of fish. -/
def rowValueText (shell : Shell) (row : String × List String) : List Char :=
  match shell with
  | .bash | .zsh => []
  | .fish => Fish.continued (fishLines (row.2.map String.toList))

/-- What a table of a script ends with, from its last row on. -/
def tableClosing : Shell → List Char
  | .bash | .zsh => ")\n".toList
  | .fish => "\n".toList ++ fishLookUp

/-- The text of a table: every row has its place between the opening and the closing, and in
fish a second one behind the middle. -/
def tableText (shell : Shell) (name : List Char) (rows : List (String × List String)) :
    List Char :=
  tableOpening shell name ++ rows.flatMap (rowText shell) ++ tableMiddle shell ++
    rows.flatMap (rowValueText shell) ++ tableClosing shell

theorem writeTable_eq_tableText (shell : Shell) (stem : List Char) (table : ScriptTable) :
    writeTable shell stem table = tableText shell (tableName stem table.name) table.rows := by
  have none : table.rows.flatMap (fun _ => ([] : List Char)) = [] := by simp
  cases shell with
  | bash =>
    unfold writeTable Bash.table tableText tableOpening tableMiddle tableClosing tableName
    change _ = _ ++ table.rows.flatMap bashRow.write ++ _ ++ table.rows.flatMap (fun _ => []) ++ _
    rw [none, List.append_nil, List.append_nil]
    simp only [List.append_assoc]
    rfl
  | zsh =>
    unfold writeTable Zsh.table tableText tableOpening tableMiddle tableClosing tableName
    change _ = _ ++ table.rows.flatMap zshRow.write ++ _ ++ table.rows.flatMap (fun _ => []) ++ _
    rw [none, List.append_nil, List.append_nil]
    simp only [List.append_assoc]
    rfl
  | fish =>
    unfold writeTable Fish.table tableText tableOpening tableMiddle tableClosing tableName
    simp only [List.append_assoc]
    rfl

/-- What stands before the tables in their section: in fish the list of the keys. -/
def beforeTables (shell : Shell) (plan : Plan) : List Char :=
  match shell with
  | .bash | .zsh => []
  | .fish => Fish.keyList plan

theorem tables_eq (shell : Shell) (plan : Plan) :
    (emitterFor shell).tables plan =
      beforeTables shell plan ++ plan.tables.flatMap (writeTable shell plan.function) := by
  cases shell <;> rfl

/-! ## The rows of providers -/

/-- The rows of the table of providers: the key of a slot and the function of its provider. -/
def providerRows (index : Index) (shell : Shell) (bindings : Bindings) :
    List (String × List String) :=
  (Plan.boundProviders index shell bindings).entries.map fun row => (row.1, [row.2])

/-- The provider of the slot that the row with a key is about. -/
def rowProvider? (index : Index) (rowKey : String) : Option String :=
  (slotPairs index.providerTable some).lookup rowKey

theorem provider_of_mem {index : Index} {entry : String × Table String} {slot : String × String}
    (member : entry ∈ index.providerTable.entries) (listed : slot ∈ entry.2.entries) :
    index.hasKey entry.1 = true ∧ index.provider entry.1 slot.1 = some slot.2 := by
  have row : index.providerTable.get? entry.1 = some entry.2 :=
    (Table.lookup_eq_some_iff_mem index.providerTable.nodup_keys).mpr member
  rw [Index.providerTable, Table.get?_map, Option.map_eq_some_iff] at row
  obtain ⟨own, found, providers⟩ := row
  have known : index.hasKey entry.1 = true := Table.contains_iff.mpr ⟨own, found⟩
  refine ⟨known, ?_⟩
  rw [Index.provider, Index.entry?, Index.resolve_of_hasKey known, found, Option.bind_some,
    providers]
  exact (Table.lookup_eq_some_iff_mem entry.2.nodup_keys).mpr listed

/-- The functions in a script depend on the bindings of the providers in the index only. -/
theorem boundProviders_congr {index : Index} {shell : Shell} {bindings others : Bindings}
    (same : ∀ key slot provider, index.provider key slot = some provider →
      bindings.resolve provider shell = others.resolve provider shell) :
    Plan.boundProviders index shell bindings = Plan.boundProviders index shell others := by
  unfold Plan.boundProviders
  refine congrArg Table.ofList (List.flatMap_congr fun entry member => ?_)
  refine List.filterMap_congr fun slot listed => ?_
  rw [same entry.1 slot.1 slot.2 (provider_of_mem member listed).2]

theorem nodup_providerRows (index : Index) (shell : Shell) (bindings : Bindings) :
    ((providerRows index shell bindings).map (·.1)).Nodup := by
  rw [providerRows, List.map_map]
  exact (Plan.boundProviders index shell bindings).nodup_keys

/-- Where entries are kept or left out by their keys, a key finds what it found or nothing. -/
theorem lookup_filter_key {α : Type} (keep : String → Bool) (entries : List (String × α))
    (key : String) : (entries.filter fun entry => keep entry.1).lookup key =
      if keep key then entries.lookup key else none := by
  induction entries with
  | nil => simp
  | cons first rest ih =>
    obtain ⟨firstKey, value⟩ := first
    by_cases here : key = firstKey
    · subst here
      cases kept : keep key <;> simp [kept, ih]
    · have apart : (key == firstKey) = false := beq_eq_false_iff_ne.mpr here
      cases kept : keep firstKey <;> simp [kept, ih, List.lookup_cons, apart]

section Built

variable {root : Command} {index : Index} (holds : index.Holds root)
  (named : Text.Word root.name)
include holds named

theorem rowProvider?_slotKey {key : String} (known : index.hasKey key = true) (slot : String) :
    rowProvider? index (slotKey key slot) = index.provider key slot :=
  (lookup_slots holds named (·.providers) some known slot).trans (Option.bind_fun_some _)

/-- Under a key stands the function of the provider of its slot. -/
theorem get?_boundProviders (shell : Shell) (bindings : Bindings) (rowKey : String) :
    (Plan.boundProviders index shell bindings).get? rowKey =
      (rowProvider? index rowKey).bind (bindings.resolve · shell) := by
  have words := word_of_mem holds named (·.providers)
  ext function
  rw [Table.get?, entries_boundProviders holds named]
  refine (Table.lookup_eq_some_iff_mem (nodup_slotPairs _ words)).trans ?_
  rw [mem_slotPairs_iff, rowProvider?, Option.bind_eq_some_iff]
  constructor
  · rintro ⟨entry, member, slot, listed, bound, same⟩
    refine ⟨slot.2, (Table.lookup_eq_some_iff_mem (nodup_slotPairs _ words)).mpr ?_, bound⟩
    exact (mem_slotPairs_iff some).mpr ⟨entry, member, slot, listed, rfl, same⟩
  · rintro ⟨provider, found, bound⟩
    have row := (Table.lookup_eq_some_iff_mem (nodup_slotPairs _ words)).mp found
    obtain ⟨entry, member, slot, listed, own, same⟩ := (mem_slotPairs_iff some).mp row
    obtain rfl := Option.some.inj own
    exact ⟨entry, member, slot, listed, bound, same⟩

/-- The keys of rows are those of the slots that have a provider. -/
theorem rowProvider?_eq_some_iff {rowKey provider : String} :
    rowProvider? index rowKey = some provider ↔ ∃ key slot, index.hasKey key = true ∧
      index.provider key slot = some provider ∧ rowKey = slotKey key slot := by
  constructor
  · intro found
    have words := word_of_mem holds named (·.providers)
    have row := (Table.lookup_eq_some_iff_mem (nodup_slotPairs some words)).mp found
    obtain ⟨entry, member, slot, listed, own, same⟩ := (mem_slotPairs_iff some).mp row
    obtain rfl := Option.some.inj own
    obtain ⟨known, given⟩ := provider_of_mem member listed
    exact ⟨entry.1, slot.1, known, given, same.symm⟩
  · rintro ⟨key, slot, known, given, rfl⟩
    rw [rowProvider?_slotKey holds named known, given]

/-- The rows are those of the slots whose provider has a function. -/
theorem mem_providerRows_iff {shell : Shell} {bindings : Bindings} {row : String × List String} :
    row ∈ providerRows index shell bindings ↔
      ∃ key slot provider function, index.hasKey key = true ∧
        index.provider key slot = some provider ∧
        bindings.resolve provider shell = some function ∧
        row = (slotKey key slot, [function]) := by
  have bound (rowKey function : String) :
      (rowKey, function) ∈ (Plan.boundProviders index shell bindings).entries ↔
        ∃ provider, rowProvider? index rowKey = some provider ∧
          bindings.resolve provider shell = some function := by
    rw [← Option.bind_eq_some_iff, ← get?_boundProviders holds named, Table.get?,
      Table.lookup_eq_some_iff_mem (Table.nodup_keys _)]
  simp only [providerRows, List.mem_map, Prod.exists, bound,
    rowProvider?_eq_some_iff holds named]
  constructor
  · rintro ⟨_, function, ⟨provider, ⟨key, slot, known, given, rfl⟩, resolved⟩, rfl⟩
    exact ⟨key, slot, provider, function, known, given, resolved, rfl⟩
  · rintro ⟨key, slot, provider, function, known, given, resolved, rfl⟩
    exact ⟨_, function, ⟨provider, ⟨key, slot, known, given, rfl⟩, resolved⟩, rfl⟩

/-- Without the functions of some providers the rows of their slots are gone. -/
theorem providerRows_unbound {shell : Shell} {bindings unbound : Bindings} {providers : List String}
    (without : ∀ provider, unbound.resolve provider shell =
      if provider ∈ providers then none else bindings.resolve provider shell) :
    providerRows index shell unbound = (providerRows index shell bindings).filter
      fun row => (rowProvider? index row.1).all (· ∉ providers) := by
  have entries : (Plan.boundProviders index shell unbound).entries =
      (Plan.boundProviders index shell bindings).entries.filter
        fun row => (rowProvider? index row.1).all (· ∉ providers) := by
    refine Table.eq_of_lookup_eq (Table.increasing _) ((Table.increasing _).filter _) ?_
    intro rowKey
    rw [lookup_filter_key fun rowKey => (rowProvider? index rowKey).all (· ∉ providers)]
    have left := get?_boundProviders holds named shell unbound rowKey
    have right := get?_boundProviders holds named shell bindings rowKey
    rw [Table.get?] at left right
    rw [left, right]
    cases rowProvider? index rowKey with
    | none => rfl
    | some provider =>
      rw [Option.bind_some, Option.bind_some, without, Option.all_some]
      by_cases listed : provider ∈ providers <;> simp [listed]
  rw [providerRows, entries, providerRows, List.filter_map]
  rfl

end Built

/-! ## Where they show in a script -/

section Confined

variable (index : Index) (description : Description) (shell : Shell) (program : Option String)

/-- The script of a program, by the caller's code and the bindings. -/
def scriptFor (preamble : Option String) (bindings : Bindings) : List Char :=
  (render index description shell
    { program := program, preamble := preamble, bindings := bindings }).toList

/-- The name of the table of providers. -/
def providersName : List Char :=
  tableName (Plan.functionStem shell (program.getD index.root)).toList "providers"

/-- The tables that come before the one of providers. -/
def tablesBefore : List ScriptTable :=
  [⟨"subcommands", index.subcommandTable.entries⟩, ⟨"options", index.flagTable.entries⟩,
    ⟨"choices", Plan.slotRows index.choiceTable id⟩]

/-- The tables that come behind the one of providers. -/
def tablesBehind : List ScriptTable :=
  [⟨"arity", Plan.slotRows index.arityTable fun arity => [arity.text]⟩]

/-- Bindings show in the rows of the table of providers only. -/
theorem scriptFor_eq_around_rows (preamble : Option String) : ∃ front behind, ∀ bindings,
    scriptFor index description shell program preamble bindings =
      front ++ tableText shell (providersName index shell program)
        (providerRows index shell bindings) ++ behind := by
  let bare := Plan.of index shell program Table.empty
  let write := writeTable shell bare.function
  let front := firstPart shell bare.program ++ beforeTables shell bare ++
    (tablesBefore index).flatMap write
  let behind := (tablesBehind index).flatMap write ++ codeBehind index description shell bare ++
    preambleBlock preamble ++ registrationText shell bare
  refine ⟨front, behind, fun bindings => ?_⟩
  let plan := Plan.of index shell program bindings
  have code : codeBehind index description shell plan = codeBehind index description shell bare :=
    codeBehind_congr index description shell rfl rfl
  have registration : registrationText shell plan = registrationText shell bare := by
    cases shell <;> rfl
  have list : beforeTables shell plan = beforeTables shell bare := by
    cases shell <;> rfl
  have tables : plan.tables = tablesBefore index ++
      ⟨"providers", providerRows index shell bindings⟩ :: tablesBehind index := rfl
  rw [scriptFor, render_eq_parts, ownCode, tables_eq, code, registration, list, tables,
    List.flatMap_append, List.flatMap_cons, writeTable_eq_tableText]
  simp only [front, behind, List.append_assoc]
  rfl

/-- The caller's code is put in right before the registration, as it is. -/
theorem scriptFor_eq_around_preamble (bindings : Bindings) : ∃ before,
    let registration := registrationText shell (Plan.of index shell program bindings)
    scriptFor index description shell program none bindings = before ++ registration ∧
      ∀ preamble : String, scriptFor index description shell program (some preamble) bindings =
        before ++ (preamble.toList ++
          (if preamble.toList.getLast? = some '\n' then [] else ['\n']) ++ ['\n']) ++
          registration := by
  refine ⟨ownCode index description shell (Plan.of index shell program bindings), ?_,
    fun preamble => ?_⟩
  · rw [scriptFor, render_eq_parts, preambleBlock, List.append_nil]
  · rw [scriptFor, render_eq_parts, preambleBlock]
    simp only [beq_iff_eq]

end Confined

/-- **Bindings and the caller's code keep to their sections.** Bindings that give every provider
the index refers to the same function in the shell of a script give the same script. For the index
of a specification they change the rows of the table of providers only: there is one row for every
slot whose provider has a function, and taking the functions of some providers away takes the rows
of their slots away. The caller's code stands as it is right before the registration, ended by a
newline and followed by an empty line. -/
theorem bindings_and_preamble_confined (index : Index) (description : Description) (shell : Shell)
    (program : Option String) :
    let script := scriptFor index description shell program
    (∀ (preamble : Option String) (bindings others : Bindings),
      (∀ key slot provider, index.provider key slot = some provider →
        bindings.resolve provider shell = others.resolve provider shell) →
      script preamble bindings = script preamble others) ∧
    (∀ root : Command, root.index = .ok index → ∀ preamble, ∃ front behind,
      let withRows := fun rows =>
        front ++ tableText shell (providersName index shell program) rows ++ behind
      ∀ bindings,
        let rows := providerRows index shell bindings
        script preamble bindings = withRows rows ∧ (rows.map (·.1)).Nodup ∧
        (∀ row, row ∈ rows ↔ ∃ key slot provider function, index.hasKey key = true ∧
          index.provider key slot = some provider ∧
          bindings.resolve provider shell = some function ∧ row = (slotKey key slot, [function])) ∧
        ∀ (unbound : Bindings) (providers : List String),
          (∀ provider, unbound.resolve provider shell =
            if provider ∈ providers then none else bindings.resolve provider shell) →
          ∃ keep : String → Bool,
            (∀ key slot provider, index.hasKey key = true →
              index.provider key slot = some provider →
              (keep (slotKey key slot) = true ↔ provider ∉ providers)) ∧
            script preamble unbound = withRows (rows.filter fun row => keep row.1)) ∧
    (∀ bindings, ∃ before,
      let registration := registrationText shell (Plan.of index shell program bindings)
      script none bindings = before ++ registration ∧
        ∀ preamble : String, script (some preamble) bindings =
          before ++ (preamble.toList ++
            (if preamble.toList.getLast? = some '\n' then [] else ['\n']) ++ ['\n']) ++
            registration) := by
  refine ⟨?same, ?rows, ?caller⟩
  case same =>
    intro preamble bindings others same
    obtain ⟨front, behind, around⟩ :=
      scriptFor_eq_around_rows index description shell program preamble
    rw [around, around, providerRows, boundProviders_congr same, ← providerRows]
  case rows =>
    intro root built preamble
    obtain ⟨named, holds⟩ := Command.index_ok built
    obtain ⟨front, behind, around⟩ :=
      scriptFor_eq_around_rows index description shell program preamble
    refine ⟨front, behind, fun bindings => ?_⟩
    refine ⟨around bindings, nodup_providerRows index shell bindings,
      fun row => mem_providerRows_iff holds named, fun unbound providers without => ?_⟩
    refine ⟨fun rowKey => (rowProvider? index rowKey).all (· ∉ providers), ?_, ?_⟩
    · intro key slot provider known given
      simp only [rowProvider?_slotKey holds named known, given, Option.all_some, decide_eq_true_iff]
    · rw [around, providerRows_unbound holds named without]
  case caller =>
    exact scriptFor_eq_around_preamble index description shell program

theorem bindings_and_preamble_confined_sampleProgram : ∃ index front behind before,
    sampleProgram.index = .ok index ∧
    (let script := scriptFor index .standard .fish none
      let withRows := fun rows =>
        front ++ tableText .fish "__tabgen_prog_providers".toList rows ++ behind
      script none (Bindings.builtin.bind "file-completer" .bash "own_files") =
        script none Bindings.builtin ∧
      script none Bindings.builtin = withRows [("prog pos_0", ["__tabgen_files"])] ∧
      script none Table.empty = withRows [] ∧
      script (some "@FN@") Bindings.builtin = before ++ "@FN@\n\n".toList ++
        ("complete -c 'prog' -e\n" ++
          "complete -c 'prog' -f -a '(__tabgen_prog_complete)'\n").toList) := by
  obtain ⟨index, built⟩ := sampleProgram_accepted
  obtain ⟨same, rows, caller⟩ := bindings_and_preamble_confined index .standard .fish none
  obtain ⟨front, behind, around⟩ := rows sampleProgram built none
  obtain ⟨text, _, _, unbinding⟩ := around Bindings.builtin
  obtain ⟨before, _, inserted⟩ := caller Bindings.builtin
  have root : index.root = "prog" := Command.index_observed built (·.root) (by decide +kernel)
  have known : index.hasKey "prog" = true :=
    Command.index_observed built (·.hasKey "prog") (by decide +kernel)
  have given : index.provider "prog" "pos_0" = some "file-completer" :=
    Command.index_observed built (·.provider "prog" "pos_0") (by decide +kernel)
  have name : providersName index .fish none = "__tabgen_prog_providers".toList := by
    rw [providersName, Option.getD_none, root]
    decide +kernel
  have bound : providerRows index .fish Bindings.builtin = [("prog pos_0", ["__tabgen_files"])] :=
    Command.index_observed built (providerRows · .fish Bindings.builtin) (by decide +kernel)
  have registration : registrationText .fish (Plan.of index .fish none Bindings.builtin) =
      ("complete -c 'prog' -e\n" ++
        "complete -c 'prog' -f -a '(__tabgen_prog_complete)'\n").toList :=
    Command.index_observed built
      (fun index => registrationText .fish (Plan.of index .fish none Bindings.builtin))
      (by decide +kernel)
  refine ⟨index, front, behind, before, built, ?_, ?_, ?_, ?_⟩
  · refine same none _ _ fun key slot provider given => ?_
    rw [Bindings.resolve_bind, if_neg fun both => Shell.noConfusion both.2]
  · rw [text, bound, name]
  · have listed : "file-completer" ∈ Bindings.builtin.keys := by decide +kernel
    obtain ⟨keep, kept, less⟩ := unbinding Table.empty Bindings.builtin.keys fun provider => by
      split
      · rfl
      · next missing =>
        exact (Bindings.resolve_eq_none missing .fish).symm
    have gone : keep "prog pos_0" = false := by
      refine Bool.eq_false_iff.mpr fun stays => ?_
      exact (kept "prog" "pos_0" "file-completer" known given).mp stays listed
    rw [less, bound, name, List.filter_cons_of_neg (by simp [gone]), List.filter_nil]
  · rw [inserted "@FN@", registration]
    rfl

end Script

end CommandCompletion
