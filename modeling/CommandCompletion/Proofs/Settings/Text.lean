import CommandCompletion.Proofs.Toml.Document
import CommandCompletion.Settings.Text

/-!
# Settings that are written and read again

Reading what is written gives the settings back (`ofText_text`), whatever the names of providers and
functions are made of. A field that has no value is not written and keeps its default, which is the
value it had; a provider without functions keeps its header, and with it its place in the table; and
no default stands in the way of a value that is written.

The groups for generation and logging have headers of their own, so each becomes a table of values.
The headers of the providers lead through a table that none of them names, except if there are no
providers at all: then this table is named, and empty.
-/

set_option autoImplicit false

namespace CommandCompletion

open Toml

/-! ## Groups -/

/-- Fields of a record are read in the order of the record. -/
theorem Datum.asFields_record {α : Type} (names : List String)
    (change : α → String → Datum → Except DecodingFault α) (start : α)
    (members : List (String × Datum)) (closed : Bool) :
    Datum.asFields names change start (.record members closed) =
      members.foldlM (fun value member => change value member.1 member.2) start := rfl

theorem Shell.decode_name (shell : Shell) : Shell.decode (.text shell.name) = .ok shell := by
  cases shell <;> rfl

theorem LogLevel.decode_name (level : LogLevel) :
    LogLevel.decode (.text level.name) = .ok level := by
  cases level <;> rfl

namespace Settings

theorem decode_generationTable (settings : GenerationSettings) :
    GenerationSettings.decode (tableDatum (generationTable settings).memberData) =
      .ok settings := by
  obtain ⟨shell, ignoreCase, preamble⟩ := settings
  cases preamble with
  | none =>
    have ordered : ["case_insensitive", "default_shell"].Pairwise (· < ·) := by decide
    have listed : (Table.ofList (generationTable ⟨shell, ignoreCase, none⟩).memberData).entries =
        [("case_insensitive", .truth ignoreCase), ("default_shell", .text shell.name)] :=
      Table.entries_ofList (.swap _ _ _) ordered
    rw [tableDatum, listed, GenerationSettings.decode, Datum.asFields_record]
    simp [GenerationSettings.change, Datum.asTruth, Shell.decode_name, Except.map, bind,
      Except.bind, pure, Except.pure]
  | some path =>
    have ordered : ["case_insensitive", "default_shell", "preamble"].Pairwise (· < ·) := by decide
    have listed : (Table.ofList
        (generationTable ⟨shell, ignoreCase, some path⟩).memberData).entries =
        [("case_insensitive", .truth ignoreCase), ("default_shell", .text shell.name),
          ("preamble", .text path)] :=
      Table.entries_ofList (.swap _ _ _) ordered
    rw [tableDatum, listed, GenerationSettings.decode, Datum.asFields_record]
    simp [GenerationSettings.change, Datum.asTruth, Datum.asText, Shell.decode_name, Except.map,
      bind, Except.bind, pure, Except.pure]

theorem decode_loggingTable (settings : LoggingSettings) :
    LoggingSettings.decode (tableDatum (loggingTable settings).memberData) = .ok settings := by
  obtain ⟨level, timestamps⟩ := settings
  have ordered : ["level", "timestamps"].Pairwise (· < ·) := by decide
  have listed : (Table.ofList (loggingTable ⟨level, timestamps⟩).memberData).entries =
      [("level", .text level.name), ("timestamps", .truth timestamps)] :=
    Table.entries_ofList (.refl _) ordered
  rw [tableDatum, listed, LoggingSettings.decode, Datum.asFields_record]
  simp [LoggingSettings.change, Datum.asTruth, LogLevel.decode_name, Except.map, bind, Except.bind,
    pure, Except.pure]

/-! ## Providers -/

/-- The functions of a provider in some shells, as the members of a table. -/
def functionData (shells : List Shell) (functions : ShellFunctions) : List (String × Datum) :=
  shells.filterMap fun shell =>
    (functions.get? shell).map fun function => (shell.name, .text function)

theorem memberData_providerTable (provider : String × ShellFunctions) :
    (providerTable provider).memberData = functionData Shell.all provider.2 := by
  rw [PrintedTable.memberData, providerTable, List.map_filterMap, functionData]
  congr 1
  funext shell
  cases provider.2.get? shell <;> rfl

/-- The members are named after some of the shells, in their order. -/
theorem sublist_functionData (shells : List Shell) (functions : ShellFunctions) :
    ((functionData shells functions).map (·.1)).Sublist (shells.map Shell.name) := by
  induction shells with
  | nil => exact .slnil
  | cons shell rest ih =>
    rw [functionData, List.filterMap_cons]
    cases functions.get? shell with
    | none => exact .cons _ ih
    | some function => exact .cons_cons _ ih

theorem nodup_functionData (functions : ShellFunctions) :
    ((functionData Shell.all functions).map (·.1)).Nodup := by
  have distinct : (Shell.all.map Shell.name).Nodup := by decide
  exact distinct.sublist (sublist_functionData Shell.all functions)

/-- A shell without a function has no member, and is left without a function. -/
theorem decode_functionData (functions : ShellFunctions) :
    ShellFunctions.decode (tableDatum (functionData Shell.all functions)) = .ok functions := by
  have ordered : ([Shell.bash, .fish, .zsh].map Shell.name).Pairwise (· < ·) := by decide
  have sorted : [Shell.bash, .fish, .zsh].Perm Shell.all := by decide
  have listed : (Table.ofList (functionData Shell.all functions)).entries =
      functionData [.bash, .fish, .zsh] functions :=
    Table.entries_ofList (sorted.filterMap _) (ordered.sublist (sublist_functionData _ functions))
  rw [tableDatum, listed, ShellFunctions.decode, Datum.asFields_record]
  obtain ⟨bash, zsh, fish⟩ := functions
  cases bash <;> cases zsh <;> cases fish <;> rfl

/-- What the providers become in the root table. -/
def providersDraft (providers : Table ShellFunctions) : Draft :=
  if providers.isEmpty then .table .declared []
  else .table .passed (Members.ofDeclared (providers.map (functionData Shell.all)).entries)

/-- The table of every provider is read as the functions that it was made of. -/
theorem decodeProviders_entries (providers : Table ShellFunctions) :
    decodeProviders (.record
      (providers.map fun functions => tableDatum (functionData Shell.all functions)).entries true) =
      .ok providers := by
  have folded : ∀ (entries : List (String × ShellFunctions)) (before : Table ShellFunctions),
      (entries.map fun provider => (provider.1, tableDatum (functionData Shell.all provider.2))).foldlM
        (fun providers member =>
          (ShellFunctions.decode member.2).map fun functions => providers.insert member.1 functions)
        before =
      .ok (entries.foldl (fun table entry => table.insert entry.1 entry.2) before) := by
    intro entries
    induction entries with
    | nil => exact fun _ => rfl
    | cons provider rest ih =>
      intro before
      rw [List.map_cons, List.foldlM_cons, decode_functionData]
      exact ih _
  exact (folded providers.entries Table.empty).trans (congrArg Except.ok providers.ofList_entries)

theorem datum_ofDeclared (tables : Table (List (String × Datum))) :
    (Members.ofDeclared tables.entries).datum = .record (tables.map tableDatum).entries true := by
  have each : ∀ entries : List (String × List (String × Datum)),
      membersData (entries.map fun entry => (entry.1, .table .declared (Members.ofValues entry.2))) =
        entries.map fun entry => (entry.1, tableDatum entry.2) := by
    intro entries
    induction entries with
    | nil => rfl
    | cons entry rest ih =>
      rw [List.map_cons, List.map_cons, membersData, ih, ← Members.datum_ofValues]
      rfl
  rw [Members.ofDeclared, tables.ofList_entries]
  exact congrArg (Datum.record · true) (each tables.entries)

theorem decodeProviders_draft (providers : Table ShellFunctions) :
    decodeProviders (providersDraft providers).datum = .ok providers := by
  rw [providersDraft]
  split
  · rename_i noProviders
    obtain ⟨entries, increasing⟩ := providers
    obtain rfl : entries = [] := List.isEmpty_iff.mp noProviders
    rfl
  · have data := datum_ofDeclared (providers.map (functionData Shell.all))
    have twice : ((providers.map (functionData Shell.all)).map tableDatum).entries =
        (providers.map fun functions => tableDatum (functionData Shell.all functions)).entries :=
      List.map_map
    rw [twice] at data
    exact (congrArg decodeProviders data).trans (decodeProviders_entries providers)

/-- The headers of providers lead through the table of all of them. -/
theorem group_providerTable (provider : String × ShellFunctions) :
    (providerTable provider).group =
      (Section.declared provider.1 (functionData Shell.all provider.2)).under "providers" := by
  rw [PrintedTable.group, memberData_providerTable]
  rfl

theorem changeAll_providerTables (providers : Table ShellFunctions) :
    Section.changeAll ((providerTables providers).map PrintedTable.group) none =
      some (some (providersDraft providers)) := by
  rw [providerTables, providersDraft]
  split
  · rfl
  · rename_i present
    have declared := foldlM_declared (providers.map (functionData Shell.all)).nodup_keys
      fun table member => by
        obtain ⟨provider, _, rfl⟩ := List.mem_map.mp member
        exact nodup_functionData provider.2
    have groups : (providers.entries.map providerTable).map PrintedTable.group =
        ((providers.map (functionData Shell.all)).entries.map fun table =>
          Section.declared table.1 table.2).map (Section.under "providers") := by
      rw [Table.map, List.map_map, List.map_map, List.map_map]
      exact List.map_congr_left fun provider _ => group_providerTable provider
    rw [groups]
    cases entries : (providers.map (functionData Shell.all)).entries with
    | nil =>
      have noEntries : providers.entries = [] := List.map_eq_nil_iff.mp entries
      exact absurd (List.isEmpty_iff.mpr noEntries) present
    | cons first rest =>
      rw [entries] at declared
      exact changeAll_under_new "providers" declared

theorem head_of_mem_providerTables {providers : Table ShellFunctions} {part : Section}
    (member : part ∈ (providerTables providers).map PrintedTable.group) :
    part.head = "providers" := by
  obtain ⟨table, listed, rfl⟩ := List.mem_map.mp member
  rw [providerTables] at listed
  split at listed
  · rw [List.mem_singleton.mp listed]
    rfl
  · obtain ⟨provider, _, rfl⟩ := List.mem_map.mp listed
    rfl

/-! ## All settings -/

/-- The tables of settings. -/
def tables (settings : Settings) : List PrintedTable :=
  generationTable settings.generation :: providerTables settings.providers ++
    [loggingTable settings.logging]

theorem isReadable_generationTable (settings : GenerationSettings) :
    (generationTable settings).IsReadable := by
  have names : ∀ name ∈ ["default_shell", "case_insensitive", "preamble"],
      isBareName name = true := by
    decide
  have header : ReadsKey ⟨[], "generate"⟩ (printedPath ["generate"]) :=
    readsKey_printedPath_single (by decide) (by decide)
  refine ⟨header, fun member listed => names member.1 ?_⟩
  rcases List.mem_append.mp listed with fixed | optional
  · rcases List.mem_pair.mp fixed with rfl | rfl <;> simp
  · obtain ⟨path, _, rfl⟩ := List.mem_map.mp optional
    simp

theorem isReadable_loggingTable (settings : LoggingSettings) :
    (loggingTable settings).IsReadable := by
  have names : ∀ name ∈ ["level", "timestamps"], isBareName name = true := by
    decide
  have header : ReadsKey ⟨[], "logging"⟩ (printedPath ["logging"]) :=
    readsKey_printedPath_single (by decide) (by decide)
  refine ⟨header, fun member listed => names member.1 ?_⟩
  rcases List.mem_pair.mp listed with rfl | rfl <;> simp

theorem isReadable_providerTable (provider : String × ShellFunctions) :
    (providerTable provider).IsReadable := by
  have names : ∀ shell : Shell, isBareName shell.name = true := by
    intro shell
    cases shell <;> decide
  have header : ReadsKey ⟨["providers"], provider.1⟩ (printedPath ["providers", provider.1]) :=
    readsKey_printedPath_pair (by decide) provider.1
  refine ⟨header, fun member listed => ?_⟩
  obtain ⟨shell, _, bound⟩ := List.mem_filterMap.mp listed
  obtain ⟨function, _, rfl⟩ := Option.map_eq_some_iff.mp bound
  exact names shell

theorem isReadable_of_mem_providerTables {providers : Table ShellFunctions} {table : PrintedTable}
    (member : table ∈ providerTables providers) : table.IsReadable := by
  rw [providerTables] at member
  split at member
  · rw [List.mem_singleton.mp member]
    exact ⟨readsKey_printedPath_single (by decide) (by decide), List.forall_mem_nil _⟩
  · obtain ⟨provider, _, rfl⟩ := List.mem_map.mp member
    exact isReadable_providerTable provider

theorem isReadable_of_mem_tables {settings : Settings} {table : PrintedTable}
    (member : table ∈ settings.tables) : table.IsReadable := by
  rw [tables, List.cons_append, List.mem_cons, List.mem_append, List.mem_singleton] at member
  rcases member with rfl | provider | rfl
  · exact isReadable_generationTable settings.generation
  · exact isReadable_of_mem_providerTables provider
  · exact isReadable_loggingTable settings.logging

/-- What the root table of settings has for a name. -/
def rootDraft (settings : Settings) (name : String) : Option Draft :=
  if name = "generate" then
    some (.table .declared (Members.ofValues (generationTable settings.generation).memberData))
  else if name = "logging" then
    some (.table .declared (Members.ofValues (loggingTable settings.logging).memberData))
  else if name = "providers" then some (providersDraft settings.providers)
  else none

theorem change_declared {name : String} {members : List (String × Datum)}
    (distinct : (members.map (·.1)).Nodup) :
    (Section.declared name members).change none =
      some (.table .declared (Members.ofValues members)) := by
  simp [Section.declared, Section.change, Section.apply, Section.head, Members.changeAt,
    Members.declareTable, Members.assignAll_simple distinct, Table.lookup_insertEntry]

theorem nodup_generationTable (settings : GenerationSettings) :
    ((generationTable settings).memberData.map (·.1)).Nodup := by
  obtain ⟨shell, ignoreCase, preamble⟩ := settings
  cases preamble <;> simp [generationTable, PrintedTable.memberData]

theorem nodup_loggingTable (settings : LoggingSettings) :
    ((loggingTable settings).memberData.map (·.1)).Nodup := by
  simp [loggingTable, PrintedTable.memberData]

/-- The groups of a member of the root table. -/
theorem ofMember_tables (settings : Settings) (name : String) :
    Section.ofMember name (settings.tables.map PrintedTable.group) =
      (if name = "generate" then [(generationTable settings.generation).group] else []) ++
        (if name = "providers" then (providerTables settings.providers).map PrintedTable.group
          else []) ++
        (if name = "logging" then [(loggingTable settings.logging).group] else []) := by
  have providers : Section.ofMember name ((providerTables settings.providers).map
      PrintedTable.group) = if name = "providers" then
        (providerTables settings.providers).map PrintedTable.group else [] := by
    split
    · rename_i same
      refine List.filter_eq_self.mpr fun part member => ?_
      exact decide_eq_true ((head_of_mem_providerTables member).trans same.symm)
    · rename_i other
      refine List.filter_eq_nil_iff.mpr fun part member => ?_
      rw [decide_eq_true_eq]
      exact fun same => other (same.symm.trans (head_of_mem_providerTables member))
  have generation : (generationTable settings.generation).group.head = "generate" := rfl
  have logging : (loggingTable settings.logging).group.head = "logging" := rfl
  rw [← providers, tables, List.map_append, List.map_cons, Section.ofMember, List.filter_append,
    List.filter_cons, List.map_singleton, List.filter_cons, generation, logging]
  by_cases first : name = "generate" <;> by_cases last : name = "logging" <;>
    simp [first, last, eq_comm, Section.ofMember]

/-- Every member of the root table is made by the groups of its own. -/
theorem changeAll_tables (settings : Settings) (name : String) :
    Section.changeAll (Section.ofMember name (settings.tables.map PrintedTable.group)) none =
      some (settings.rootDraft name) := by
  have generation : (generationTable settings.generation).group.change none = _ :=
    change_declared (nodup_generationTable settings.generation)
  have logging : (loggingTable settings.logging).group.change none = _ :=
    change_declared (nodup_loggingTable settings.logging)
  have providers := changeAll_providerTables settings.providers
  rw [ofMember_tables, rootDraft]
  by_cases first : name = "generate"
  · subst first
    exact Section.changeAll_cons generation []
  · by_cases last : name = "logging"
    · subst last
      exact Section.changeAll_cons logging []
    · by_cases middle : name = "providers"
      · subst middle
        simpa using providers
      · simp only [first, last, middle, if_false]
        rfl

/-- The root table of settings, by name. -/
def rootTable (settings : Settings) : Members :=
  [("generate", .table .declared (Members.ofValues (generationTable settings.generation).memberData)),
    ("logging", .table .declared (Members.ofValues (loggingTable settings.logging).memberData)),
    ("providers", providersDraft settings.providers)]

/-- The groups of the tables make up the root table. -/
theorem foldlM_tables (settings : Settings) :
    (settings.tables.map PrintedTable.group).foldlM (fun root part => part.apply root) [] =
      some settings.rootTable := by
  obtain ⟨built, applied, increasing, holds⟩ := foldlM_apply .nil settings.changeAll_tables
  have names : ["generate", "logging", "providers"].Pairwise (· < ·) := by decide
  have ordered : settings.rootTable.Pairwise fun earlier later => earlier.1 < later.1 :=
    List.pairwise_map.mp (show (settings.rootTable.map (·.1)).Pairwise (· < ·) from names)
  rw [applied]
  refine congrArg some (Table.eq_of_lookup_eq increasing ordered fun name => ?_)
  rw [holds, rootDraft, rootTable]
  simp only [List.lookup_cons, List.lookup_nil, beq_eq_decide]
  by_cases first : name = "generate" <;> by_cases last : name = "logging" <;>
    by_cases middle : name = "providers" <;> simp [first, last, middle]

theorem decode_rootTable (settings : Settings) :
    decode settings.rootTable.datum = .ok settings := by
  have generation := decode_generationTable settings.generation
  have logging := decode_loggingTable settings.logging
  have providers := decodeProviders_draft settings.providers
  have said : settings.rootTable.datum = .record
      [("generate", tableDatum (generationTable settings.generation).memberData),
        ("logging", tableDatum (loggingTable settings.logging).memberData),
        ("providers", (providersDraft settings.providers).datum)] true := by
    rw [← Members.datum_ofValues, ← Members.datum_ofValues]
    rfl
  rw [said, decode, Datum.asFields_record]
  simp [change, generation, logging, providers, Except.map, bind, Except.bind, pure, Except.pure]

/-- **Settings survive being written.** Reading the text of any settings gives equal settings,
whatever the names and functions of its providers and its path of a preamble are. -/
theorem ofText_text (settings : Settings) : ofText settings.text = .ok settings := by
  have readable : ∀ table ∈ settings.tables, table.IsReadable :=
    fun _ member => isReadable_of_mem_tables member
  have read := PrintedTable.read_document readable settings.foldlM_tables
  have written : settings.text = String.ofList (PrintedTable.document settings.tables) := rfl
  rw [ofText, written, Toml.decode, String.toList_ofList, read]
  exact congrArg (Except.mapError SettingsFault.invalidFormat) settings.decode_rootTable

end Settings

end CommandCompletion
