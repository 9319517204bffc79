import CommandCompletion.Proofs.Script.Rows

/-!
# The tables of a script answer like the index

The tables that are written into a script are all it knows of the specification. Read back
with the quoting rules of the shell, they say of every command and every slot what the
index says: the subcommands, the flags, the choices that are not empty, the arity, and the
function that is bound to the provider in that shell (`tables_answer`).

Nothing the index holds can spoil this. Its keys hold no space, so rows of different slots
have different keys, and its names and choices hold no newline, so a list falls apart into
its items again. The functions of providers come from elsewhere; for them this has to be
asked.
-/

set_option autoImplicit false

namespace CommandCompletion.Script

/-! ## What the tables should say -/

/-- The table section of a script. -/
def tableSection (index : Index) (shell : Shell) (options : ScriptOptions) : List Char :=
  (emitterFor shell).tables (Plan.of index shell options.program options.bindings)

/-- Tables, named with a stem, that say of every known command what an index says, and of
providers what is bound to them in a shell. -/
structure AnswerLike (index : Index) (shell : Shell) (bindings : Bindings) (stem : List Char)
    (tables : List TableText) : Prop where
  subcommands : ∀ key, index.hasKey key = true →
    heldIn? tables (tableName stem "subcommands") key = some (index.subcommands key)
  flags : ∀ key, index.hasKey key = true →
    heldIn? tables (tableName stem "options") key = some (index.flags key)
  /-- A slot without choices may have no row or an empty one. -/
  choices : ∀ key slot, index.hasKey key = true →
    (heldIn? tables (tableName stem "choices") (key ++ " " ++ slot)).getD [] =
      (index.choices key slot).filter (· ≠ "")
  arities : ∀ key slot, index.hasKey key = true →
    heldIn? tables (tableName stem "arity") (key ++ " " ++ slot) =
      (index.arity key slot).map fun arity => [arity.text]
  bound : ∀ key slot function, index.hasKey key = true →
    (index.provider key slot).bind (bindings.resolve · shell) = some function →
    OneLine function →
      heldIn? tables (tableName stem "providers") (key ++ " " ++ slot) = some [function]
  unbound : ∀ key slot, index.hasKey key = true →
    (index.provider key slot).bind (bindings.resolve · shell) = none →
      heldIn? tables (tableName stem "providers") (key ++ " " ++ slot) = none

/-! ## The tables of a plan -/

/-- Under a known key stands the list that a query gives. -/
theorem lookup_lists {index : Index} {key : String} (known : index.hasKey key = true)
    (part : IndexEntry → List String) :
    (index.entries.map part).entries.lookup key = some (((index.entry? key).map part).getD []) := by
  obtain ⟨own, found⟩ := Table.contains_iff.mp known
  have image : (index.entries.map part).get? key = some (part own) := by
    rw [Table.get?_map, found, Option.map_some]
  rw [Index.entry?, Index.resolve_of_hasKey known, found, Option.map_some, Option.getD_some]
  exact image

/-- A function stands in its row as a list of one item. -/
theorem lookup_functions {functions : Table String} {key : String} {function : Option String}
    (found : functions.get? key = function) :
    (functions.entries.map fun row => (row.1, [row.2])).lookup key = function.map ([·]) :=
  (Table.get?_map ([·]) functions key).trans (congrArg (Option.map ([·])) found)

section Holds

variable {root : Command} {index : Index} (holds : index.Holds root)
  (named : Text.Word root.name)
include holds named

theorem word_of_hasKey {key : String} (known : index.hasKey key = true) : Text.Word key := by
  obtain ⟨place, rfl⟩ := holds.hasKey_iff.mp known
  exact holds.word_key named place

/-- Each of the five tables of an index is keyed by the keys of the commands. -/
theorem word_of_mem {α : Type} (part : IndexEntry → α) :
    ∀ key ∈ (index.entries.map part).keys, Text.Word key := by
  intro key member
  rw [Table.keys_map] at member
  have known : index.hasKey key = true := holds.hasKey_iff.mpr (holds.mem_keys_iff.mp member)
  exact word_of_hasKey holds named known

/-- A look-up in the rows about slots asks the entry of the command. -/
theorem lookup_slots {α β : Type} (slots : IndexEntry → Table α) (part : α → Option β)
    {key : String} (known : index.hasKey key = true) (slot : String) :
    (slotPairs (index.entries.map slots) part).lookup (slotKey key slot) =
      ((index.entry? key).bind fun own => (slots own).get? slot).bind part := by
  have words := word_of_mem holds named slots
  rw [lookup_slotPairs part words (word_of_hasKey holds named known), Table.get?_map,
    Index.entry?, Index.resolve_of_hasKey known, Option.bind_map]
  rfl

/-- Sorting the functions of providers by their keys leaves them in the order of the commands and
slots. -/
theorem entries_boundProviders (shell : Shell) (bindings : Bindings) :
    (Plan.boundProviders index shell bindings).entries =
      slotPairs index.providerTable (bindings.resolve · shell) := by
  have increasing := increasing_slotPairs (bindings.resolve · shell)
    (word_of_mem holds named (·.providers))
  exact Table.entries_ofList (List.Perm.refl _) (List.pairwise_map.mpr increasing)

theorem lookup_boundProviders (shell : Shell) (bindings : Bindings) {key : String}
    (known : index.hasKey key = true) (slot : String) :
    (Plan.boundProviders index shell bindings).get? (slotKey key slot) =
      (index.provider key slot).bind (bindings.resolve · shell) := by
  rw [Table.get?, entries_boundProviders holds named]
  exact lookup_slots holds named (·.providers) (bindings.resolve · shell) known slot

/-- The rows of every table of a script stand in increasing order of their keys. -/
theorem increasing_rows (shell : Shell) (bindings : Bindings) :
    ∀ table ∈ Plan.tablesOf index shell bindings,
      table.rows.Pairwise fun earlier later => earlier.1 < later.1 := by
  have choices := increasing_slotPairs (fun values => some (id values))
    (word_of_mem holds named (·.choices))
  have arities := increasing_slotPairs (fun arity : Arity => some [arity.text])
    (word_of_mem holds named (·.arities))
  have providers : ((Plan.boundProviders index shell bindings).entries.map
      fun row => (row.1, [row.2])).Pairwise fun earlier later => earlier.1 < later.1 :=
    List.pairwise_map.mpr (Plan.boundProviders index shell bindings).increasing
  rw [← slotRows_eq_slotPairs] at choices arities
  simp only [Plan.tablesOf, List.forall_mem_cons]
  exact ⟨index.subcommandTable.increasing, index.flagTable.increasing, choices, providers, arities,
    List.forall_mem_nil _⟩

/-! ## Answers -/

/-- The tables of a plan, as they are written, answer like the index. -/
theorem written_answerLike (shell : Shell) (bindings : Bindings) (stem : List Char) :
    AnswerLike index shell bindings stem
      ((Plan.tablesOf index shell bindings).map (·.written stem)) where
  subcommands := by
    intro key known
    obtain ⟨place, rfl⟩ := holds.hasKey_iff.mp known
    have lines := fun name listed => oneLine_of_word (holds.word_subcommands place name listed)
    exact heldIn?_row rfl (lookup_lists known (·.subcommands)) lines stem
  flags := by
    intro key known
    obtain ⟨place, rfl⟩ := holds.hasKey_iff.mp known
    have lines := fun flag listed => oneLine_of_word (holds.word_flags place flag listed)
    exact heldIn?_row rfl (lookup_lists known (·.flags)) lines stem
  choices := by
    intro key slot known
    have row := lookup_slots holds named (·.choices) (fun values => some (id values)) known slot
    rw [← slotRows_eq_slotPairs] at row
    -- Choices may be empty texts, which are lost among the lines.
    refine (congrArg (Option.getD · []) (heldIn?_written rfl stem _)).trans ?_
    cases given : (index.entry? key).bind fun own => own.choices.get? slot with
    | none =>
      rw [given] at row
      have missing : index.choices key slot = [] := by rw [Index.choices, given, Option.getD_none]
      rw [missing]
      exact congrArg (Option.getD · []) (held?_written_none row stem)
    | some values =>
      rw [given] at row
      obtain ⟨place, rfl⟩ := holds.hasKey_iff.mp known
      have plain := holds.plain_choices place slot
      have same : index.choices place.key slot = values := by
        rw [Index.choices, given, Option.getD_some]
      rw [same] at plain ⊢
      have lines := fun value listed => (plain value listed).newline_notMem
      exact congrArg (Option.getD · []) (held?_written row lines stem)
  arities := by
    intro key slot known
    have row := lookup_slots holds named (·.arities) (fun arity => some [arity.text]) known slot
    rw [← slotRows_eq_slotPairs] at row
    cases given : index.arity key slot with
    | none =>
      rw [Index.arity] at given
      rw [given] at row
      exact heldIn?_no_row rfl row stem
    | some arity =>
      rw [Index.arity] at given
      rw [given] at row
      exact heldIn?_row rfl row (List.forall_mem_singleton.mpr (oneLine_text arity)) stem
  bound := by
    intro key slot function known given line
    have row := lookup_boundProviders holds named shell bindings known slot
    rw [given] at row
    exact heldIn?_row rfl (lookup_functions row) (List.forall_mem_singleton.mpr line) stem
  unbound := by
    intro key slot known missing
    have row := lookup_boundProviders holds named shell bindings known slot
    rw [missing] at row
    exact heldIn?_no_row rfl (lookup_functions row) stem

end Holds

/-! ## The script as a whole -/

theorem written_lists {table : ScriptTable} (distinct : (table.rows.map (·.1)).Nodup)
    (stem : List Char) : (table.written stem).keys.Nodup ∧
      (table.written stem).keys.length = (table.written stem).values.length := by
  have keys : (table.written stem).keys = (table.rows.map (·.1)).map String.toList := by
    rw [List.map_map]
    rfl
  constructor
  · rw [keys]
    exact distinct.map fun _ _ same => String.toList_inj.mp same
  · simp [ScriptTable.written]

theorem exists_behind_tables (index : Index) (description : Description) (shell : Shell)
    (options : ScriptOptions) : ∃ behind,
      (render index description shell options).toList =
        (emitterFor shell).header (options.program.getD index.root) ++ ['\n'] ++
          (emitterFor shell).builtinFunctions ++ ['\n'] ++ tableSection index shell options ++
          behind := by
  rw [render, String.toList_ofList, write]
  simp only [List.append_assoc]
  exact ⟨_, rfl⟩

/-- **The tables of a script answer like the index.** Behind the first lines of a script and the
built-in functions stands a section that reads back, by the rules of its shell, as tables in which
no key occurs twice and every key has a value. They hold for every command its subcommands and
flags, and for every text as a slot its choices, its arity and the function bound to its
provider. -/
theorem tables_answer {root : Command} {index : Index} (built : root.index = .ok index)
    (description : Description) (shell : Shell) (options : ScriptOptions) :
    (∃ behind, (render index description shell options).toList =
        (emitterFor shell).header (options.program.getD index.root) ++ ['\n'] ++
          (emitterFor shell).builtinFunctions ++ ['\n'] ++ tableSection index shell options ++
          behind) ∧
      ∃ tables, readSection shell (tableSection index shell options) = some tables ∧
        (∀ table ∈ tables, table.keys.Nodup ∧ table.keys.length = table.values.length) ∧
        AnswerLike index shell options.bindings
          (Plan.functionStem shell (options.program.getD index.root)).toList tables := by
  obtain ⟨named, holds⟩ := Command.index_ok built
  have names := Plan.named_of index shell options.program options.bindings
  refine ⟨exists_behind_tables index description shell options, _,
    readSection_tables shell names, ?_, written_answerLike holds named shell options.bindings _⟩
  intro text member
  obtain ⟨table, listed, rfl⟩ := List.mem_map.mp member
  have increasing := increasing_rows holds named shell options.bindings table listed
  exact written_lists (List.pairwise_map.mpr (increasing.imp String.ne_of_lt)) _

theorem tables_answer_sampleProgram : ∃ index tables, sampleProgram.index = .ok index ∧
    readSection .fish (tableSection index .fish {}) = some tables ∧
    heldIn? tables (tableName "__tabgen_prog".toList "options") "prog" =
      some ["-v", "--verbose", "-q", "--color"] ∧
    heldIn? tables (tableName "__tabgen_prog".toList "providers") ("prog" ++ " " ++ "pos_0") =
      some ["__tabgen_files"] := by
  obtain ⟨index, built⟩ := sampleProgram_accepted
  obtain ⟨_, tables, read, _, answers⟩ := tables_answer built .standard .fish {}
  have root : index.root = "prog" := Command.index_observed built (·.root) (by decide +kernel)
  have known : index.hasKey "prog" = true :=
    Command.index_observed built (·.hasKey "prog") (by decide +kernel)
  have flags : index.flags "prog" = ["-v", "--verbose", "-q", "--color"] :=
    Command.index_observed built (·.flags "prog") (by decide +kernel)
  have provider : index.provider "prog" "pos_0" = some "file-completer" :=
    Command.index_observed built (·.provider "prog" "pos_0") (by decide +kernel)
  have stem : (Plan.functionStem .fish (Option.getD none index.root)).toList =
      "__tabgen_prog".toList := by
    rw [root]
    decide +kernel
  rw [stem] at answers
  refine ⟨index, tables, built, read, ?_, ?_⟩
  · rw [answers.flags "prog" known, flags]
  · refine answers.bound "prog" "pos_0" "__tabgen_files" known ?_ ⟨by decide, by decide⟩
    rw [provider]
    decide +kernel

end CommandCompletion.Script
