import CommandCompletion.Proofs.Program.Generating
import CommandCompletion.Proofs.Settings.Bindings

/-!
# The bindings that reach a script

Settings that cannot be used are replaced by the defaults, so the settings in effect always
pass the check (`check_of_settingsFor`). Every script that is written with them takes its
functions from their bindings: behind each slot in its table of providers stands the function
of the user, or else the built-in one, and all of these names are usable
(`emitted_bindings_usable`).

Nothing is asked of the files here. They may be any store that answers in any way: an action
that succeeds has come through all of its steps (`outcome_bind_eq_ok`), whatever they read.
-/

set_option autoImplicit false

namespace CommandCompletion

/-! ## The table of providers -/

namespace Script

/-- A table of providers says of every slot the function that its provider has, and nothing else.
All the functions in it are names without blanks. -/
structure TableText.SaysFunctions (text : TableText) (index : Index)
    (function? : String → Option String) : Prop where
  distinct : text.keys.Nodup
  paired : text.keys.length = text.values.length
  slots : ∀ rowKey ∈ text.keys, ∃ key slot, index.hasKey key = true ∧
    rowKey = (slotKey key slot).toList
  usable : ∀ value ∈ text.values, value ≠ [] ∧ ∀ c ∈ value, Text.isBlank c = false
  held : ∀ key slot, index.hasKey key = true →
    text.held? (slotKey key slot) = ((index.provider key slot).bind function?).map ([·])

/-- A script for an index, with a section of tables behind its first lines and the built-in
functions, among which the table of providers says what functions providers have. -/
def EmitsFunctions (script : String) (index : Index) (shell : Shell) (options : ScriptOptions)
    (function? : String → Option String) : Prop :=
  ∃ behind tables text,
    script.toList = (emitterFor shell).header (options.program.getD index.root) ++ ['\n'] ++
      (emitterFor shell).builtinFunctions ++ ['\n'] ++ tableSection index shell options ++ behind ∧
    readSection shell (tableSection index shell options) = some tables ∧
    tables.find? (·.name = providersName index shell options.program) = some text ∧
    text.SaysFunctions index function?

/-- The rows of the providers, as they are written, if every name is usable. -/
theorem saysFunctions_written {root : Command} {index : Index} (holds : index.Holds root)
    (named : Text.Word root.name) {shell : Shell} {bindings : Bindings}
    (usable : ∀ provider function, bindings.resolve provider shell = some function →
      Settings.isUsable function = true) (stem : List Char) :
    (ScriptTable.written stem ⟨"providers", providerRows index shell bindings⟩).SaysFunctions
      index (bindings.resolve · shell) where
  distinct := (written_lists (nodup_providerRows index shell bindings) stem).1
  paired := (written_lists (nodup_providerRows index shell bindings) stem).2
  slots := by
    intro rowKey member
    obtain ⟨row, listed, rfl⟩ := List.mem_map.mp member
    obtain ⟨key, slot, _, _, known, _, _, rfl⟩ := (mem_providerRows_iff holds named).mp listed
    exact ⟨key, slot, known, rfl⟩
  usable := by
    intro value member
    obtain ⟨row, listed, rfl⟩ := List.mem_map.mp member
    obtain ⟨_, _, _, function, _, _, resolved, rfl⟩ := (mem_providerRows_iff holds named).mp listed
    obtain ⟨nonempty, unblank⟩ := Settings.isUsable_iff.mp (usable _ function resolved)
    refine ⟨?_, unblank⟩
    intro empty
    exact nonempty (String.toList_eq_nil_iff.mp empty)
  held := by
    intro key slot known
    have row := lookup_functions (lookup_boundProviders holds named shell bindings known slot)
    cases bound : (index.provider key slot).bind (bindings.resolve · shell) with
    | none =>
      rw [bound] at row
      exact held?_written_none row stem
    | some function =>
      obtain ⟨provider, _, resolved⟩ := Option.bind_eq_some_iff.mp bound
      obtain ⟨nonempty, line⟩ := Settings.oneLine_of_isUsable (usable provider function resolved)
      rw [bound] at row
      rw [held?_written row (List.forall_mem_singleton.mpr line) stem]
      simp [nonempty]

/-- A script with the bindings of settings that pass the check. -/
theorem emitsFunctions_render {root : Command} {index : Index} (built : root.index = .ok index)
    {settings : Settings} (accepted : settings.check = .ok ()) (description : Description)
    (shell : Shell) {options : ScriptOptions} (bound : options.bindings = settings.bindings) :
    EmitsFunctions (render index description shell options) index shell options fun provider =>
      (Bindings.resolve settings.providers provider shell).or
        (Bindings.builtin.resolve provider shell) := by
  obtain ⟨named, holds⟩ := Command.index_ok built
  obtain ⟨behind, text⟩ := exists_behind_tables index description shell options
  have names := Plan.named_of index shell options.program options.bindings
  have usable : ∀ provider function, options.bindings.resolve provider shell = some function →
      Settings.isUsable function = true := by
    rw [bound]
    intro provider function resolved
    exact Settings.isUsable_of_resolve accepted resolved
  have held := saysFunctions_written holds named usable
    (Plan.functionStem shell (options.program.getD index.root)).toList
  have resolves : (options.bindings.resolve · shell) = fun provider =>
      (Bindings.resolve settings.providers provider shell).or
        (Bindings.builtin.resolve provider shell) := by
    funext provider
    rw [bound, Settings.resolve_bindings]
  rw [resolves] at held
  exact ⟨behind, _, _, text, readSection_tables shell names, find?_written rfl _, held⟩

end Script

namespace Program

/-! ## Actions on any store -/

section Stores

variable {σ α : Type}

theorem eq_ok_of_mapError {ε : Type} {answer : Except ε α} {cause : ε → Failure} {value : α}
    (succeeds : answer.mapError cause = .ok value) : answer = .ok value := by
  cases answer with
  | ok other =>
    cases succeeds
    rfl
  | error fault => cases succeeds

variable [FileStore (StateM σ)]

/-- **The settings in effect pass the check**, as those that do not are replaced by the defaults. -/
theorem check_of_settingsFor {state after : σ} {request : Request} {settings : Settings}
    {warning : String}
    (loaded : outcome state (settingsFor request) = (.ok (settings, warning), after)) :
    settings.check = .ok () := by
  obtain ⟨read, _, _, adjusted⟩ := outcome_bind_eq_ok loaded
  cases checked : read.check with
  | ok accepted =>
    rw [checked] at adjusted
    cases adjusted
    rw [Settings.check_congr (show (adjust request read).providers = read.providers from rfl),
      checked]
  | error fault =>
    rw [checked] at adjusted
    cases adjusted
    exact (Settings.check_congr rfl).trans (rfl : ({} : Settings).check = .ok ())

/-- An index comes from a specification that can be decoded and is accepted. -/
theorem exists_document_of_loadIndex {state after : σ} {path : String} {index : Index}
    (loaded : outcome state (loadIndex path) = (.ok index, after)) :
    ∃ text document, CommandDocument.ofText (CommandDocument.formatOf path) text = .ok document ∧
      document.arena.command.index = .ok index := by
  obtain ⟨document, _, read, built⟩ := outcome_bind_eq_ok loaded
  obtain ⟨text, _, _, decoded⟩ := outcome_bind_eq_ok read
  rw [gives_ofExcept, Prod.mk.injEq] at built decoded
  exact ⟨text, document, eq_ok_of_mapError decoded.1, eq_ok_of_mapError built.1⟩

end Stores

/-- **Only usable bindings reach a script.** Whatever the files hold, if the settings for a request
can be loaded, they pass the check. With them, the script for a specification comes from an index
that was accepted, and so does the script for the program itself. In each of the two the table of
providers says of every slot the function of the user for the target shell, or else the built-in
one; a slot with neither has no row, and all names in the table are free of blanks and not empty. -/
theorem emitted_bindings_usable {σ : Type} [FileStore (StateM σ)] {request : Request}
    {before after : σ} {settings : Settings} {warning : String}
    (loaded : outcome before (settingsFor request) = (.ok (settings, warning), after)) :
    let function? := fun (shell : Shell) provider =>
      (Bindings.resolve settings.providers provider shell).or
        (Bindings.builtin.resolve provider shell)
    settings.check = .ok () ∧
    (∀ (state later : σ) path shell program preamble ignoreCase script,
      outcome state (generate settings path shell program preamble ignoreCase) =
        (.ok script, later) →
      let target := shell.getD settings.generation.shell
      ∃ text document index code,
        CommandDocument.ofText (CommandDocument.formatOf path) text = .ok document ∧
        document.arena.command.index = .ok index ∧
        let options : ScriptOptions := { program, preamble := code, bindings := settings.bindings }
        script = Script.render index (description settings ignoreCase) target options ∧
        Script.EmitsFunctions script index target options (function? target)) ∧
    ∀ shell script, completionScript settings shell = .ok script →
      ∃ index, Program.index = .ok index ∧
        let options : ScriptOptions := { bindings := settings.bindings }
        script = Script.render index (description settings false) shell options ∧
        Script.EmitsFunctions script index shell options (function? shell) := by
  intro function?
  have accepted := check_of_settingsFor loaded
  refine ⟨accepted, ?specification, ?own⟩
  case specification =>
    intro state later path shell program preamble ignoreCase script generated target
    obtain ⟨index, _, found, rest⟩ := outcome_bind_eq_ok generated
    obtain ⟨code, _, _, written⟩ := outcome_bind_eq_ok rest
    obtain ⟨text, document, decoded, built⟩ := exists_document_of_loadIndex found
    obtain rfl : _ = script := Except.ok.inj (Prod.mk.inj written).1
    exact ⟨text, document, index, code, decoded, built, rfl,
      Script.emitsFunctions_render built accepted _ target rfl⟩
  case own =>
    intro shell script generated
    obtain ⟨index, built, written⟩ := bind_eq_ok_iff.mp generated
    obtain rfl : _ = script := Except.ok.inj written
    have accepts := eq_ok_of_mapError built
    exact ⟨index, accepts, rfl, Script.emitsFunctions_render accepts accepted _ shell rfl⟩

/-- Settings that bind a function of the user's own to a built-in provider, in one shell. -/
def ownBindings : String := "[providers.file-completer]\nbash = \"_own_files\"\n"

/-- What these settings say. -/
def ownSettings : Settings :=
  { providers := Table.empty.insert "file-completer" { bash := some "_own_files" } }

/-- A directory with the settings in it. -/
def ownTree : FileTree where
  entries := [(["work"], .directory), (["work", "own.toml"], .file ownBindings.toUTF8)]
  working := ["work"]
  home := "/home"

theorem ownTree_settingsFor : outcome ownTree
    (settingsFor { settingsPath := some "own.toml", task := .completion .bash }) =
      (.ok (ownSettings, ""), ownTree) := by
  have text : ownTree.read "own.toml" = .ok ownBindings :=
    FileTree.read_of_file (rfl : ownTree.locate "own.toml" = .ok ["work", "own.toml"]) rfl
  have parsed : (Settings.ofText ownBindings).toOption = some ownSettings := by decide +kernel
  have first := gives_readText ownTree "own.toml"
  rw [text] at first
  have read : Gives ownTree (Settings.read "own.toml") (.ok ownSettings) := by
    refine first.bind_ok ?_
    cases found : Settings.ofText ownBindings with
    | ok settings =>
      rw [found] at parsed
      cases parsed
      exact gives_pure _
    | error fault =>
      rw [found] at parsed
      cases parsed
  have loaded : Gives ownTree (Settings.load (some "own.toml")) (.ok ownSettings) :=
    (gives_pathExists "own.toml").bind_ok read
  exact loaded.bind_ok rfl

theorem emitted_bindings_usable_ownTree :
    outcome ownTree (settingsFor { settingsPath := some "own.toml", task := .completion .bash }) =
        (.ok (ownSettings, ""), ownTree) ∧
      ∃ script index tables text, completionScript ownSettings .bash = .ok script ∧
        Script.readSection .bash
          (Script.tableSection index .bash { bindings := ownSettings.bindings }) = some tables ∧
        text ∈ tables ∧ text.held? "tabgen_inspect pos_0" = some ["_own_files"] := by
  obtain ⟨_, _, own⟩ := emitted_bindings_usable ownTree_settingsFor
  let observe (index : Index) : Bool × Option String :=
    (index.hasKey "tabgen_inspect", index.provider "tabgen_inspect" "pos_0")
  have evaluated : interface.specification.index.toOption.map observe =
      some (true, some "file-completer") := by
    decide +kernel
  obtain ⟨built, accepted⟩ := Command.accepted_of_isSome (by
    rw [← Option.isSome_map, evaluated, Option.isSome_some])
  have generated : completionScript ownSettings .bash = .ok (Script.render built
      (description ownSettings false) .bash { bindings := ownSettings.bindings }) := by
    rw [completionScript, Program.index, accepted]
    rfl
  obtain ⟨index, made, _, _, tables, text, _, reads, found, functions⟩ := own .bash _ generated
  obtain rfl : index = built := Except.ok.inj (made.symm.trans accepted)
  have seen := Prod.mk.inj (Command.index_observed accepted observe evaluated)
  refine ⟨ownTree_settingsFor, _, index, tables, text, generated, reads,
    List.mem_of_find?_eq_some found, ?_⟩
  refine (functions.held "tabgen_inspect" "pos_0" seen.1).trans ?_
  rw [seen.2]
  decide +kernel

end Program

end CommandCompletion
