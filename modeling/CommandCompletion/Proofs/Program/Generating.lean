import CommandCompletion.Program
import CommandCompletion.Proofs.Files.Writing
import CommandCompletion.Proofs.Index.Content

/-!
# Requests on a file tree

Everything that a request needs is read before anything is written. So a request that fails
on the way leaves every file as it was and prints nothing, and what is printed or written
is a whole text (`generation_all_or_nothing`).

A script is made from two things, the index of a specification and the caller's code.
`Gathers` says what gathering them comes to: the specification is read, decoded and turned
into an index, then the file with the caller's code is read, and the first step that fails
gives the failure of the request.

Only a script that goes to a file is written at all. That anything else reads only is seen
step by step: every operation on files but one gives its answer on a tree and leaves the
tree as it is (`Gives`), and so does a chain of such operations (`Reads.bind`). How chains go
on does not depend on what the files are kept in (`outcome_bind`).
-/

set_option autoImplicit false

namespace CommandCompletion.Program

/-! ## Actions -/

section Actions

variable {σ α β : Type}

/-- What an action comes to on a store of files in some state, and the state it leaves behind. -/
def outcome (state : σ) (action : ExceptT Failure (StateM σ) α) : Except Failure α × σ :=
  action.run.run state

/-- An action gives an answer and leaves the store as it is. -/
def Gives (state : σ) (action : ExceptT Failure (StateM σ) α) (answer : Except Failure α) : Prop :=
  outcome state action = (answer, state)

/-- An action gives some answer and leaves the store as it is. -/
def Reads (state : σ) (action : ExceptT Failure (StateM σ) α) : Prop :=
  ∃ answer, Gives state action answer

variable {state after : σ} {action : ExceptT Failure (StateM σ) α}
  {next : α → ExceptT Failure (StateM σ) β}

theorem Gives.reads {answer : Except Failure α} (gives : Gives state action answer) :
    Reads state action :=
  ⟨answer, gives⟩

theorem gives_pure (value : α) : Gives state (pure value) (.ok value) := rfl

theorem gives_throw (cause : Failure) :
    Gives state (throw cause : ExceptT Failure (StateM σ) α) (.error cause) := rfl

theorem gives_ofExcept (answer : Except Failure α) :
    Gives state (MonadExcept.ofExcept answer) answer := by
  cases answer <;> rfl

/-- After an answer the next action goes on, in the state that is left behind. -/
theorem outcome_bind {value : α} (first : outcome state action = (.ok value, after)) :
    outcome state (action >>= next) = outcome after (next value) := by
  rw [outcome] at first
  rw [outcome, ExceptT.run_bind, StateT.run_bind, first]
  rfl

/-- After a failure nothing goes on. -/
theorem outcome_bind_error {cause : Failure}
    (first : outcome state action = (.error cause, after)) :
    outcome state (action >>= next) = (.error cause, after) := by
  rw [outcome] at first
  rw [outcome, ExceptT.run_bind, StateT.run_bind, first]
  rfl

/-- A chain that succeeds has come through both of its parts. -/
theorem outcome_bind_eq_ok {final : β}
    (succeeds : outcome state (action >>= next) = (.ok final, after)) :
    ∃ value middle, outcome state action = (.ok value, middle) ∧
      outcome middle (next value) = (.ok final, after) := by
  cases first : outcome state action with
  | mk answer middle =>
    cases answer with
    | ok value => exact ⟨value, middle, rfl, (outcome_bind first).symm.trans succeeds⟩
    | error cause => cases (outcome_bind_error first).symm.trans succeeds

theorem Gives.bind_ok {value : α} {answer : Except Failure β}
    (first : Gives state action (.ok value))
    (rest : Gives state (next value) answer) : Gives state (action >>= next) answer :=
  (outcome_bind first).trans rest

theorem Gives.bind_error {cause : Failure} (first : Gives state action (.error cause)) :
    Gives state (action >>= next) (.error cause) :=
  outcome_bind_error first

/-- A chain of actions that read reads. -/
theorem Reads.bind (first : Reads state action) (rest : ∀ value, Reads state (next value)) :
    Reads state (action >>= next) := by
  obtain ⟨answer, gives⟩ := first
  cases answer with
  | ok value =>
    obtain ⟨answer, rest⟩ := rest value
    exact ⟨answer, gives.bind_ok rest⟩
  | error cause => exact ⟨.error cause, gives.bind_error⟩

end Actions

/-! ## Reading a file tree -/

section Operations

variable {tree : FileTree}

theorem gives_readText (tree : FileTree) (path : String) :
    Gives tree (FileStore.readText path) ((tree.read path).mapError .file) := rfl

theorem gives_pathExists (path : String) :
    Gives tree (FileStore.pathExists path) (.ok (tree.pathExists path)) := rfl

theorem gives_list (path : String) : Gives tree (FileStore.list path) (.ok (tree.list path)) := rfl

theorem gives_home : Gives tree FileStore.home (.ok (some tree.home)) := rfl

theorem gives_settingsDirectory :
    Gives tree FileStore.settingsDirectory (.ok (some (Path.join tree.home ".config"))) := rfl

end Operations

/-! ## Settings -/

section SettingsFiles

variable (tree : FileTree)

theorem reads_defaultPath :
    Reads tree (Settings.defaultPath : ExceptT Failure (StateM FileTree) String) :=
  ⟨_, gives_settingsDirectory.bind_ok (gives_pure _)⟩

theorem reads_settings (path : String) : Reads tree (Settings.read path) :=
  (gives_readText tree path).reads.bind fun _ => (gives_ofExcept _).reads

theorem reads_load (path : Option String) : Reads tree (Settings.load path) := by
  cases path with
  | some path =>
    refine (gives_pathExists path).reads.bind fun found => ?_
    cases found with
    | true => exact reads_settings tree path
    | false => exact (gives_throw _).reads
  | none =>
    refine (reads_defaultPath tree).bind fun path => ?_
    refine (gives_pathExists path).reads.bind fun found => ?_
    cases found with
    | true => exact reads_settings tree path
    | false => exact (gives_pure _).reads

theorem reads_settingsFor (request : Request) : Reads tree (settingsFor request) := by
  refine (reads_load tree request.settingsPath).bind fun loaded => ?_
  cases loaded.check with
  | ok accepted => exact (gives_pure _).reads
  | error fault => exact (gives_pure _).reads

end SettingsFiles

/-! ## What a script is made from -/

/-- The file with the caller's code: the one that is asked for, or else the one that the settings
name. -/
def preambleFile? (tree : FileTree) (settings : Settings) (asked : Option String) :
    Option String :=
  asked <|> settings.generation.preamble.map (Path.expandHome tree.home)

/-- What loading the index of a specification comes to. -/
inductive LoadsIndex (tree : FileTree) (specification : String) : Except Failure Index → Prop where
  | unreadable {fault : FileFault} (read : tree.read specification = .error fault) :
    LoadsIndex tree specification (.error (.file fault))
  | undecodable {text : String} {fault : DecodingFault}
    (read : tree.read specification = .ok text)
    (decoded : CommandDocument.ofText (CommandDocument.formatOf specification) text =
      .error fault) :
    LoadsIndex tree specification
      (.error (.document (CommandDocument.formatOf specification) fault))
  | unsound {text : String} {document : CommandDocument} {fault : SpecificationFault}
    (read : tree.read specification = .ok text)
    (decoded : CommandDocument.ofText (CommandDocument.formatOf specification) text =
      .ok document)
    (built : document.arena.command.index = .error fault) :
    LoadsIndex tree specification (.error (.specification fault))
  | loaded {text : String} {document : CommandDocument} {index : Index}
    (read : tree.read specification = .ok text)
    (decoded : CommandDocument.ofText (CommandDocument.formatOf specification) text =
      .ok document)
    (built : document.arena.command.index = .ok index) :
    LoadsIndex tree specification (.ok index)

/-- What loading the caller's code comes to. -/
inductive LoadsPreamble (tree : FileTree) (settings : Settings) (asked : Option String) :
    Except Failure (Option String) → Prop where
  | unnamed (unnamed : preambleFile? tree settings asked = none) :
    LoadsPreamble tree settings asked (.ok none)
  | unreadable {file : String} {fault : FileFault}
    (named : preambleFile? tree settings asked = some file)
    (read : tree.read file = .error fault) :
    LoadsPreamble tree settings asked (.error (.file fault))
  | loaded {file text : String} (named : preambleFile? tree settings asked = some file)
    (read : tree.read file = .ok text) :
    LoadsPreamble tree settings asked (.ok (some text))

/-- What gathering the parts of a script comes to: an index and the caller's code, or the failure
of the first step that fails. -/
inductive Gathers (tree : FileTree) (settings : Settings) (specification : String)
    (asked : Option String) : Except Failure (Index × Option String) → Prop where
  | noIndex {cause : Failure} (index : LoadsIndex tree specification (.error cause)) :
    Gathers tree settings specification asked (.error cause)
  | noPreamble {index : Index} {cause : Failure}
    (loaded : LoadsIndex tree specification (.ok index))
    (preamble : LoadsPreamble tree settings asked (.error cause)) :
    Gathers tree settings specification asked (.error cause)
  | gathered {index : Index} {code : Option String}
    (loaded : LoadsIndex tree specification (.ok index))
    (preamble : LoadsPreamble tree settings asked (.ok code)) :
    Gathers tree settings specification asked (.ok (index, code))

section Gathering

variable (tree : FileTree) (settings : Settings) (specification : String) (asked : Option String)

theorem exists_loadsIndex : ∃ answer, LoadsIndex tree specification answer := by
  cases read : tree.read specification with
  | error fault => exact ⟨_, .unreadable read⟩
  | ok text =>
    cases decoded : CommandDocument.ofText (CommandDocument.formatOf specification) text with
    | error fault => exact ⟨_, .undecodable read decoded⟩
    | ok document =>
      cases built : document.arena.command.index with
      | error fault => exact ⟨_, .unsound read decoded built⟩
      | ok index => exact ⟨_, .loaded read decoded built⟩

theorem exists_loadsPreamble : ∃ answer, LoadsPreamble tree settings asked answer := by
  cases named : preambleFile? tree settings asked with
  | none => exact ⟨_, .unnamed named⟩
  | some file =>
    cases read : tree.read file with
    | error fault => exact ⟨_, .unreadable named read⟩
    | ok text => exact ⟨_, .loaded named read⟩

/-- Gathering always comes to something. -/
theorem exists_gathers : ∃ answer, Gathers tree settings specification asked answer := by
  obtain ⟨index, loads⟩ := exists_loadsIndex tree specification
  obtain ⟨code, loadsCode⟩ := exists_loadsPreamble tree settings asked
  cases index with
  | error cause => exact ⟨_, .noIndex loads⟩
  | ok index =>
    cases code with
    | error cause => exact ⟨_, .noPreamble loads loadsCode⟩
    | ok code => exact ⟨_, .gathered loads loadsCode⟩

variable {tree settings specification asked}

theorem gives_load {text : String} (read : tree.read specification = .ok text) :
    Gives tree (CommandDocument.load specification)
      ((CommandDocument.ofText (CommandDocument.formatOf specification) text).mapError
        (.document (CommandDocument.formatOf specification))) := by
  have first := gives_readText tree specification
  rw [read] at first
  exact first.bind_ok (gives_ofExcept _)

theorem LoadsIndex.gives {answer : Except Failure Index}
    (loads : LoadsIndex tree specification answer) :
    Gives tree (loadIndex specification) answer := by
  cases loads with
  | unreadable read =>
    have first := gives_readText tree specification
    rw [read] at first
    exact Gives.bind_error first.bind_error
  | undecodable read decoded =>
    have document := gives_load read
    rw [decoded] at document
    exact document.bind_error
  | unsound read decoded built | loaded read decoded built =>
    have document := gives_load read
    rw [decoded] at document
    refine document.bind_ok ?_
    rw [built]
    exact gives_ofExcept _

theorem gives_readSome (path : String) :
    Gives tree (do let text ← FileStore.readText path; return some text)
      (((tree.read path).mapError .file).map some) := by
  have first := gives_readText tree path
  cases read : tree.read path with
  | error fault =>
    rw [read] at first
    exact first.bind_error
  | ok text =>
    rw [read] at first
    exact first.bind_ok (gives_pure _)

theorem gives_loadPreamble (tree : FileTree) (settings : Settings) (asked : Option String) :
    Gives tree (loadPreamble settings asked) (match preambleFile? tree settings asked with
      | some file => ((tree.read file).mapError .file).map some
      | none => .ok none) := by
  cases asked with
  | some path => exact gives_readSome path
  | none =>
    rw [loadPreamble.eq_def, preambleFile?]
    cases settings.generation.preamble with
    | some path => exact gives_home.bind_ok (gives_readSome _)
    | none => exact gives_pure none

theorem LoadsPreamble.gives {answer : Except Failure (Option String)}
    (loads : LoadsPreamble tree settings asked answer) :
    Gives tree (loadPreamble settings asked) answer := by
  have loading := gives_loadPreamble tree settings asked
  cases loads with
  | unnamed unnamed =>
    rw [unnamed] at loading
    exact loading
  | unreadable named read | loaded named read =>
    rw [named] at loading
    simp only [read] at loading
    exact loading

/-- What gathering comes to is what generation comes to. -/
theorem Gathers.gives_error {cause : Failure}
    (gathers : Gathers tree settings specification asked (.error cause)) (shell : Option Shell)
    (program : Option String) (ignoreCase : Bool) :
    Gives tree (generate settings specification shell program asked ignoreCase) (.error cause) := by
  cases gathers with
  | noIndex loads => exact loads.gives.bind_error
  | noPreamble loads preamble => exact loads.gives.bind_ok preamble.gives.bind_error

theorem Gathers.gives_ok {index : Index} {code : Option String}
    (gathers : Gathers tree settings specification asked (.ok (index, code)))
    (shell : Option Shell) (program : Option String) (ignoreCase : Bool) :
    Gives tree (generate settings specification shell program asked ignoreCase)
      (.ok (Script.render index (description settings ignoreCase)
        (shell.getD settings.generation.shell)
        { program, preamble := code, bindings := settings.bindings })) := by
  cases gathers with
  | gathered loads preamble =>
    exact loads.gives.bind_ok (preamble.gives.bind_ok (gives_pure _))

end Gathering

/-! ## Tasks that read -/

section Tasks

variable (tree : FileTree)

theorem reads_loadIndex (path : String) : Reads tree (loadIndex path) := by
  obtain ⟨answer, loads⟩ := exists_loadsIndex tree path
  exact loads.gives.reads

theorem reads_generate (settings : Settings) (path : String) (shell : Option Shell)
    (program preamble : Option String) (ignoreCase : Bool) :
    Reads tree (generate settings path shell program preamble ignoreCase) := by
  have code := (gives_loadPreamble tree settings preamble).reads
  exact (reads_loadIndex tree path).bind fun index => code.bind fun text => (gives_pure _).reads

theorem reads_candidates (settings : Settings) (path : String) (typed : TypedLine)
    (ignoreCase : Bool) : Reads tree (candidates settings path typed ignoreCase) :=
  (reads_loadIndex tree path).bind fun _ =>
    (gives_list _).reads.bind fun _ => (gives_pure _).reads

theorem reads_showSettings (settings : Settings) (path : Option String)
    (showsAll validates : Bool) : Reads tree (showSettings settings path showsAll validates) := by
  have place : Reads tree (path.elim Settings.defaultPath pure) := by
    cases path with
    | none => exact reads_defaultPath tree
    | some path => exact (gives_pure _).reads
  refine place.bind fun path => ?_
  cases validates with
  | false => exact (gives_pure "").reads.bind fun _ => (gives_pure _).reads
  | true =>
    refine (gives_pathExists path).reads.bind fun found => ?_
    cases found with
    | false => exact (gives_pure _).reads.bind fun _ => (gives_pure _).reads
    | true =>
      refine (reads_settings tree path).bind fun read => ?_
      refine (gives_ofExcept _).reads.bind fun _ => ?_
      exact (gives_pure _).reads.bind fun _ => (gives_pure _).reads

/-- Every task reads, unless it writes a script to a file. -/
theorem reads_perform (settings : Settings) {request : Request}
    (printing : ∀ specification shell program preamble ignoreCase output, request.task ≠
      .generate specification shell program preamble ignoreCase (some output)) :
    Reads tree (perform settings request) := by
  unfold perform
  cases task : request.task with
  | generate specification shell program preamble ignoreCase output =>
    refine (reads_generate tree settings specification shell program preamble ignoreCase).bind
      fun script => ?_
    cases output with
    | none => exact (gives_pure _).reads
    | some output => exact absurd task (printing _ _ _ _ _ _)
  | complete specification line ignoreCase words =>
    exact (reads_candidates tree settings specification _ ignoreCase).bind fun _ =>
      (gives_pure _).reads
  | inspect specification =>
    exact (reads_loadIndex tree specification).bind fun _ => (gives_pure _).reads
  | completion shell => exact (gives_ofExcept _).reads
  | config showsAll validates =>
    exact reads_showSettings tree settings request.settingsPath showsAll validates
  | version => exact (gives_pure _).reads

end Tasks

/-! ## Runs -/

section Runs

variable {tree : FileTree} {request : Request}

/-- A run that can load its settings performs the request with them. -/
theorem run_of_gives {settings : Settings} {warning : String}
    (gives : Gives tree (settingsFor request) (.ok (settings, warning))) :
    (run request : StateM FileTree Report).run tree =
      ({ settings := some settings, warning,
          result := (outcome tree (perform settings request)).1 },
        (outcome tree (perform settings request)).2) := by
  rw [Gives, outcome] at gives
  rw [run, StateT.run_bind, gives]
  rfl

theorem run_of_gives_error {cause : Failure}
    (gives : Gives tree (settingsFor request) (.error cause)) :
    (run request : StateM FileTree Report).run tree = ({ result := .error cause }, tree) := by
  rw [Gives, outcome] at gives
  rw [run, StateT.run_bind, gives]
  rfl

/-- A run changes the tree only if performing the request does. -/
theorem run_unchanged (unchanged : ∀ settings, Reads tree (perform settings request)) :
    ((run request : StateM FileTree Report).run tree).2 = tree := by
  obtain ⟨answer, gives⟩ := reads_settingsFor tree request
  cases answer with
  | error cause => rw [run_of_gives_error gives]
  | ok loaded =>
    obtain ⟨result, performed⟩ := unchanged loaded.1
    rw [run_of_gives gives, performed]

end Runs

/-! ## Generation -/

theorem outcome_writeText {tree changed : FileTree} {path text : String}
    (written : tree.write path text = .ok changed) :
    outcome tree (FileStore.writeText path text) = (.ok (), changed) := by
  have stored : (FileStore.write path text : StateM FileTree (Except FileFault Unit)).run tree =
      (.ok (), changed) := by
    simp only [FileStore.write, bind_pure_comp, StateT.run_bind, StateT.run_get, pure_bind,
      written, StateT.run_map, StateT.run_set, map_pure]
    rfl
  rw [outcome, FileStore.writeText, ExceptT.run_mk, StateT.run_bind, stored]
  rfl

section Generation

variable {tree : FileTree} {settings : Settings} {specification : String} {shell : Option Shell}
  {program asked : Option String} {ignoreCase : Bool} {request : Request}

theorem perform_of_failed {output : Option String} {cause : Failure}
    (task : request.task = .generate specification shell program asked ignoreCase output)
    (failed : Gives tree (generate settings specification shell program asked ignoreCase)
      (.error cause)) :
    Gives tree (perform settings request) (.error cause) := by
  unfold perform
  rw [task]
  exact failed.bind_error

variable {script : String}
  (generated : Gives tree (generate settings specification shell program asked ignoreCase)
    (.ok script))
include generated

theorem perform_of_printed
    (task : request.task = .generate specification shell program asked ignoreCase none) :
    Gives tree (perform settings request) (.ok script) := by
  unfold perform
  rw [task]
  exact generated.bind_ok (gives_pure script)

theorem perform_of_written {output : String} {changed : FileTree}
    (task : request.task =
      .generate specification shell program asked ignoreCase (some output))
    (written : tree.write output script = .ok changed) :
    outcome tree (perform settings request) = (.ok "", changed) := by
  unfold perform
  rw [task]
  rw [outcome_bind generated, outcome_bind (outcome_writeText written)]
  rfl

end Generation

/-- Performing a request on a tree has a result, prints a text and leaves a tree behind. -/
structure EndsIn (tree : FileTree) (settings : Settings) (request : Request)
    (result : Except Failure String) (output : String) (after : FileTree) : Prop where
  performed : outcome tree (perform settings request) = (result, after)
  printed : printed result = output

/-- **Generation is all or nothing.** If the specification cannot be read, decoded or turned into
an index, or the caller's code cannot be read, the request fails for that reason, prints nothing
and changes nothing. Otherwise the script for just these parts is printed, and nothing changes, or
it is written to the file that is asked for, and nothing is printed and nothing else changes. No
other request changes a file. -/
theorem generation_all_or_nothing (tree : FileTree) (settings : Settings) :
    (∀ (specification : String) (shell : Option Shell) (program asked : Option String)
      (ignoreCase : Bool),
      let generating := Task.generate specification shell program asked ignoreCase
      (∃ answer, Gathers tree settings specification asked answer) ∧
      (∀ cause, Gathers tree settings specification asked (.error cause) →
        ∀ (request : Request) (output : Option String), request.task = generating output →
          EndsIn tree settings request (.error cause) "" tree) ∧
      ∀ index code, Gathers tree settings specification asked (.ok (index, code)) →
        let script := Script.render index
          (.standard (if ignoreCase then .insensitive else settings.matchCase))
          (shell.getD settings.generation.shell)
          { program, preamble := code, bindings := settings.bindings }
        (∀ request : Request, request.task = generating none →
          EndsIn tree settings request (.ok script) script tree) ∧
        ∀ (request : Request) (output : String) (changed : FileTree),
          request.task = generating (some output) → tree.write output script = .ok changed →
            EndsIn tree settings request (.ok "") "" changed ∧
              tree.Written output script changed) ∧
    ∀ request : Request,
      (∀ specification shell program asked ignoreCase output,
        request.task ≠ .generate specification shell program asked ignoreCase (some output)) →
      (outcome tree (perform settings request)).2 = tree ∧
        ((run request : StateM FileTree Report).run tree).2 = tree := by
  refine ⟨fun specification shell program asked ignoreCase => ⟨?gathers, ?fails, ?succeeds⟩, ?reads⟩
  case gathers => exact exists_gathers tree settings specification asked
  case fails =>
    intro cause gathers request output task
    exact ⟨perform_of_failed task (gathers.gives_error shell program ignoreCase), rfl⟩
  case succeeds =>
    intro index code gathers script
    have generated := gathers.gives_ok shell program ignoreCase
    refine ⟨fun request task => ⟨perform_of_printed generated task, rfl⟩, ?_⟩
    intro request output changed task written
    exact ⟨⟨perform_of_written generated task written, rfl⟩, FileTree.written_of_write written⟩
  case reads =>
    intro request printing
    constructor
    · obtain ⟨result, performed⟩ := reads_perform tree settings printing
      rw [performed]
    · exact run_unchanged fun settings => reads_perform tree settings printing

/-- A directory with a specification and another file in it. -/
def sampleTree : FileTree where
  entries := [(["work"], .directory),
    (["work", "prog.json"], .file "\x7b\"name\": \"prog\"\x7d".toUTF8),
    (["work", "notes"], .file "kept".toUTF8)]
  working := ["work"]
  home := "/home"

theorem sampleTree_loadsIndex : ∃ index, LoadsIndex sampleTree "prog.json" (.ok index) := by
  have led : sampleTree.locate "prog.json" = .ok ["work", "prog.json"] := rfl
  have read : sampleTree.read "prog.json" = .ok "\x7b\"name\": \"prog\"\x7d" :=
    FileTree.read_of_file led rfl
  have accepted : ((CommandDocument.ofText (CommandDocument.formatOf "prog.json")
      "\x7b\"name\": \"prog\"\x7d").toOption.any
        (·.arena.command.index.toOption.isSome)) = true := by decide +kernel
  cases decoded : CommandDocument.ofText (CommandDocument.formatOf "prog.json")
      "\x7b\"name\": \"prog\"\x7d" with
  | error fault =>
    rw [decoded] at accepted
    cases accepted
  | ok document =>
    rw [decoded] at accepted
    obtain ⟨index, built⟩ := Command.accepted_of_isSome accepted
    exact ⟨index, .loaded read decoded built⟩

/-- The script may go to the file of the specification itself. -/
theorem generation_all_or_nothing_sampleTree : ∃ index changed,
    let generating := Task.generate "prog.json" (some .fish) none
    let script := Script.render index (.standard .sensitive) .fish
      { bindings := Settings.bindings {} }
    EndsIn sampleTree {} { task := generating (some "missing.fish") false (some "prog.json") }
        (.error (.file .notFound)) "" sampleTree ∧
      EndsIn sampleTree {} { task := generating none false none } (.ok script) script sampleTree ∧
      EndsIn sampleTree {} { task := generating none false (some "prog.json") } (.ok "") ""
        changed ∧
      changed.read "prog.json" = .ok script ∧
      changed.entryAt ["work", "notes"] = some (.file "kept".toUTF8) ∧
      ((run { task := .inspect "prog.json" } : StateM FileTree Report).run sampleTree).2 =
        sampleTree := by
  obtain ⟨index, loads⟩ := sampleTree_loadsIndex
  obtain ⟨generation, reading⟩ := generation_all_or_nothing sampleTree {}
  have missing : LoadsPreamble sampleTree {} (some "missing.fish") (.error (.file .notFound)) :=
    .unreadable rfl rfl
  have bare : LoadsPreamble sampleTree {} none (.ok none) := .unnamed rfl
  obtain ⟨_, fails, _⟩ :=
    generation "prog.json" (some .fish) none (some "missing.fish") false
  obtain ⟨_, _, succeeds⟩ := generation "prog.json" (some .fish) none none false
  obtain ⟨printed, stored⟩ := succeeds index none (.gathered loads bare)
  obtain ⟨ends, written⟩ := stored { task := _ } "prog.json" _ rfl rfl
  obtain ⟨place, led, _, elsewhere⟩ := written.stands
  have target : place = ["work", "prog.json"] := (Except.ok.inj led).symm
  refine ⟨index, _, fails _ (.noPreamble loads missing) _ _ rfl, printed _ rfl, ends, written.back,
    ?_, ?_⟩
  · rw [elsewhere ["work", "notes"] (by rw [target]; decide)]
    rfl
  · refine (reading _ ?_).2
    intro specification shell program asked ignoreCase output same
    cases same

end CommandCompletion.Program
