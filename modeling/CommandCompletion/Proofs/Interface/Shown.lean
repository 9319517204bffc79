import CommandCompletion.Interface.Implied
import CommandCompletion.Proofs.Interface.Shows
import CommandCompletion.Proofs.Tree.Lowering

/-!
# What a declaration shows

The arena of a declaration holds a tree that shows the declaration, and nothing besides this tree
(`declaration_shown`). It is the arena of a document that says the same (`Interface.document`): the
arguments are added one by one, options and positionals mixed, but these go to different lists of
the command (`Interface.foldl_declareInto`).

Taking away everything that is hidden (`Interface.visible`) does not change the document. So
declarations that only differ in what they hide have equal arenas.
-/

set_option autoImplicit false

namespace CommandCompletion

/-! ## The document of what is shown -/

/-- An option as a document says it. -/
def OptionDecl.document (option : OptionDecl) : OptionDocument :=
  { flags := option.flags, arity := option.arity, choices := option.choices,
    provider := option.provider }

/-- A positional as a document says it. -/
def PositionalDecl.document (positional : PositionalDecl) : PositionalDocument :=
  { name := some positional.name, arity := positional.arity, choices := positional.choices,
    provider := positional.provider }

theorem OptionDecl.map_declare_document (options : List OptionDecl) :
    (options.map document).map OptionDocument.declare = options := by
  rw [List.map_map]
  exact List.map_id options

theorem PositionalDecl.declareFrom_document (positionals : List PositionalDecl) (place : Nat) :
    PositionalDocument.declareFrom place (positionals.map document) = positionals := by
  induction positionals generalizing place with
  | nil => rfl
  | cons positional rest ih =>
    rw [List.map_cons, PositionalDocument.declareFrom, ih]
    rfl

namespace Interface

/-- The options of the arguments that are shown. -/
def shownOptions (arguments : List Argument) : List OptionDecl :=
  (arguments.filter Argument.isShownOption).filterMap Argument.option?

/-- The positionals of the arguments that are shown. -/
def shownPositionals (arguments : List Argument) : List PositionalDecl :=
  (arguments.filter Argument.isShownPositional).map Argument.positional

mutual
/-- The document that says what a declaration shows. -/
def document : Interface → CommandDocument
  | ⟨name, _, arguments, subcommands, _, _, _⟩ =>
    { name
      options := (shownOptions arguments).map OptionDecl.document
      positionals := (shownPositionals arguments).map PositionalDecl.document
      subcommands := documents subcommands }

/-- The documents of the declarations that are not hidden. -/
def documents : List Interface → List CommandDocument
  | [] => []
  | interface :: rest =>
    if interface.isHidden then documents rest else interface.document :: documents rest
end

theorem name_document (interface : Interface) : interface.document.name = interface.name := by
  cases interface
  rw [document]

theorem forall₂_shownOptions (arguments : List Argument) :
    List.Forall₂ Argument.ShowsOption (arguments.filter Argument.isShownOption)
      (shownOptions arguments) := by
  rw [shownOptions]
  induction arguments with
  | nil => exact .nil
  | cons argument rest ih =>
    rw [List.filter_cons]
    split
    · rename_i shown
      obtain ⟨option, same⟩ := Argument.exists_option? shown
      rw [List.filterMap_cons, same]
      exact .cons (Argument.showsOption_option? same) ih
    · exact ih

theorem forall₂_shownPositionals (arguments : List Argument) :
    List.Forall₂ Argument.ShowsPositional (arguments.filter Argument.isShownPositional)
      (shownPositionals arguments) := by
  rw [shownPositionals, List.forall₂_map_right_iff, List.forall₂_same]
  exact fun argument _ => argument.showsPositional_positional

mutual
/-- The tree of the document shows the declaration. -/
theorem shows_document : ∀ interface : Interface, interface.Shows interface.document.command
  | ⟨name, version, arguments, subcommands, isHidden, needsSubcommand, options⟩ => by
    rw [document, CommandDocument.command, OptionDecl.map_declare_document,
      PositionalDecl.declareFrom_document]
    exact .intro rfl (forall₂_shownOptions arguments) (forall₂_shownPositionals arguments)
      (forall₂_documents subcommands)

theorem forall₂_documents : ∀ interfaces : List Interface,
    List.Forall₂ Interface.Shows (interfaces.filter (!·.isHidden))
      (CommandDocument.commands (documents interfaces))
  | [] => .nil
  | interface :: rest => by
    have here := shows_document interface
    have later := forall₂_documents rest
    rw [documents, List.filter_cons]
    cases interface.isHidden with
    | true => exact later
    | false => exact .cons here later
end

/-! ## Lowering -/

open Arena (Edit)

/-- The edits that add what an argument shows. -/
def edits (number : Nat) (argument : Argument) : List Edit :=
  Arena.declarations number (shownOptions [argument]) (shownPositionals [argument])

theorem declareInto_eq (number : Nat) (arena : Arena) (argument : Argument) :
    argument.declareInto number arena = (edits number argument).foldl Edit.apply arena := by
  rw [Argument.declareInto, edits, Arena.declarations, shownOptions, shownPositionals]
  cases hidden : argument.isHidden with
  | true => simp [Argument.isShownOption, Argument.isShownPositional, hidden]
  | false =>
    cases byPlace : argument.isPositional with
    | true =>
      simp [Argument.isShownOption, Argument.isShownPositional, hidden, byPlace, Edit.apply]
    | false =>
      cases found : argument.option? <;>
        simp [Argument.isShownOption, Argument.isShownPositional, hidden, byPlace, found, Edit.apply]

theorem shownOptions_cons (argument : Argument) (rest : List Argument) :
    shownOptions (argument :: rest) = shownOptions [argument] ++ shownOptions rest := by
  rw [shownOptions, shownOptions, shownOptions, ← List.filterMap_append, ← List.filter_append]
  rfl

theorem shownPositionals_cons (argument : Argument) (rest : List Argument) :
    shownPositionals (argument :: rest) =
      shownPositionals [argument] ++ shownPositionals rest := by
  rw [shownPositionals, shownPositionals, shownPositionals, ← List.map_append,
    ← List.filter_append]
  rfl

/-- Options and positionals of a command may be added in any mixture. -/
theorem foldl_change_edits (free number : Nat) (arguments : List Argument) (node : Node) :
    (arguments.flatMap (edits number)).foldl (fun node edit => edit.change free node) node =
      { node with
        options := node.options ++ shownOptions arguments
        positionals := node.positionals ++ shownPositionals arguments } := by
  induction arguments generalizing node with
  | nil => simp [shownOptions, shownPositionals]
  | cons argument rest ih =>
    rw [List.flatMap_cons, List.foldl_append, ih, edits, Arena.foldl_change_declarations,
      shownOptions_cons argument rest, shownPositionals_cons argument rest, List.append_assoc,
      List.append_assoc]

/-- Adding the arguments one by one and adding what they show at once give the same arena. -/
theorem foldl_declareInto (number : Nat) (arguments : List Argument) (arena : Arena) :
    arguments.foldl (Argument.declareInto number) arena =
      CommandDocument.declareInto ((shownOptions arguments).map OptionDecl.document)
        ((shownPositionals arguments).map PositionalDecl.document) arena number := by
  have edited : arguments.foldl (Argument.declareInto number) arena =
      (arguments.flatMap (edits number)).foldl Edit.apply arena := by
    rw [List.foldl_flatMap]
    congr 1
    funext arena argument
    exact declareInto_eq number arena argument
  refine Arena.ext_nodes ?_
  rw [edited, CommandDocument.nodes_declareInto, OptionDecl.map_declare_document,
    PositionalDecl.declareFrom_document, Arena.nodes_foldl_apply fun edit member => by
      obtain ⟨argument, _, listed⟩ := List.mem_flatMap.mp member
      exact Arena.of_mem_declarations listed]
  congr 1
  funext node
  exact foldl_change_edits arena.size number arguments node

mutual
/-- A declaration is lowered like its document. -/
theorem lowerInto_eq : ∀ (interface : Interface) (arena : Arena) (number : Nat),
    interface.lowerInto arena number = interface.document.lowerInto arena number
  | ⟨_, _, arguments, subcommands, _, _, _⟩, arena, number => by
    rw [lowerInto, document, CommandDocument.lowerInto, foldl_declareInto,
      lowerAll_eq subcommands]

theorem lowerAll_eq : ∀ (interfaces : List Interface) (arena : Arena) (parent : Nat),
    lowerAll interfaces arena parent =
      CommandDocument.lowerAll (documents interfaces) arena parent
  | [], _, _ => rfl
  | interface :: rest, arena, parent => by
    rw [lowerAll, documents]
    split
    · exact lowerAll_eq rest arena parent
    · rw [CommandDocument.lowerAll, lowerInto_eq interface, name_document, lowerAll_eq rest]
end

theorem arena_eq (interface : Interface) : interface.arena = interface.document.arena := by
  rw [arena, CommandDocument.arena, lowerInto_eq, name_document]

end Interface

/-! ## What is hidden -/

/-- The kind with the possible values that are not hidden. -/
def ValueKind.visible : ValueKind → ValueKind
  | .text => .text
  | .choice values => .choice (values.filter (!·.isHidden))
  | .path => .path
  | .pathChoice values => .pathChoice (values.filter (!·.isHidden))

/-- The argument without its hidden forms and possible values. -/
def Argument.visible (argument : Argument) : Argument :=
  { argument with
    hiddenLongAliases := []
    hiddenShortAliases := []
    kind := argument.kind.map ValueKind.visible }

namespace Interface

mutual
/-- The declaration without anything that is hidden in it. -/
def visible : Interface → Interface
  | ⟨name, version, arguments, subcommands, isHidden, needsSubcommand, options⟩ =>
    { name, version, isHidden, needsSubcommand, options
      arguments := (arguments.filter (!·.isHidden)).map Argument.visible
      subcommands := visibleAll subcommands }

/-- The declarations that are not hidden, without anything that is hidden in them. -/
def visibleAll : List Interface → List Interface
  | [] => []
  | interface :: rest =>
    if interface.isHidden then visibleAll rest else interface.visible :: visibleAll rest
end

end Interface

theorem ValueKind.filter_possibleValues_visible (kind : ValueKind) :
    kind.visible.possibleValues.filter (!·.isHidden) = kind.possibleValues.filter (!·.isHidden) := by
  cases kind <;> simp [visible, possibleValues, List.filter_filter]

theorem ValueKind.isPath_visible (kind : ValueKind) : kind.visible.isPath = kind.isPath := by
  cases kind <;> rfl

namespace Argument

variable (argument : Argument)

theorem choices_visible : argument.visible.choices = argument.choices := by
  have values : argument.visible.possibleValues.filter (!·.isHidden) =
      argument.possibleValues.filter (!·.isHidden) := by
    have sameRange : argument.visible.hasValues = argument.hasValues := rfl
    rw [possibleValues, possibleValues, sameRange]
    split
    · rw [valueKind, valueKind, visible]
      cases argument.kind with
      | none => rfl
      | some kind => exact kind.filter_possibleValues_visible
    · rfl
  rw [choices, choices, values]

theorem provider_visible : argument.visible.provider = argument.provider := by
  have kind : argument.visible.valueKind.isPath = argument.valueKind.isPath := by
    rw [valueKind, valueKind, visible]
    cases argument.kind with
    | none => rfl
    | some kind => exact kind.isPath_visible
  have hint : argument.visible.valueHint = argument.valueHint := by
    rw [valueHint, valueHint, kind]
    rfl
  rw [provider, provider, hint]

theorem option?_visible : argument.visible.option? = argument.option? := by
  rw [option?, option?, choices_visible, provider_visible]
  rfl

theorem positional_visible : argument.visible.positional = argument.positional := by
  rw [positional, positional, choices_visible, provider_visible]
  rfl

end Argument

namespace Interface

theorem shownOptions_visible (arguments : List Argument) :
    shownOptions ((arguments.filter (!·.isHidden)).map Argument.visible) =
      shownOptions arguments := by
  have tests : ∀ argument : Argument,
      (argument.visible.isShownOption && !argument.isHidden) = argument.isShownOption := by
    intro argument
    have same : argument.visible.isShownOption = argument.isShownOption := rfl
    rw [same, Argument.isShownOption]
    cases argument.isHidden <;> simp
  rw [shownOptions, List.filter_map, List.filterMap_map, List.filter_filter]
  simp only [Function.comp_def, tests, Argument.option?_visible]
  rfl

theorem shownPositionals_visible (arguments : List Argument) :
    shownPositionals ((arguments.filter (!·.isHidden)).map Argument.visible) =
      shownPositionals arguments := by
  have tests : ∀ argument : Argument,
      (argument.visible.isShownPositional && !argument.isHidden) = argument.isShownPositional := by
    intro argument
    have same : argument.visible.isShownPositional = argument.isShownPositional := rfl
    rw [same, Argument.isShownPositional]
    cases argument.isHidden <;> simp
  rw [shownPositionals, List.filter_map, List.map_map, List.filter_filter]
  simp only [Function.comp_def, tests, Argument.positional_visible]
  rfl

mutual
/-- What is hidden is not said. -/
theorem document_visible : ∀ interface : Interface, interface.visible.document = interface.document
  | ⟨_, _, arguments, subcommands, _, _, _⟩ => by
    rw [visible, document, document, shownOptions_visible, shownPositionals_visible,
      documents_visibleAll subcommands]

theorem documents_visibleAll : ∀ interfaces : List Interface,
    documents (visibleAll interfaces) = documents interfaces
  | [] => rfl
  | interface :: rest => by
    rw [visibleAll, documents]
    split
    · exact documents_visibleAll rest
    · rename_i shown
      have kept : interface.visible.isHidden = interface.isHidden := by
        cases interface
        rfl
      rw [documents, kept, if_neg shown, document_visible interface, documents_visibleAll rest]
end

/-- **A declaration is shown as it is, except for what is hidden.** The arena of a declaration holds
one tree and nothing besides. This tree, and no other, shows the declaration, and the specification
of a program shows its declaration with all that this implies. Two declarations that are the same
but for their hidden arguments, subcommands, further forms and possible values have equal arenas. -/
theorem declaration_shown (interface : Interface) :
    (∀ command, interface.Shows command ↔ command = interface.arena.command) ∧
    interface.arena = Arena.ofCommand interface.arena.command ∧
    (interface.expand {}).Shows interface.specification ∧
    (∀ other : Interface, other.visible = interface.visible → other.arena = interface.arena) := by
  have shows_command : ∀ interface : Interface, interface.Shows interface.arena.command := by
    intro interface
    rw [arena_eq, CommandDocument.command_arena]
    exact interface.shows_document
  refine ⟨fun command => ⟨fun shows => ?_, ?_⟩, ?_, shows_command _, fun other same => ?_⟩
  · exact Shows.unique interface shows (shows_command interface)
  · rintro rfl
    exact shows_command interface
  · rw [arena_eq, CommandDocument.command_arena]
    exact interface.document.arena_eq_ofCommand
  · rw [arena_eq, arena_eq, ← other.document_visible, same, document_visible]

/-- A declaration that hides an argument, a further form of a flag, a possible value and a
subcommand with one below it. -/
def reportInterface : Interface :=
  { name := "report"
    arguments := [
      { name := "format", long := some "format", longAliases := ["as"],
        hiddenLongAliases := ["fmt"], short := some 'f',
        kind := some (.choice [{ name := "text" }, { name := "raw", isHidden := true }]) },
      { name := "trace", long := some "trace", action := .setTrue, isHidden := true },
      { name := "files", kind := some .path, isTrailing := true }]
    subcommands := [
      { name := "debug", isHidden := true, subcommands := [{ name := "dump" }] },
      { name := "list" }] }

/-- The same declaration with other things hidden. -/
def otherReportInterface : Interface :=
  { name := "report"
    arguments := [
      { name := "format", long := some "format", longAliases := ["as"], short := some 'f',
        hiddenShortAliases := ['F'],
        kind := some (.choice [{ name := "binary", isHidden := true }, { name := "text" }]) },
      { name := "files", kind := some .path, isTrailing := true },
      { name := "seed", long := some "seed", isHidden := true }]
    subcommands := [
      { name := "list" },
      { name := "check", arguments := [{ name := "what" }], isHidden := true }] }

theorem declaration_shown_reportInterface :
    otherReportInterface.visible = reportInterface.visible ∧
    otherReportInterface.arena = reportInterface.arena ∧
    reportInterface.arena =
      { program :=
          { name := "report"
            options := [{ flags := ["--format", "--as", "-f"], arity := .exactly 1,
                          choices := some ["text"] }]
            positionals := [{ name := "files", arity := .remainder, provider := some fileCompleter }]
            children := [1] }
        others := [{ name := "list" }] } := by
  have same : otherReportInterface.visible = reportInterface.visible := rfl
  obtain ⟨_, _, _, ignored⟩ := declaration_shown reportInterface
  exact ⟨same, ignored otherReportInterface same, by decide +kernel⟩

end Interface

end CommandCompletion
