import CommandCompletion.Document
import CommandCompletion.Proofs.Tree.Layout

/-!
# Lowering a document

A document is lowered by edits of one arena, while the numbers of the commands that are
still to get subcommands are held. Between two children of a command stands all that is
below the first of them, so the numbers of the children are known only from the sizes of
the trees before.

Lowering a document into a command adds to that command, changes no other, and puts the
layout of the subcommands behind all that is there (`CommandDocument.nodes_lowerInto`).
The arena of a document is therefore the layout of its tree
(`CommandDocument.arena_eq_ofCommand`), and each of its commands says what the document
says at the same place (`document_lowered`).
-/

set_option autoImplicit false

namespace CommandCompletion

/-! ## Documents as trees -/

theorem PositionalDocument.declareFrom_eq_mapIdx (start : Nat)
    (positionals : List PositionalDocument) :
    declareFrom start positionals =
      positionals.mapIdx fun slot positional => positional.declare (start + slot) := by
  induction positionals generalizing start with
  | nil => rfl
  | cons positional rest ih =>
    rw [declareFrom, ih, List.mapIdx_cons]
    simp only [Nat.add_zero, Nat.add_assoc, Nat.add_comm 1]

namespace CommandDocument

/-- What is said of the command at the end of a way down, if the way stays inside the document. -/
def below? : CommandDocument → List Nat → Option CommandDocument
  | document, [] => some document
  | document, place :: rest => document.subcommands[place]?.bind fun child => child.below? rest

mutual
/-- The number of commands that a document says. -/
def size : CommandDocument → Nat
  | ⟨_, _, _, subcommands⟩ => 1 + sizeAll subcommands

/-- The number of commands that several documents say. -/
def sizeAll : List CommandDocument → Nat
  | [] => 0
  | document :: rest => document.size + sizeAll rest
end

theorem commands_eq_map (documents : List CommandDocument) :
    commands documents = documents.map command := by
  induction documents with
  | nil => rfl
  | cons document rest ih => rw [commands, ih, List.map_cons]

theorem subcommands_command (document : CommandDocument) :
    document.command.subcommands = commands document.subcommands := by
  cases document
  rw [command]

mutual
theorem size_command : ∀ document : CommandDocument, document.command.size = document.size
  | ⟨_, _, _, subcommands⟩ => by
    rw [command, Command.size, size, sizeAll_commands subcommands]

theorem sizeAll_commands : ∀ documents : List CommandDocument,
    Command.sizeAll (commands documents) = sizeAll documents
  | [] => rfl
  | document :: rest => by
    rw [commands, Command.sizeAll, sizeAll, size_command document, sizeAll_commands rest]
end

/-- The tree of a document has the trees of what the document says below. -/
theorem below?_command (document : CommandDocument) (way : List Nat) :
    document.command.below? way = (document.below? way).map command := by
  induction way generalizing document with
  | nil => rfl
  | cons place rest ih =>
    rw [Command.below?, below?, subcommands_command, commands_eq_map, List.getElem?_map]
    cases document.subcommands[place]? with
    | none => rfl
    | some child => exact ih child

/-! ## Adding to one command -/

/-- What lowering a document does to the command that it is lowered into, the next free number
being given. -/
def fill (free : Nat) (document : CommandDocument) (node : Node) : Node :=
  { node with
    options := node.options ++ document.options.map OptionDocument.declare
    positionals := node.positionals ++ PositionalDocument.declareFrom 0 document.positionals
    children := node.children ++ Arena.childNumbers free (commands document.subcommands) }

theorem fill_created (number : Nat) (document : CommandDocument) :
    document.fill (number + 1) { name := document.name } =
      Arena.layoutNode number document.command := by
  cases document
  simp only [fill, Arena.layoutNode, command, List.nil_append]

end CommandDocument

namespace Arena

/-- An arena is the list of its commands. -/
theorem ext_nodes {first second : Arena} (same : first.nodes = second.nodes) : first = second := by
  obtain ⟨program, others⟩ := List.cons.inj same
  exact congrArg₂ Arena.mk program others

theorem size_apply_of_created_nil {edit : Edit} (creates : edit.created = []) (arena : Arena) :
    (edit.apply arena).size = arena.size := by
  rw [edit.size_apply, creates, List.length_nil, Nat.add_zero]

/-- Several edits of one command, none of which creates another one. -/
theorem nodes_foldl_apply {edits : List Edit} {number : Nat}
    (each : ∀ edit ∈ edits, edit.target = number ∧ edit.created = []) (arena : Arena) :
    (edits.foldl Edit.apply arena).nodes = arena.nodes.modify number fun node =>
      edits.foldl (fun node edit => edit.change arena.size node) node := by
  induction edits generalizing arena with
  | nil => exact (List.modify_id number arena.nodes).symm
  | cons edit rest ih =>
    obtain ⟨⟨same, creates⟩, others⟩ := List.forall_mem_cons.mp each
    rw [List.foldl_cons, ih others, edit.nodes_apply, size_apply_of_created_nil creates, creates,
      same, List.append_nil, List.modify_modify_eq]
    rfl

theorem nodes_addSubcommand (arena : Arena) (parent : Nat) (name : String) :
    (arena.addSubcommand parent name).nodes =
      (arena.nodes.modify parent fun node =>
        { node with children := node.children ++ [arena.size] }) ++ [{ name := name }] :=
  (Edit.addSubcommand parent name).nodes_apply arena

theorem size_addSubcommand (arena : Arena) (parent : Nat) (name : String) :
    (arena.addSubcommand parent name).size = arena.size + 1 :=
  (Edit.addSubcommand parent name).size_apply arena

/-- The edits that add options and positionals to a command. -/
def declarations (number : Nat) (options : List OptionDecl) (positionals : List PositionalDecl) :
    List Edit :=
  options.map (.addOption number) ++ positionals.map (.addPositional number)

theorem of_mem_declarations {number : Nat} {options : List OptionDecl}
    {positionals : List PositionalDecl} {edit : Edit}
    (member : edit ∈ declarations number options positionals) :
    edit.target = number ∧ edit.created = [] := by
  rcases List.mem_append.mp member with listed | listed
  · obtain ⟨option, _, rfl⟩ := List.mem_map.mp listed
    exact ⟨rfl, rfl⟩
  · obtain ⟨positional, _, rfl⟩ := List.mem_map.mp listed
    exact ⟨rfl, rfl⟩

theorem foldl_change_addOption (free number : Nat) (options : List OptionDecl) (node : Node) :
    (options.map (.addOption number)).foldl (fun node edit => Edit.change free edit node) node =
      { node with options := node.options ++ options } := by
  induction options generalizing node with
  | nil => simp
  | cons option rest ih =>
    rw [List.map_cons, List.foldl_cons, ih]
    simp [Edit.change]

theorem foldl_change_addPositional (free number : Nat) (positionals : List PositionalDecl)
    (node : Node) :
    (positionals.map (.addPositional number)).foldl
        (fun node edit => Edit.change free edit node) node =
      { node with positionals := node.positionals ++ positionals } := by
  induction positionals generalizing node with
  | nil => simp
  | cons positional rest ih =>
    rw [List.map_cons, List.foldl_cons, ih]
    simp [Edit.change]

theorem foldl_change_declarations (free number : Nat) (options : List OptionDecl)
    (positionals : List PositionalDecl) (node : Node) :
    (declarations number options positionals).foldl
        (fun node edit => edit.change free node) node =
      { node with
        options := node.options ++ options
        positionals := node.positionals ++ positionals } := by
  rw [declarations, List.foldl_append, foldl_change_addOption, foldl_change_addPositional]

/-- Several edits, each of which names a command that was there from the start. -/
theorem Made.foldl_apply {edits : List Edit} {arena : Arena} (made : arena.Made)
    (there : ∀ edit ∈ edits, edit.target < arena.size) : (edits.foldl Edit.apply arena).Made := by
  induction edits generalizing arena with
  | nil => exact made
  | cons edit rest ih =>
    obtain ⟨first, others⟩ := List.forall_mem_cons.mp there
    refine ih (made.edited edit first) fun other member => ?_
    rw [edit.size_apply]
    exact Nat.lt_add_right _ (others other member)

end Arena

namespace CommandDocument

open Arena (Edit layoutAll childNumbers)

section Declarations

variable (options : List OptionDocument) (positionals : List PositionalDocument) (number : Nat)

theorem declareInto_eq (arena : Arena) :
    declareInto options positionals arena number =
      (Arena.declarations number (options.map OptionDocument.declare)
        (PositionalDocument.declareFrom 0 positionals)).foldl Edit.apply arena := by
  rw [Arena.declarations, List.foldl_append, List.foldl_map, List.foldl_map, List.foldl_map]
  rfl

theorem nodes_declareInto (arena : Arena) :
    (declareInto options positionals arena number).nodes = arena.nodes.modify number fun node =>
      { node with
        options := node.options ++ options.map OptionDocument.declare
        positionals := node.positionals ++ PositionalDocument.declareFrom 0 positionals } := by
  rw [declareInto_eq, Arena.nodes_foldl_apply fun _ member => Arena.of_mem_declarations member]
  congr 1
  funext node
  exact Arena.foldl_change_declarations arena.size number _ _ node

theorem size_declareInto (arena : Arena) :
    (declareInto options positionals arena number).size = arena.size := by
  rw [← Arena.length_nodes, nodes_declareInto, List.length_modify, Arena.length_nodes]

theorem made_declareInto {arena : Arena} (made : arena.Made) (there : number < arena.size) :
    (declareInto options positionals arena number).Made := by
  rw [declareInto_eq]
  refine made.foldl_apply fun edit member => ?_
  rw [(Arena.of_mem_declarations member).1]
  exact there

end Declarations

/-! ## The arena as a layout -/

theorem modify_append_left {α : Type} {change : α → α} {place : Nat} {first : List α}
    (inside : place < first.length) (second : List α) :
    (first ++ second).modify place change = first.modify place change ++ second := by
  induction first generalizing place with
  | nil => simp at inside
  | cons item rest ih =>
    cases place with
    | zero => rfl
    | succ place =>
      simp only [List.cons_append, List.modify_succ_cons, ih (Nat.lt_of_succ_lt_succ inside)]

theorem modify_append_singleton {α : Type} (change : α → α) {place : Nat} {first : List α}
    (last : place = first.length) (item : α) :
    (first ++ [item]).modify place change = first ++ [change item] := by
  subst last
  induction first with
  | nil => rfl
  | cons before rest ih => simp only [List.cons_append, List.length_cons, List.modify_succ_cons, ih]

mutual
/-- Lowering a document changes the command that it is lowered into, and lays the subcommands out
behind all that is there. -/
theorem nodes_lowerInto : ∀ (document : CommandDocument) {arena : Arena} {number : Nat},
    number < arena.size →
    (document.lowerInto arena number).nodes =
      arena.nodes.modify number (document.fill arena.size) ++
        layoutAll arena.size (commands document.subcommands)
  | ⟨_, options, positionals, subcommands⟩, arena, number, there => by
    have inside : number < (declareInto options positionals arena number).size := by
      rwa [size_declareInto]
    rw [lowerInto, nodes_lowerAll subcommands inside, size_declareInto, nodes_declareInto,
      List.modify_modify_eq]
    rfl

theorem nodes_lowerAll : ∀ (documents : List CommandDocument) {arena : Arena} {parent : Nat},
    parent < arena.size →
    (lowerAll documents arena parent).nodes =
      (arena.nodes.modify parent fun node =>
        { node with
          children := node.children ++ childNumbers arena.size (commands documents) }) ++
        layoutAll arena.size (commands documents)
  | [], arena, parent, _ => by
    simp only [lowerAll, commands, childNumbers, layoutAll, List.append_nil]
    exact (List.modify_id parent arena.nodes).symm
  | document :: rest, arena, parent, there => by
    let adopt (node : Node) : Node := { node with children := node.children ++ [arena.size] }
    have created : (arena.addSubcommand parent document.name).nodes =
        arena.nodes.modify parent adopt ++ [{ name := document.name }] :=
      arena.nodes_addSubcommand parent document.name
    have size_created := arena.size_addSubcommand parent document.name
    have length_adopt : arena.size = (arena.nodes.modify parent adopt).length := by
      rw [List.length_modify, Arena.length_nodes]
    -- The subcommand is created last, and all that is below it comes behind it.
    have lowered : (document.lowerInto (arena.addSubcommand parent document.name)
        arena.size).nodes =
        arena.nodes.modify parent adopt ++ Arena.layout arena.size document.command := by
      rw [nodes_lowerInto document (by omega), created, size_created,
        modify_append_singleton _ length_adopt, fill_created, Arena.layout_eq, subcommands_command,
        List.append_assoc, List.singleton_append]
    have size_lowered : (document.lowerInto (arena.addSubcommand parent document.name)
        arena.size).size = arena.size + document.command.size := by
      rw [← Arena.length_nodes, lowered, List.length_append, ← length_adopt, Arena.length_layout]
    rw [lowerAll, nodes_lowerAll rest (by omega), lowered, size_lowered,
      modify_append_left (by omega), List.modify_modify_eq, commands, layoutAll, childNumbers,
      List.append_assoc]
    simp only [adopt, Function.comp_def, List.append_assoc, List.singleton_append]
end

theorem size_le_lowerInto (document : CommandDocument) {arena : Arena} {number : Nat}
    (there : number < arena.size) : arena.size ≤ (document.lowerInto arena number).size := by
  rw [← Arena.length_nodes, ← Arena.length_nodes, nodes_lowerInto document there,
    List.length_append, List.length_modify]
  exact Nat.le_add_right _ _

mutual
theorem made_lowerInto : ∀ (document : CommandDocument) {arena : Arena} {number : Nat},
    arena.Made → number < arena.size → (document.lowerInto arena number).Made
  | ⟨_, options, positionals, subcommands⟩, arena, number, made, there => by
    rw [lowerInto]
    refine made_lowerAll subcommands (made_declareInto options positionals number made there) ?_
    rwa [size_declareInto]

theorem made_lowerAll : ∀ (documents : List CommandDocument) {arena : Arena} {parent : Nat},
    arena.Made → parent < arena.size → (lowerAll documents arena parent).Made
  | [], _, _, made, _ => made
  | document :: rest, arena, parent, made, there => by
    have created : (arena.addSubcommand parent document.name).Made :=
      made.edited (.addSubcommand parent document.name) there
    have inside : arena.size < (arena.addSubcommand parent document.name).size := by
      rw [Arena.size_addSubcommand]
      exact Nat.lt_succ_self _
    refine made_lowerAll rest (made_lowerInto document created inside) ?_
    have grows := size_le_lowerInto document inside
    omega
end

theorem made_arena (document : CommandDocument) : document.arena.Made :=
  made_lowerInto document (.new document.name) Nat.one_pos

theorem nodes_arena (document : CommandDocument) :
    document.arena.nodes = Arena.layout Arena.root document.command := by
  rw [arena, nodes_lowerInto document Nat.one_pos, Arena.layout_eq, subcommands_command,
    ← fill_created]
  rfl

/-- Lowering step by step and laying the tree out at once give the same arena. -/
theorem arena_eq_ofCommand (document : CommandDocument) :
    document.arena = Arena.ofCommand document.command :=
  Arena.ext_nodes (document.nodes_arena.trans (Arena.nodes_ofCommand document.command).symm)

theorem laidOut_arena (document : CommandDocument) :
    document.arena.LaidOut Arena.root document.command :=
  Arena.laidOut_root document.nodes_arena

theorem size_arena (document : CommandDocument) : document.arena.size = document.size := by
  rw [← Arena.length_nodes, nodes_arena, Arena.length_layout, size_command]

/-- Lowering a document and turning the arena into a tree gives the tree that the document says. -/
theorem command_arena (document : CommandDocument) :
    document.arena.command = document.command := by
  have held := document.laidOut_arena.tree?_eq document.made_arena.strictTree
  rw [Arena.tree?_root] at held
  exact Option.some.inj held

end CommandDocument

/-! ## Faithfulness -/

/-- A command of an arena says what a document says of one command: its name, its options and
positionals in order, a positional without a name being named after its place, and as many
subcommands. -/
structure Node.SaidBy (node : Node) (said : CommandDocument) : Prop where
  name : node.name = said.name
  options : node.options = said.options.map fun option =>
    { flags := option.flags, arity := option.arity, choices := option.choices,
      provider := option.provider }
  positionals : node.positionals = said.positionals.mapIdx fun slot positional =>
    { name := positional.name.getD ("arg" ++ toString slot), arity := positional.arity,
      choices := positional.choices, provider := positional.provider }
  children : node.children.length = said.subcommands.length

/-- The command of a layout says what the document says. -/
theorem CommandDocument.saidBy_layoutNode (document : CommandDocument) (number : Nat) :
    (Arena.layoutNode number document.command).SaidBy document := by
  obtain ⟨name, options, positionals, subcommands⟩ := document
  refine ⟨?_, ?_, ?_, ?_⟩
  · rw [Arena.layoutNode, command]
  · rw [Arena.layoutNode, command]
    rfl
  · rw [Arena.layoutNode, command, PositionalDocument.declareFrom_eq_mapIdx]
    simp only [Nat.zero_add]
    rfl
  · rw [Arena.layoutNode, Arena.length_childNumbers, subcommands_command, commands_eq_map,
      List.length_map]

/-- **A document is lowered faithfully.** The arena of a document has as many commands as the
document says. One way leads down from the program to each command, the ways are those inside the
document, and the numbers are in depth-first preorder. A command says what the document says at
the same place: its options and positionals are those of the document in order, and a positional
without a name is named after its place. The tree that the arena holds is that of the document. -/
theorem document_lowered (document : CommandDocument) :
    document.arena.size = document.size ∧
    (∀ number < document.arena.size,
      ∃! way, document.arena.numberBelow? Arena.root way = some number) ∧
    (∀ way, (document.arena.numberBelow? Arena.root way).isSome = (document.below? way).isSome) ∧
    (∀ first second number other,
      document.arena.numberBelow? Arena.root first = some number →
      document.arena.numberBelow? Arena.root second = some other →
      (number < other ↔ Precedes first second)) ∧
    (∀ way said number, document.below? way = some said →
      document.arena.numberBelow? Arena.root way = some number →
      ∃ node, document.arena.node? number = some node ∧ node.SaidBy said) ∧
    document.arena.command = document.command := by
  have laid := document.laidOut_arena
  refine ⟨document.size_arena, ?_, ?_, ?_, ?_, document.command_arena⟩
  · intro number there
    exact document.made_arena.strictTree.existsUnique_way there
  · intro way
    rw [laid.numberBelow?_eq, document.below?_command, Option.isSome_map, Option.isSome_map]
  · intro first second number other leads leadsToo
    exact laid.lt_iff_precedes leads leadsToo
  · intro way said number found leads
    have foundTree : document.command.below? way = some said.command := by
      rw [document.below?_command, found, Option.map_some]
    exact ⟨_, (laid.below foundTree leads).node?_eq, said.saidBy_layoutNode number⟩

/-- A document of a program with two subcommands, the first of which has one of its own, with a
positional that has no name. -/
def nestedDocument : CommandDocument :=
  { name := "prog"
    options := [{ flags := ["-v", "--verbose"] }]
    subcommands := [
      { name := "remote"
        subcommands := [
          { name := "add"
            positionals := [{ name := some "url" }, { arity := .optional }] }] },
      { name := "status" }] }

theorem document_lowered_nestedDocument :
    nestedDocument.arena.size = 4 ∧
    nestedDocument.arena.numberBelow? Arena.root [0, 0] = some 2 ∧
    nestedDocument.arena.numberBelow? Arena.root [1] = some 3 ∧
    Precedes [0, 0] [1] ∧
    ∃ node, nestedDocument.arena.node? 2 = some node ∧
      node.positionals = [{ name := "url" }, { name := "arg1", arity := .optional }] := by
  obtain ⟨size, _, _, ordered, said, _⟩ := document_lowered nestedDocument
  have leads : nestedDocument.arena.numberBelow? Arena.root [0, 0] = some 2 := by decide +kernel
  have leadsToo : nestedDocument.arena.numberBelow? Arena.root [1] = some 3 := by decide +kernel
  obtain ⟨node, there, saidBy⟩ := said [0, 0] _ 2 rfl leads
  refine ⟨size, leads, leadsToo, ?_, node, there, ?_⟩
  · exact (ordered [0, 0] [1] 2 3 leads leadsToo).mp (by decide)
  · rw [saidBy.positionals]
    decide +kernel

end CommandCompletion
