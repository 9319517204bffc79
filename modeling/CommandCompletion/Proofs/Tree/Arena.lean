import CommandCompletion.Command.Arena
import Mathlib.Data.List.Basic
import Mathlib.Data.List.Nodup
import Mathlib.Data.List.Perm.Basic

/-!
# An arena is a strict tree

An arena grows by edits: a subcommand, an option or a positional is added to a command
that is there, or the program is renamed. An edit changes the command that it names and no
other, and what it creates comes behind all that is there (`Arena.Edit.node?_apply`).

Every arena that is made by such edits is a strict tree (`Arena.StrictTree`): a child has a
greater number than its parent, and the children of all commands together are the numbers
of all commands but the program, each once. So exactly one way leads down from the program
to each command (`Arena.StrictTree.existsUnique_way`).
-/

set_option autoImplicit false

namespace CommandCompletion

namespace Arena

/-! ## Edits -/

/-- One call that changes a specification under construction. -/
inductive Edit where
  | addSubcommand (parent : Nat) (name : String)
  | addOption (number : Nat) (option : OptionDecl)
  | addPositional (number : Nat) (positional : PositionalDecl)
  | rename (name : String)

namespace Edit

/-- The arena after an edit. -/
def apply (arena : Arena) : Edit → Arena
  | .addSubcommand parent name => arena.addSubcommand parent name
  | .addOption number option => arena.addOption number option
  | .addPositional number positional => arena.addPositional number positional
  | .rename name => arena.rename name

/-- The number of the command that an edit names. -/
def target : Edit → Nat
  | .addSubcommand parent _ => parent
  | .addOption number _ => number
  | .addPositional number _ => number
  | .rename _ => root

/-- What an edit does to the command that it names, the next free number being given. -/
def change (free : Nat) : Edit → Node → Node
  | .addSubcommand _ _, node => { node with children := node.children ++ [free] }
  | .addOption _ option, node => { node with options := node.options ++ [option] }
  | .addPositional _ positional, node =>
    { node with positionals := node.positionals ++ [positional] }
  | .rename name, node => { node with name }

/-- The commands that an edit creates. -/
def created : Edit → List Node
  | .addSubcommand _ name => [{ name }]
  | .addOption _ _ | .addPositional _ _ | .rename _ => []

/-- The children that an edit gives to the command that it names. -/
def adopted (free : Nat) : Edit → List Nat
  | .addSubcommand _ _ => [free]
  | .addOption _ _ | .addPositional _ _ | .rename _ => []

theorem children_change (free : Nat) (edit : Edit) (node : Node) :
    (edit.change free node).children = node.children ++ edit.adopted free := by
  cases edit <;> simp [change, adopted]

/-- A created command has no children, and its number is the child that is adopted. -/
theorem adopted_eq_range' (free : Nat) (edit : Edit) :
    edit.adopted free = List.range' free edit.created.length := by
  cases edit <;> rfl

theorem children_created {edit : Edit} {node : Node} (member : node ∈ edit.created) :
    node.children = [] := by
  cases edit with
  | addSubcommand parent name =>
    rw [List.mem_singleton.mp member]
  | addOption | addPositional | rename => cases member

end Edit

/-- The arenas that are made by edits, each of which names a command that is there. -/
inductive Made : Arena → Prop where
  | new (name : String) : Made (new name)
  | edited {arena : Arena} (made : Made arena) (edit : Edit)
      (there : edit.target < arena.size) : Made (edit.apply arena)

/-! ## What an edit changes -/

theorem length_nodes (arena : Arena) : arena.nodes.length = arena.size := rfl

theorem nodes_modifyNode (arena : Arena) (number : Nat) (change : Node → Node) :
    (arena.modifyNode number change).nodes = arena.nodes.modify number change := by
  cases number with
  | zero => rfl
  | succ place => rfl

/-- An edit changes the command that it names, and adds what it creates behind all others. -/
theorem Edit.nodes_apply (arena : Arena) (edit : Edit) :
    (edit.apply arena).nodes =
      arena.nodes.modify edit.target (edit.change arena.size) ++ edit.created := by
  cases edit with
  | addSubcommand parent name =>
    have linked := nodes_modifyNode arena parent fun node =>
      { node with children := node.children ++ [arena.size] }
    exact congrArg (· ++ [{ name }]) linked
  | addOption number option =>
    rw [created, List.append_nil]
    exact nodes_modifyNode arena number _
  | addPositional number positional =>
    rw [created, List.append_nil]
    exact nodes_modifyNode arena number _
  | rename name =>
    rw [created, List.append_nil]
    exact nodes_modifyNode arena root _

theorem Edit.size_apply (arena : Arena) (edit : Edit) :
    (edit.apply arena).size = arena.size + edit.created.length := by
  rw [← length_nodes, edit.nodes_apply, List.length_append, List.length_modify, length_nodes]

/-- The commands after an edit: the one that it names is changed, the others are as before. -/
theorem Edit.node?_apply {arena : Arena} (edit : Edit) {number : Nat}
    (there : number < arena.size) :
    (edit.apply arena).node? number =
      if number = edit.target then (arena.node? number).map (edit.change arena.size)
      else arena.node? number := by
  have inside : number < (arena.nodes.modify edit.target (edit.change arena.size)).length := by
    rwa [List.length_modify, length_nodes]
  rw [node?, edit.nodes_apply, List.getElem?_append_left inside, List.getElem?_modify]
  split_ifs with named other other
  · rfl
  · exact absurd named.symm other
  · exact absurd other.symm named
  · simp [node?]

/-- Behind the commands that were there stand the created ones. -/
theorem Edit.node?_apply_created {arena : Arena} (edit : Edit) (place : Nat) :
    (edit.apply arena).node? (arena.size + place) = edit.created[place]? := by
  have behind : (arena.nodes.modify edit.target (edit.change arena.size)).length = arena.size := by
    rw [List.length_modify, length_nodes]
  rw [node?, edit.nodes_apply, List.getElem?_append_right (by omega), behind,
    Nat.add_sub_cancel_left]

theorem Edit.drop_nodes_apply (arena : Arena) (edit : Edit) :
    (edit.apply arena).nodes.drop arena.size = edit.created := by
  have behind : (arena.nodes.modify edit.target (edit.change arena.size)).length = arena.size := by
    rw [List.length_modify, length_nodes]
  rw [edit.nodes_apply, List.drop_left' behind]

/-- A number is that of a command if it was given out. -/
theorem node?_isSome_iff {arena : Arena} {number : Nat} :
    (arena.node? number).isSome ↔ number < arena.size := by
  rw [node?, isSome_getElem?, length_nodes]

theorem lt_size_of_node? {arena : Arena} {number : Nat} {node : Node}
    (there : arena.node? number = some node) : number < arena.size :=
  node?_isSome_iff.mp (Option.isSome_of_eq_some there)

/-! ## Strict trees -/

/-- The children of all commands, command by command. -/
def links (arena : Arena) : List Nat :=
  arena.nodes.flatMap (·.children)

/-- An arena whose commands are numbered from the program down, each one but the program being the
child of one command. -/
structure StrictTree (arena : Arena) : Prop where
  /-- A child has a greater number than its parent. -/
  descends : ∀ {parent node child}, arena.node? parent = some node → child ∈ node.children →
    parent < child
  /-- The children of all commands are the numbers of all commands but the program. -/
  links : arena.links.Perm (List.range' 1 arena.others.length)

theorem mem_links {arena : Arena} {parent child : Nat} {node : Node}
    (there : arena.node? parent = some node) (member : child ∈ node.children) :
    child ∈ arena.links :=
  List.mem_flatMap.mpr ⟨node, List.mem_of_getElem? there, member⟩

/-- Changing one item of a list so that its part grows adds to the parts of all. -/
theorem flatMap_modify_perm {α β : Type} {part : α → List β} {change : α → α} {added : List β}
    (grows : ∀ item, part (change item) = part item ++ added) {items : List α} {place : Nat}
    (inside : place < items.length) :
    ((items.modify place change).flatMap part).Perm (items.flatMap part ++ added) := by
  induction items generalizing place with
  | nil => simp at inside
  | cons first rest ih =>
    cases place with
    | zero =>
      rw [List.modify_zero_cons, List.flatMap_cons, List.flatMap_cons, grows, List.append_assoc,
        List.append_assoc]
      exact List.perm_append_comm.append_left (part first)
    | succ place =>
      rw [List.modify_succ_cons, List.flatMap_cons, List.flatMap_cons, List.append_assoc]
      exact (ih (by simpa using inside)).append_left (part first)

theorem strictTree_new (name : String) : (new name).StrictTree where
  descends := by
    intro parent node child there member
    have only : node = { name } := by
      have listed : node ∈ (new name).nodes := List.mem_of_getElem? there
      simpa [nodes, new] using listed
    rw [only] at member
    cases member
  links := .refl _

/-- An edit adds the number of the command that it creates to the children of all commands. -/
theorem Edit.links_apply {arena : Arena} (edit : Edit) (there : edit.target < arena.size) :
    (edit.apply arena).links.Perm (arena.links ++ edit.adopted arena.size) := by
  have childless : edit.created.flatMap (·.children) = [] :=
    List.flatMap_eq_nil_iff.mpr fun _ member => children_created member
  rw [links, edit.nodes_apply, List.flatMap_append, childless, List.append_nil]
  exact flatMap_modify_perm (edit.children_change arena.size) there

theorem StrictTree.apply {arena : Arena} (strict : arena.StrictTree) (edit : Edit)
    (there : edit.target < arena.size) : (edit.apply arena).StrictTree where
  descends := by
    intro parent node child found member
    by_cases old : parent < arena.size
    · rw [edit.node?_apply old] at found
      split_ifs at found with named
      · obtain ⟨before, foundBefore, rfl⟩ := Option.map_eq_some_iff.mp found
        rw [edit.children_change] at member
        rcases List.mem_append.mp member with kept | added
        · exact strict.descends foundBefore kept
        · rw [edit.adopted_eq_range', List.mem_range'_1] at added
          omega
      · exact strict.descends found member
    · obtain ⟨place, rfl⟩ := Nat.exists_eq_add_of_le (Nat.le_of_not_lt old)
      rw [edit.node?_apply_created] at found
      rw [edit.children_created (List.mem_of_getElem? found)] at member
      cases member
  links := by
    have sizes := edit.size_apply arena
    have others : (edit.apply arena).others.length =
        arena.others.length + edit.created.length := by
      simp only [size] at sizes
      omega
    have numbers : List.range' 1 (arena.others.length + edit.created.length) =
        List.range' 1 arena.others.length ++ edit.adopted arena.size := by
      rw [edit.adopted_eq_range', size, Nat.add_comm _ 1, List.range'_append_1]
    rw [others, numbers]
    exact (edit.links_apply there).trans (strict.links.append_right _)

/-- Edits make strict trees only. -/
theorem Made.strictTree {arena : Arena} (made : Made arena) : arena.StrictTree := by
  induction made with
  | new name => exact strictTree_new name
  | edited _ edit there ih => exact ih.apply edit there

/-! ## Ways down -/

/-- The number of the command at the end of a way down, if the way stays inside the arena. A way
chooses one of the children at each step. -/
def numberBelow? (arena : Arena) : Nat → List Nat → Option Nat
  | number, [] => some number
  | number, place :: rest =>
    (arena.node? number).bind fun node =>
      node.children[place]?.bind fun child => arena.numberBelow? child rest

theorem numberBelow?_append (arena : Arena) (number : Nat) (way further : List Nat) :
    arena.numberBelow? number (way ++ further) =
      (arena.numberBelow? number way).bind fun reached => arena.numberBelow? reached further := by
  induction way generalizing number with
  | nil => rfl
  | cons place rest ih =>
    simp only [List.cons_append, numberBelow?, ih, Option.bind_assoc]

namespace StrictTree

variable {arena : Arena} (strict : arena.StrictTree)
include strict

theorem mem_links_iff {number : Nat} : number ∈ arena.links ↔ 0 < number ∧ number < arena.size := by
  rw [strict.links.mem_iff, List.mem_range'_1, size]
  omega

theorem nodup_links : arena.links.Nodup :=
  strict.links.nodup_iff.mpr (List.nodup_range' 1)

theorem child_lt_size {parent child : Nat} {node : Node} (there : arena.node? parent = some node)
    (member : child ∈ node.children) : child < arena.size :=
  (strict.mem_links_iff.mp (mem_links there member)).2

/-- Every command but the program is a child once, and the program never. -/
theorem count_links {number : Nat} (there : number < arena.size) :
    arena.links.count number = if number = root then 0 else 1 := by
  split_ifs with program
  · refine List.count_eq_zero.mpr fun member => ?_
    have positive := (strict.mem_links_iff.mp member).1
    rw [program] at positive
    exact absurd positive (Nat.lt_irrefl _)
  · have member : number ∈ arena.links :=
      strict.mem_links_iff.mpr ⟨Nat.pos_of_ne_zero program, there⟩
    exact List.count_eq_one_of_mem strict.nodup_links member

/-- Two commands share no child. -/
theorem not_shared {first second child : Nat} {firstNode secondNode : Node} (less : first < second)
    (there : arena.node? first = some firstNode) (thereToo : arena.node? second = some secondNode)
    (member : child ∈ firstNode.children) : child ∉ secondNode.children := by
  obtain ⟨firstInside, rfl⟩ := List.getElem?_eq_some_iff.mp there
  obtain ⟨secondInside, rfl⟩ := List.getElem?_eq_some_iff.mp thereToo
  have apart := (List.nodup_flatMap.mp strict.nodup_links).2
  exact List.pairwise_iff_getElem.mp apart first second firstInside secondInside less member

/-- A command is the child of one command, in one place. -/
theorem parent_unique {first second child : Nat} {firstNode secondNode : Node} {place other : Nat}
    (there : arena.node? first = some firstNode) (thereToo : arena.node? second = some secondNode)
    (chosen : firstNode.children[place]? = some child)
    (chosenToo : secondNode.children[other]? = some child) : first = second ∧ place = other := by
  have member := List.mem_of_getElem? chosen
  have memberToo := List.mem_of_getElem? chosenToo
  rcases Nat.lt_trichotomy first second with less | rfl | more
  · exact absurd memberToo (strict.not_shared less there thereToo member)
  · cases there.symm.trans thereToo
    have distinct := (List.nodup_flatMap.mp strict.nodup_links).1 _ (List.mem_of_getElem? there)
    obtain ⟨inside, _⟩ := List.getElem?_eq_some_iff.mp chosen
    exact ⟨rfl, (List.getElem?_inj inside distinct).mp (chosen.trans chosenToo.symm)⟩
  · exact absurd member (strict.not_shared more thereToo there memberToo)

/-- Every command but the program has a parent, with a smaller number. -/
theorem exists_parent {number : Nat} (positive : 0 < number) (there : number < arena.size) :
    ∃ (parent place : Nat) (node : Node), arena.node? parent = some node ∧
      node.children[place]? = some number ∧ parent < number := by
  obtain ⟨node, listed, member⟩ :=
    List.mem_flatMap.mp (strict.mem_links_iff.mpr ⟨positive, there⟩)
  obtain ⟨parent, found⟩ := List.mem_iff_getElem?.mp listed
  obtain ⟨place, chosen⟩ := List.mem_iff_getElem?.mp member
  exact ⟨parent, place, node, found, chosen, strict.descends found member⟩

/-- A way leads down to greater numbers. -/
theorem le_of_numberBelow {number reached : Nat} {way : List Nat}
    (leads : arena.numberBelow? number way = some reached) : number + way.length ≤ reached := by
  induction way generalizing number with
  | nil =>
    cases leads
    exact Nat.le_refl _
  | cons place rest ih =>
    simp only [numberBelow?, Option.bind_eq_some_iff] at leads
    obtain ⟨node, there, child, chosen, leads⟩ := leads
    have less := strict.descends there (List.mem_of_getElem? chosen)
    have further := ih leads
    rw [List.length_cons]
    omega

/-- **One way down.** Exactly one way leads from the program to each command. -/
theorem existsUnique_way {number : Nat} (there : number < arena.size) :
    ∃! way, arena.numberBelow? root way = some number := by
  induction number using Nat.strongRecOn with
  | ind number ih =>
    rcases Nat.eq_zero_or_pos number with rfl | positive
    · refine ⟨[], rfl, fun way leads => ?_⟩
      have short := strict.le_of_numberBelow leads
      exact List.length_eq_zero_iff.mp (by omega)
    · obtain ⟨parent, place, node, found, chosen, less⟩ := strict.exists_parent positive there
      obtain ⟨before, leadsBefore, only⟩ := ih parent less (lt_size_of_node? found)
      refine ⟨before ++ [place], ?_, fun way leads => ?_⟩
      · simp [numberBelow?_append, leadsBefore, numberBelow?, found, chosen]
      · rcases List.eq_nil_or_concat way with rfl | ⟨earlier, last, rfl⟩
        · cases leads
          exact absurd positive (Nat.lt_irrefl _)
        · -- The last step of any other way starts from the same parent, at the same place.
          rw [List.concat_eq_append, numberBelow?_append, Option.bind_eq_some_iff] at leads
          obtain ⟨other, leadsEarlier, step⟩ := leads
          simp only [numberBelow?, Option.bind_eq_some_iff, Option.some.injEq] at step
          obtain ⟨otherNode, foundToo, _, chosenToo, rfl⟩ := step
          obtain ⟨rfl, rfl⟩ := strict.parent_unique found foundToo chosen chosenToo
          rw [List.concat_eq_append, only earlier leadsEarlier]

end StrictTree
end Arena
end CommandCompletion
