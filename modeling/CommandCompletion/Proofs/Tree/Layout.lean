import CommandCompletion.Proofs.Index.ByNumber
import CommandCompletion.Proofs.Tree.Places
import Mathlib.Data.List.Infix
import Mathlib.Data.List.Lex

/-!
# Trees laid out in an arena

The layout of a tree from a number on puts each command before its subcommands and the
whole of one subcommand before the next one. So the number of a command is the first
number and the rank of the way that leads to it, which counts the commands that come
before in depth-first preorder (`Command.rank`).

An arena has a tree laid out from a number on if the layout stands there
(`Arena.LaidOut`). This passes on from a command to its subcommands
(`Arena.LaidOut.child`), and a way down from that number leads to where the rank says
(`Arena.LaidOut.numberBelow?_eq`). The numbers are therefore in the order of the ways
(`Arena.LaidOut.lt_iff_precedes`). If the arena is a strict tree, then the tree that it
holds at the number is the one laid out (`Arena.LaidOut.tree?_eq`).
-/

set_option autoImplicit false

namespace CommandCompletion

/-! ## Ranks -/

namespace Command

theorem size_eq (command : Command) : command.size = 1 + sizeAll command.subcommands := by
  cases command
  rw [size]

theorem sizeAll_append (first second : List Command) :
    sizeAll (first ++ second) = sizeAll first + sizeAll second := by
  induction first with
  | nil => rw [List.nil_append, sizeAll, Nat.zero_add]
  | cons command rest ih => rw [List.cons_append, sizeAll, sizeAll, ih, Nat.add_assoc]

/-- An earlier subtree adds to the sizes of those before a later place. -/
theorem sizeAll_take_add_size_le {commands : List Command} {place later : Nat} {child : Command}
    (chosen : commands[place]? = some child) (less : place < later) :
    sizeAll (commands.take place) + child.size ≤ sizeAll (commands.take later) := by
  obtain ⟨more, rfl⟩ := Nat.exists_eq_add_of_le (Nat.succ_le_of_lt less)
  have next : commands.take (place + 1) = commands.take place ++ [child] := by
    rw [List.take_add_one, chosen, Option.toList_some]
  rw [List.take_add, next, sizeAll_append, sizeAll_append, sizeAll, sizeAll, Nat.add_zero]
  exact Nat.le_add_right _ _

/-- How many commands come before the end of a way in depth-first preorder: at each step the
command itself and all of its earlier subcommands. -/
def rank : Command → List Nat → Nat
  | _, [] => 0
  | command, place :: rest =>
    1 + sizeAll (command.subcommands.take place) +
      match command.subcommands[place]? with
      | some child => child.rank rest
      | none => 0

theorem rank_cons {command child : Command} {place : Nat}
    (chosen : command.subcommands[place]? = some child) (rest : List Nat) :
    command.rank (place :: rest) =
      1 + sizeAll (command.subcommands.take place) + child.rank rest := by
  rw [rank, chosen]

theorem below?_cons_isSome {command : Command} {place : Nat} {rest : List Nat}
    (inside : (command.below? (place :: rest)).isSome) :
    ∃ child, command.subcommands[place]? = some child ∧ (child.below? rest).isSome := by
  obtain ⟨reached, found⟩ := Option.isSome_iff_exists.mp inside
  obtain ⟨child, chosen, found⟩ := Option.bind_eq_some_iff.mp found
  exact ⟨child, chosen, Option.isSome_of_eq_some found⟩

theorem rank_lt_size {command : Command} {way : List Nat} (inside : (command.below? way).isSome) :
    command.rank way < command.size := by
  induction way generalizing command with
  | nil =>
    rw [rank, size_eq]
    exact Nat.lt_add_right _ Nat.one_pos
  | cons place rest ih =>
    obtain ⟨child, chosen, further⟩ := below?_cons_isSome inside
    have below := ih further
    obtain ⟨less, _⟩ := List.getElem?_eq_some_iff.mp chosen
    have whole := sizeAll_take_add_size_le chosen less
    rw [List.take_length] at whole
    rw [rank_cons chosen, size_eq]
    omega

/-- Ranks grow in depth-first preorder. -/
theorem rank_lt_of_precedes {command : Command} {first second : List Nat}
    (before : Precedes first second) (inside : (command.below? first).isSome)
    (insideToo : (command.below? second).isSome) : command.rank first < command.rank second := by
  induction before generalizing command with
  | nil =>
    obtain ⟨child, chosen, _⟩ := below?_cons_isSome insideToo
    rw [rank_cons chosen, rank]
    omega
  | cons _ ih =>
    obtain ⟨child, chosen, further⟩ := below?_cons_isSome inside
    obtain ⟨same, chosenToo, furtherToo⟩ := below?_cons_isSome insideToo
    cases chosen.symm.trans chosenToo
    have below := ih further furtherToo
    rw [rank_cons chosen, rank_cons chosen]
    omega
  | rel less =>
    -- The whole of the earlier subcommand comes before the later one.
    obtain ⟨child, chosen, further⟩ := below?_cons_isSome inside
    obtain ⟨other, chosenToo, _⟩ := below?_cons_isSome insideToo
    have below := rank_lt_size further
    have whole := sizeAll_take_add_size_le chosen less
    rw [rank_cons chosen, rank_cons chosenToo]
    omega

end Command

theorem precedes_trichotomy (first second : List Nat) :
    Precedes first second ∨ first = second ∨ Precedes second first :=
  lt_trichotomy first second

/-- Two ways inside a tree are in preorder exactly if their ranks are. -/
theorem Command.rank_lt_iff {command : Command} {first second : List Nat}
    (inside : (command.below? first).isSome) (insideToo : (command.below? second).isSome) :
    command.rank first < command.rank second ↔ Precedes first second := by
  constructor
  · intro less
    rcases precedes_trichotomy first second with before | rfl | after
    · exact before
    · exact absurd less (Nat.lt_irrefl _)
    · exact absurd (rank_lt_of_precedes after insideToo inside) (Nat.lt_asymm less)
  · intro before
    exact rank_lt_of_precedes before inside insideToo

/-! ## Layouts -/

namespace Arena

/-- The command of a layout that has the given number. -/
def layoutNode (number : Nat) (command : Command) : Node :=
  { name := command.name, options := command.options, positionals := command.positionals,
    children := childNumbers (number + 1) command.subcommands }

theorem withSubcommands_layoutNode (number : Nat) (command : Command) :
    (layoutNode number command).withSubcommands command.subcommands = command := by
  cases command
  rfl

theorem layout_eq (number : Nat) (command : Command) :
    layout number command =
      layoutNode number command :: layoutAll (number + 1) command.subcommands := by
  cases command
  rw [layout]
  rfl

theorem nodes_ofCommand (command : Command) :
    (ofCommand command).nodes = layout root command := by
  rw [layout_eq]
  rfl

theorem length_layoutAll {commands : List Command}
    (each : ∀ child ∈ commands, ∀ number, (layout number child).length = child.size)
    (number : Nat) : (layoutAll number commands).length = Command.sizeAll commands := by
  induction commands generalizing number with
  | nil => rfl
  | cons command rest ih =>
    rw [layoutAll, List.length_append, each command List.mem_cons_self,
      ih fun child member => each child (List.mem_cons_of_mem _ member), Command.sizeAll]

/-- A layout has as many commands as the tree. -/
theorem length_layout (number : Nat) (command : Command) :
    (layout number command).length = command.size := by
  induction command using Command.induction generalizing number with
  | step command ih =>
    have below := length_layoutAll (fun child member number => ih child member number) (number + 1)
    rw [layout_eq, List.length_cons, below, Command.size_eq, Nat.add_comm]

/-- A subcommand is numbered behind all earlier ones. -/
theorem getElem?_childNumbers (number : Nat) (commands : List Command) (place : Nat) :
    (childNumbers number commands)[place]? =
      commands[place]?.map fun _ => number + Command.sizeAll (commands.take place) := by
  induction commands generalizing number place with
  | nil => rfl
  | cons command rest ih =>
    cases place with
    | zero => rfl
    | succ place =>
      rw [childNumbers, List.getElem?_cons_succ, List.getElem?_cons_succ, ih, List.take_succ_cons,
        Command.sizeAll]
      simp only [Nat.add_assoc]

theorem length_childNumbers (number : Nat) (commands : List Command) :
    (childNumbers number commands).length = commands.length := by
  induction commands generalizing number with
  | nil => rfl
  | cons command rest ih => rw [childNumbers, List.length_cons, ih, List.length_cons]

/-- The layout of several trees has each of them laid out behind the earlier ones. -/
theorem layout_prefix_drop_layoutAll {commands : List Command} {place : Nat} {child : Command}
    (chosen : commands[place]? = some child) (number : Nat) :
    layout (number + Command.sizeAll (commands.take place)) child <+:
      (layoutAll number commands).drop (Command.sizeAll (commands.take place)) := by
  induction commands generalizing number place with
  | nil => cases chosen
  | cons command rest ih =>
    cases place with
    | zero =>
      cases chosen
      exact List.prefix_append _ _
    | succ place =>
      have behind := ih chosen (number + command.size)
      rwa [List.take_succ_cons, Command.sizeAll, layoutAll, ← length_layout number command,
        List.drop_length_add_append, length_layout, ← Nat.add_assoc]

/-- From the given number on, the commands of an arena are those of a layout. -/
def LaidOut (arena : Arena) (number : Nat) (command : Command) : Prop :=
  layout number command <+: arena.nodes.drop number

theorem laidOut_root {arena : Arena} {command : Command}
    (nodes : arena.nodes = layout root command) : arena.LaidOut root command := by
  rw [LaidOut, nodes]
  exact List.prefix_rfl

namespace LaidOut

variable {arena : Arena} {number : Nat} {command : Command} (laid : arena.LaidOut number command)
include laid

theorem node?_eq : arena.node? number = some (layoutNode number command) := by
  obtain ⟨behind, split⟩ := laid
  rw [layout_eq, List.cons_append] at split
  have first : (arena.nodes.drop number)[0]? = some (layoutNode number command) := by
    rw [← split, List.getElem?_cons_zero]
  rwa [List.getElem?_drop] at first

/-- A laid out tree has its subcommands laid out. -/
theorem child {place : Nat} {child : Command} (chosen : command.subcommands[place]? = some child) :
    arena.LaidOut (number + 1 + Command.sizeAll (command.subcommands.take place)) child := by
  have below := layout_prefix_drop_layoutAll chosen (number + 1)
  have inside := List.IsPrefix.drop laid (Command.sizeAll (command.subcommands.take place) + 1)
  rw [layout_eq, List.drop_succ_cons, List.drop_drop] at inside
  have number_eq : number + (Command.sizeAll (command.subcommands.take place) + 1) =
      number + 1 + Command.sizeAll (command.subcommands.take place) := by omega
  rw [number_eq] at inside
  exact below.trans inside

/-- A way down leads to the number that its rank says. -/
theorem numberBelow?_eq (way : List Nat) :
    arena.numberBelow? number way =
      (command.below? way).map fun _ => number + command.rank way := by
  induction way generalizing number command with
  | nil => rfl
  | cons place rest ih =>
    rw [numberBelow?, laid.node?_eq, Option.bind_some, layoutNode, getElem?_childNumbers,
      Command.below?]
    cases chosen : command.subcommands[place]? with
    | none => rfl
    | some child =>
      rw [Option.map_some, Option.bind_some, Option.bind_some, ih (laid.child chosen),
        Command.rank_cons chosen]
      simp only [Nat.add_assoc]

/-- The command at the end of a way has its tree laid out from the number on to which the way
leads. -/
theorem below {way : List Nat} {reached : Command} {target : Nat}
    (found : command.below? way = some reached)
    (leads : arena.numberBelow? number way = some target) : arena.LaidOut target reached := by
  induction way generalizing number command with
  | nil =>
    cases found
    cases leads
    exact laid
  | cons place rest ih =>
    obtain ⟨child, chosen, found⟩ := Option.bind_eq_some_iff.mp found
    refine ih (laid.child chosen) found ?_
    rw [numberBelow?, laid.node?_eq, Option.bind_some, layoutNode, getElem?_childNumbers, chosen]
      at leads
    exact leads

/-- The commands below a number are numbered in depth-first preorder. -/
theorem lt_iff_precedes {first second : List Nat} {target other : Nat}
    (leads : arena.numberBelow? number first = some target)
    (leadsToo : arena.numberBelow? number second = some other) :
    target < other ↔ Precedes first second := by
  rw [laid.numberBelow?_eq] at leads leadsToo
  obtain ⟨_, found, rfl⟩ := Option.map_eq_some_iff.mp leads
  obtain ⟨_, foundToo, rfl⟩ := Option.map_eq_some_iff.mp leadsToo
  rw [Nat.add_lt_add_iff_left]
  exact Command.rank_lt_iff (Option.isSome_of_eq_some found) (Option.isSome_of_eq_some foundToo)

end LaidOut

/-- Children numbered as in a layout hold the trees laid out there. -/
theorem filterMap_childNumbers {arena : Arena} {commands : List Command} {number : Nat}
    (each : ∀ place child, commands[place]? = some child →
      arena.tree? (number + Command.sizeAll (commands.take place)) = some child) :
    (childNumbers number commands).filterMap arena.tree? = commands := by
  induction commands generalizing number with
  | nil => rfl
  | cons command rest ih =>
    have others : (childNumbers (number + command.size) rest).filterMap arena.tree? = rest := by
      refine ih fun place child chosen => ?_
      have found := each (place + 1) child chosen
      rwa [List.take_succ_cons, Command.sizeAll, ← Nat.add_assoc] at found
    have found : arena.tree? number = some command := each 0 command rfl
    rw [childNumbers, List.filterMap_cons_some found, others]

/-- A strict tree holds what is laid out in it. -/
theorem LaidOut.tree?_eq {arena : Arena} (strict : arena.StrictTree) {number : Nat}
    {command : Command} (laid : arena.LaidOut number command) :
    arena.tree? number = some command := by
  induction command using Command.induction generalizing number with
  | step command ih =>
    have children : (layoutNode number command).children.filterMap arena.tree? =
        command.subcommands :=
      filterMap_childNumbers fun place child chosen =>
        ih child (List.mem_of_getElem? chosen) (laid.child chosen)
    rw [strict.tree?_eq, laid.node?_eq, Option.map_some, children, withSubcommands_layoutNode]

end Arena
end CommandCompletion
