import CommandCompletion.Command

/-!
# Specifications under construction

A specification can be built step by step: subcommands, options and positionals are
added to commands that are already there. While it grows, its commands are kept in one
list, the arena, in the order in which they were created, and a command is named by its
place in that list. The program is number zero, and the children of a command are listed
by number.

A subcommand is created after its parent, so every number among the children of a
command is greater than the command's own. Reading the list from its end therefore meets
every child before its parent, and one pass turns the arena into a tree
(`Arena.command`). Conversely a tree is laid out in an arena from the root down, each
command before its subcommands (`Arena.ofCommand`).
-/

set_option autoImplicit false

namespace CommandCompletion

/-- One command of an arena, its children given by number. -/
structure Node where
  name : String
  options : List OptionDecl := []
  positionals : List PositionalDecl := []
  children : List Nat := []
  deriving DecidableEq, Inhabited

/-- The commands of a specification in the order of their creation: the program first, then
its subcommands. -/
structure Arena where
  program : Node
  others : List Node := []
  deriving DecidableEq, Inhabited

namespace Arena

/-- The arena that holds only a program of the given name. -/
def new (name : String) : Arena :=
  ⟨{ name }, []⟩

/-- All commands, by number. -/
def nodes (arena : Arena) : List Node :=
  arena.program :: arena.others

/-- The number of commands. -/
def size (arena : Arena) : Nat :=
  arena.others.length + 1

/-- The number of the program. -/
def root : Nat := 0

/-- The command with the given number. -/
def node? (arena : Arena) (number : Nat) : Option Node :=
  arena.nodes[number]?

/-- Changes the command with the given number; a number not given out yet changes nothing. -/
def modifyNode (arena : Arena) (number : Nat) (change : Node → Node) : Arena :=
  match number with
  | 0 => { arena with program := change arena.program }
  | place + 1 => { arena with others := arena.others.modify place change }

/-- Gives the program another name. -/
def rename (arena : Arena) (name : String) : Arena :=
  arena.modifyNode root fun node => { node with name }

/-- Adds an option to a command. -/
def addOption (arena : Arena) (number : Nat) (option : OptionDecl) : Arena :=
  arena.modifyNode number fun node => { node with options := node.options ++ [option] }

/-- Adds a positional to a command. -/
def addPositional (arena : Arena) (number : Nat) (positional : PositionalDecl) : Arena :=
  arena.modifyNode number fun node =>
    { node with positionals := node.positionals ++ [positional] }

/-- Adds a subcommand, empty so far, to a command. Its number is the size of the arena
before. -/
def addSubcommand (arena : Arena) (parent : Nat) (name : String) : Arena :=
  let linked := arena.modifyNode parent fun node =>
    { node with children := node.children ++ [arena.size] }
  { linked with others := linked.others ++ [{ name }] }

/-! ## From the arena to the tree -/

/-- The trees below the commands of a list whose first command has the given number. The
trees of the commands further on serve as the subtrees of the earlier ones. -/
def subtrees (number : Nat) : List Node → List Command
  | [] => []
  | node :: later =>
    let below := subtrees (number + 1) later
    { name := node.name, options := node.options, positionals := node.positionals,
      subcommands := node.children.filterMap fun child => below[child - (number + 1)]? } :: below

/-- The tree that the arena holds. -/
def command (arena : Arena) : Command :=
  let below := subtrees 1 arena.others
  { name := arena.program.name, options := arena.program.options,
    positionals := arena.program.positionals,
    subcommands := arena.program.children.filterMap fun child => below[child - 1]? }

/-! ## From the tree to the arena -/

/-- The numbers of the roots of a list of trees laid out from the given number on. -/
def childNumbers (number : Nat) : List Command → List Nat
  | [] => []
  | command :: rest => number :: childNumbers (number + command.size) rest

mutual
/-- The commands of a tree whose root has the given number, each before its subcommands. -/
def layout (number : Nat) : Command → List Node
  | ⟨name, options, positionals, subcommands⟩ =>
    { name, options, positionals, children := childNumbers (number + 1) subcommands } ::
      layoutAll (number + 1) subcommands

/-- The commands of a list of trees, numbered from the given number on. -/
def layoutAll (number : Nat) : List Command → List Node
  | [] => []
  | command :: rest => layout number command ++ layoutAll (number + command.size) rest
end

/-- The arena of a tree, its commands numbered in preorder. -/
def ofCommand (command : Command) : Arena :=
  ⟨{ name := command.name, options := command.options, positionals := command.positionals,
     children := childNumbers 1 command.subcommands }, layoutAll 1 command.subcommands⟩

end Arena

end CommandCompletion
