import CommandCompletion.Index
import Mathlib.Data.List.Induction

/-!
# Places in a tree of commands

A command of a specification is found by the way down to it from the program: a list of
numbers, each choosing one of the subcommands of the command reached so far. A place is
such a way together with the command at its end. Two commands of a tree may look alike;
their places differ.

The key of a place is the name of the program followed by the names on the way, joined
by underscores. Going down by one subcommand makes the key of the subcommand out of the
key of its parent (`Place.key_child`).

Depth-first preorder is the lexicographic order of the ways (`Precedes`). Reading the
tree in that order lists every place once, each with its key and its command
(`mem_preorder_iff`), and earlier places first (`preorder_ordered`).
-/

set_option autoImplicit false

namespace CommandCompletion

namespace Command

mutual
/-- What holds of a command as soon as it holds of its subcommands holds of every command. -/
theorem induction {motive : Command → Prop}
    (step : ∀ command : Command, (∀ child ∈ command.subcommands, motive child) → motive command) :
    ∀ command, motive command
  | ⟨_, _, _, subcommands⟩ => step _ (inductionAll step subcommands)

theorem inductionAll {motive : Command → Prop}
    (step : ∀ command : Command, (∀ child ∈ command.subcommands, motive child) → motive command) :
    ∀ commands : List Command, ∀ child ∈ commands, motive child
  | [] => fun _ member => nomatch member
  | command :: rest =>
    List.forall_mem_cons.mpr ⟨induction step command, inductionAll step rest⟩
end

/-- The names of the subcommands, in declaration order. -/
def subcommandNames (command : Command) : List String :=
  command.subcommands.map (·.name)

/-! ## Ways down -/

/-- The command at the end of a way down, if the way stays inside the tree. -/
def below? : Command → List Nat → Option Command
  | command, [] => some command
  | command, number :: rest => command.subcommands[number]?.bind fun child => child.below? rest

/-- The names of the subcommands on a way down. -/
def namesTo : Command → List Nat → List String
  | _, [] => []
  | command, number :: rest =>
    match command.subcommands[number]? with
    | some child => child.name :: child.namesTo rest
    | none => []

theorem below?_append (command : Command) (way further : List Nat) :
    command.below? (way ++ further) =
      (command.below? way).bind fun child => child.below? further := by
  induction way generalizing command with
  | nil => rfl
  | cons number rest ih =>
    simp only [List.cons_append, below?]
    cases command.subcommands[number]? with
    | none => rfl
    | some child => exact ih child

theorem namesTo_append {command reached : Command} {way : List Nat}
    (found : command.below? way = some reached) (further : List Nat) :
    command.namesTo (way ++ further) = command.namesTo way ++ reached.namesTo further := by
  induction way generalizing command with
  | nil =>
    cases found
    rfl
  | cons number rest ih =>
    simp only [List.cons_append, namesTo, below?] at found ⊢
    cases chosen : command.subcommands[number]? with
    | none => simp [chosen] at found
    | some child =>
      rw [chosen] at found
      exact congrArg (child.name :: ·) (ih found)

/-- The key at the end of a way down from a command whose own key is given. -/
def keyBelow (key : String) (command : Command) (way : List Nat) : String :=
  (command.namesTo way).foldl childKey key

end Command

/-- Joining names by underscores adds them one after the other. -/
theorem intercalate_eq_foldl_childKey (first : String) (names : List String) :
    String.intercalate "_" (first :: names) = names.foldl childKey first := by
  induction names generalizing first with
  | nil => simp
  | cons name rest ih =>
    rw [List.foldl_cons, ← ih, String.intercalate_cons_cons, childKey,
      String.intercalate_cons_append]

/-! ## Places and their keys -/

/-- A way down from the program together with the command at its end. -/
structure Place (root : Command) where
  /-- The number of the subcommand taken at each step. -/
  way : List Nat
  command : Command
  reached : root.below? way = some command

namespace Place

variable {root : Command}

/-- A place is determined by the way to it. -/
theorem eq_of_way_eq {first second : Place root} (same : first.way = second.way) :
    first = second := by
  obtain ⟨way, command, reached⟩ := first
  obtain ⟨other, otherCommand, otherReached⟩ := second
  cases same
  cases reached.symm.trans otherReached
  rfl

/-- The place of the program. -/
def program (root : Command) : Place root :=
  ⟨[], root, rfl⟩

/-- The place of a subcommand. -/
def child (place : Place root) (number : Nat) (inside : number < place.command.subcommands.length) :
    Place root where
  way := place.way ++ [number]
  command := place.command.subcommands[number]
  reached := by
    rw [Command.below?_append, place.reached]
    simp [Command.below?, inside]

/-- The name of the program and the names on the way, joined by underscores. -/
def key (place : Place root) : String :=
  String.intercalate "_" (root.name :: root.namesTo place.way)

theorem key_eq_keyBelow (place : Place root) : place.key = root.keyBelow root.name place.way :=
  intercalate_eq_foldl_childKey root.name (root.namesTo place.way)

@[simp] theorem key_program (root : Command) : (program root).key = root.name := by
  simp [key, program, Command.namesTo]

/-- The key of a subcommand extends the key of its parent by the name of the subcommand. -/
theorem key_child (place : Place root) (number : Nat)
    (inside : number < place.command.subcommands.length) :
    (place.child number inside).key =
      childKey place.key (place.child number inside).command.name := by
  have names : root.namesTo (place.way ++ [number]) =
      root.namesTo place.way ++ [place.command.subcommands[number].name] := by
    rw [Command.namesTo_append place.reached]
    simp [Command.namesTo, inside]
  rw [key_eq_keyBelow, key_eq_keyBelow, Command.keyBelow, Command.keyBelow]
  simp only [child, names, List.foldl_append, List.foldl_cons, List.foldl_nil]

/-- What holds of the program, and with a command of each of its subcommands, holds everywhere. -/
theorem induction {motive : Place root → Prop} (program : motive (program root))
    (child : ∀ (place : Place root) (number : Nat)
      (inside : number < place.command.subcommands.length),
      motive place → motive (place.child number inside)) (place : Place root) : motive place := by
  obtain ⟨way, command, reached⟩ := place
  induction way using List.reverseRecOn generalizing command with
  | nil =>
    cases reached
    exact program
  | append_singleton way number ih =>
    obtain ⟨parent, parentReached, chosen⟩ :=
      Option.bind_eq_some_iff.mp (Command.below?_append root way [number] ▸ reached)
    have found : parent.subcommands[number]? = some command := by
      simpa [Command.below?] using chosen
    obtain ⟨inside, rfl⟩ := List.getElem?_eq_some_iff.mp found
    exact child ⟨way, parent, parentReached⟩ number inside (ih parent parentReached)

end Place

/-! ## Depth-first preorder -/

/-- One way comes before another in depth-first preorder: it stops where the other goes on,
or it takes an earlier subcommand where the two part. -/
def Precedes (first second : List Nat) : Prop :=
  List.Lex (· < ·) first second

theorem not_precedes_self (way : List Nat) : ¬Precedes way way :=
  List.lex_irrefl Nat.lt_irrefl way

theorem Precedes.asymm {first second : List Nat} (before : Precedes first second) :
    ¬Precedes second first :=
  List.lex_asymm (fun less => Nat.lt_asymm less) before

theorem Precedes.trans {first second third : List Nat} (before : Precedes first second)
    (later : Precedes second third) : Precedes first third :=
  List.lex_trans (fun less more => Nat.lt_trans less more) before later

/-- No way comes before the program's. -/
theorem not_precedes_nil (way : List Nat) : ¬Precedes way [] :=
  List.not_lex_nil

theorem precedes_append_cons (way : List Nat) (number : Nat) (rest : List Nat) :
    Precedes way (way ++ number :: rest) := by
  induction way with
  | nil => exact .nil
  | cons first way ih => exact .cons ih

theorem precedes_of_lt (way : List Nat) {number later : Nat} (less : number < later)
    (rest others : List Nat) : Precedes (way ++ number :: rest) (way ++ later :: others) := by
  induction way with
  | nil => exact .rel less
  | cons first way ih => exact .cons ih

/-- A command met while a tree is read: the way to it, its key, and the command. -/
structure Visit where
  way : List Nat
  key : String
  command : Command

namespace Command

mutual
/-- The commands of a tree in depth-first preorder, the root being at the end of the given way
and having the given key. -/
def visits (way : List Nat) (key : String) : Command → List Visit
  | ⟨name, options, positionals, subcommands⟩ =>
    ⟨way, key, ⟨name, options, positionals, subcommands⟩⟩ :: visitsBelow way key 0 subcommands

/-- The commands below the subcommands of a command, the first one having the given number. -/
def visitsBelow (way : List Nat) (key : String) (number : Nat) : List Command → List Visit
  | [] => []
  | command :: rest =>
    visits (way ++ [number]) (childKey key command.name) command ++
      visitsBelow way key (number + 1) rest
end

theorem visits_eq (way : List Nat) (key : String) (command : Command) :
    command.visits way key =
      ⟨way, key, command⟩ :: visitsBelow way key 0 command.subcommands := by
  cases command
  rw [visits]

/-- All commands of a specification in depth-first preorder. -/
def preorder (root : Command) : List Visit :=
  root.visits [] root.name

theorem mem_visitsBelow_iff {visit : Visit} {way : List Nat} {key : String} {number : Nat}
    {commands : List Command} :
    visit ∈ visitsBelow way key number commands ↔
      ∃ (place : Nat) (child : Command), commands[place]? = some child ∧
        visit ∈ child.visits (way ++ [number + place]) (childKey key child.name) := by
  induction commands generalizing number with
  | nil => simp [visitsBelow]
  | cons first rest ih =>
    rw [visitsBelow, List.mem_append, ih]
    constructor
    · rintro (here | ⟨place, child, chosen, later⟩)
      · exact ⟨0, first, rfl, here⟩
      · refine ⟨place + 1, child, chosen, ?_⟩
        rwa [Nat.add_assoc, Nat.add_comm 1] at later
    · rintro ⟨place, child, chosen, member⟩
      cases place with
      | zero =>
        cases chosen
        exact .inl member
      | succ place =>
        refine .inr ⟨place, child, chosen, ?_⟩
        rwa [Nat.add_assoc, Nat.add_comm 1]

/-- Reading a tree meets exactly the commands at the end of a way down, each with its key. -/
theorem mem_visits_iff (command : Command) {visit : Visit} {way : List Nat} {key : String} :
    visit ∈ command.visits way key ↔
      ∃ further, command.below? further = some visit.command ∧ visit.way = way ++ further ∧
        visit.key = command.keyBelow key further := by
  induction command using induction generalizing way key with
  | step command ih =>
    rw [visits_eq, List.mem_cons, mem_visitsBelow_iff]
    constructor
    · rintro (rfl | ⟨place, child, chosen, member⟩)
      · exact ⟨[], rfl, by simp, rfl⟩
      · obtain ⟨further, found, sameWay, sameKey⟩ :=
          (ih child (List.mem_of_getElem? chosen)).mp member
        refine ⟨place :: further, ?_, ?_, ?_⟩
        · simp [below?, chosen, found]
        · simp [sameWay]
        · simp [sameKey, keyBelow, namesTo, chosen]
    · rintro ⟨further, found, sameWay, sameKey⟩
      -- A way either stops here or starts with the number of a subcommand.
      cases further with
      | nil =>
        obtain ⟨visitWay, visitKey, visitCommand⟩ := visit
        cases found
        simp only [List.append_nil] at sameWay
        subst sameWay
        subst sameKey
        exact .inl rfl
      | cons place rest =>
        simp only [below?, Option.bind_eq_some_iff] at found
        obtain ⟨child, chosen, found⟩ := found
        refine .inr ⟨place, child, chosen, ?_⟩
        refine (ih child (List.mem_of_getElem? chosen)).mpr ⟨rest, found, ?_, ?_⟩
        · simp [sameWay]
        · simp [sameKey, keyBelow, namesTo, chosen]

/-- If each of several subcommands is read in order, they are read in order one after the other. -/
theorem visitsBelow_ordered {commands : List Command} {way : List Nat} {key : String}
    (ordered : ∀ child ∈ commands, ∀ childWay childKey, (child.visits childWay childKey).Pairwise
      (fun earlier later => Precedes earlier.way later.way)) (number : Nat) :
    (visitsBelow way key number commands).Pairwise
      (fun earlier later => Precedes earlier.way later.way) := by
  induction commands generalizing number with
  | nil => exact .nil
  | cons first rest ih =>
    refine List.pairwise_append.mpr ⟨?_, ?_, ?_⟩
    · exact ordered first List.mem_cons_self _ _
    · exact ih (fun child member => ordered child (List.mem_cons_of_mem _ member)) _
    · intro earlier earlierMember later laterMember
      obtain ⟨further, _, sameWay, _⟩ := (mem_visits_iff first).mp earlierMember
      obtain ⟨place, child, _, laterMember⟩ := mem_visitsBelow_iff.mp laterMember
      obtain ⟨others, _, otherWay, _⟩ := (mem_visits_iff child).mp laterMember
      rw [sameWay, otherWay, List.append_assoc, List.append_assoc]
      exact precedes_of_lt way (by omega) further others

/-- Reading a tree meets its commands in the order of the ways to them. -/
theorem visits_ordered (command : Command) (way : List Nat) (key : String) :
    (command.visits way key).Pairwise (fun earlier later => Precedes earlier.way later.way) := by
  induction command using induction generalizing way key with
  | step command ih =>
    rw [visits_eq, List.pairwise_cons]
    refine ⟨fun later member => ?_, visitsBelow_ordered ih 0⟩
    obtain ⟨place, child, _, member⟩ := mem_visitsBelow_iff.mp member
    obtain ⟨further, _, sameWay, _⟩ := (mem_visits_iff child).mp member
    rw [sameWay, List.append_assoc]
    exact precedes_append_cons way _ further

end Command

namespace Place

variable {root : Command}

/-- What is met at a place when the tree is read. -/
def visit (place : Place root) : Visit :=
  ⟨place.way, place.key, place.command⟩

end Place

/-- What is met when a tree is read is what stands at its places. -/
theorem mem_preorder_iff {root : Command} {visit : Visit} :
    visit ∈ root.preorder ↔ ∃ place : Place root, place.visit = visit := by
  rw [Command.preorder, Command.mem_visits_iff]
  constructor
  · rintro ⟨way, found, sameWay, sameKey⟩
    refine ⟨⟨way, visit.command, found⟩, ?_⟩
    obtain ⟨visitWay, visitKey, command⟩ := visit
    simp only [List.nil_append] at sameWay sameKey
    rw [Place.visit, Place.key_eq_keyBelow, sameWay, sameKey]
  · rintro ⟨place, rfl⟩
    exact ⟨place.way, place.reached, by simp [Place.visit], place.key_eq_keyBelow⟩

/-- A tree is read with earlier places first. -/
theorem preorder_ordered (root : Command) :
    root.preorder.Pairwise (fun earlier later => Precedes earlier.way later.way) :=
  root.visits_ordered [] root.name

end CommandCompletion
