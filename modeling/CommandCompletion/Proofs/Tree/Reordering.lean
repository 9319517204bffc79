import CommandCompletion.Proofs.Index.Acceptance
import Mathlib.Data.Multiset.Basic

/-!
# Declarations in another order

A reordering of a tree puts the options of some commands in another order, and the
subcommands of some commands, which may be reordered themselves (`Command.Reordered`). The
ways to the commands change by this. What does not change is which keys occur, how often, and
what the command under a key declares, order apart: reading both trees meets the same, in some
order (`Command.Reordered.perm_shapes`).

So every place has a counterpart with its key whose command declares the same up to order
(`Command.Reordered.exists_counterpart`), and what an index can hold it can hold in every other
order (`Command.Reordered.representable`).
-/

set_option autoImplicit false

namespace CommandCompletion

namespace Command

/-! ## Reordered trees -/

mutual
/-- Two trees that differ in the order of options and subcommands of any of their commands. -/
inductive Reordered : Command → Command → Prop where
  | command {name : String} {options others : List OptionDecl} {positionals : List PositionalDecl}
      {subcommands children : List Command} (optionsMoved : options.Perm others)
      (subcommandsMoved : ReorderedAll subcommands children) :
      Reordered ⟨name, options, positionals, subcommands⟩ ⟨name, others, positionals, children⟩

/-- Two lists of trees that differ in their order and in the order inside the trees. -/
inductive ReorderedAll : List Command → List Command → Prop where
  | nil : ReorderedAll [] []
  | cons {first other : Command} {rest others : List Command} (here : Reordered first other)
      (later : ReorderedAll rest others) : ReorderedAll (first :: rest) (other :: others)
  | swap (first second : Command) (rest : List Command) :
      ReorderedAll (first :: second :: rest) (second :: first :: rest)
  | trans {before between after : List Command} (first : ReorderedAll before between)
      (second : ReorderedAll between after) : ReorderedAll before after
end

theorem Reordered.refl (command : Command) : command.Reordered command := by
  induction command using Command.induction with
  | step command ih =>
    obtain ⟨name, options, positionals, subcommands⟩ := command
    refine .command (.refl options) ?_
    simp only at ih
    induction subcommands with
    | nil => exact .nil
    | cons first rest later =>
      obtain ⟨here, others⟩ := List.forall_mem_cons.mp ih
      exact .cons here (later others)

theorem ReorderedAll.refl (commands : List Command) : ReorderedAll commands commands := by
  induction commands with
  | nil => exact .nil
  | cons first rest ih => exact .cons (.refl first) ih

mutual
theorem Reordered.symm : ∀ {command other : Command}, command.Reordered other →
    other.Reordered command
  | _, _, .command options subcommands => .command options.symm subcommands.symm

theorem ReorderedAll.symm : ∀ {commands others : List Command}, ReorderedAll commands others →
    ReorderedAll others commands
  | _, _, .nil => .nil
  | _, _, .cons here later => .cons here.symm later.symm
  | _, _, .swap first second rest => .swap second first rest
  | _, _, .trans first second => .trans second.symm first.symm
end

/-- Every order of a list of trees is a reordering. -/
theorem ReorderedAll.of_perm {commands others : List Command} (perm : commands.Perm others) :
    ReorderedAll commands others := by
  induction perm with
  | nil => exact .nil
  | cons command _ ih => exact .cons (.refl command) ih
  | swap first second rest => exact .swap second first rest
  | trans _ _ ih ihToo => exact .trans ih ihToo

end Command

/-! ## What is met in a tree, order apart -/

/-- What a command that is met declares, the order of options and subcommands apart, with its
key. -/
def Visit.shape (visit : Visit) :
    String × Multiset OptionDecl × List PositionalDecl × Multiset String :=
  (visit.key, visit.command.options, visit.command.positionals, visit.command.subcommandNames)

namespace Command

theorem map_shape_visitsBelow {commands : List Command}
    (each : ∀ child ∈ commands, ∀ way other key,
      (child.visits way key).map Visit.shape = (child.visits other key).map Visit.shape)
    (way other : List Nat) (key : String) (number start : Nat) :
    (visitsBelow way key number commands).map Visit.shape =
      (visitsBelow other key start commands).map Visit.shape := by
  induction commands generalizing number start with
  | nil => rfl
  | cons first rest ih =>
    obtain ⟨here, later⟩ := List.forall_mem_cons.mp each
    rw [visitsBelow, visitsBelow, List.map_append, List.map_append,
      here (way ++ [number]) (other ++ [start]), ih later]

/-- The ways have no part in what is met. -/
theorem map_shape_visits (command : Command) (way other : List Nat) (key : String) :
    (command.visits way key).map Visit.shape = (command.visits other key).map Visit.shape := by
  induction command using Command.induction generalizing way other key with
  | step command ih =>
    rw [visits_eq, visits_eq, List.map_cons, List.map_cons,
      map_shape_visitsBelow ih way other key 0 0]
    rfl

theorem Reordered.name_eq {command other : Command} (reordered : command.Reordered other) :
    command.name = other.name := by
  cases reordered
  rfl

mutual
theorem Reordered.perm_shapes : ∀ {command other : Command}, command.Reordered other →
    ∀ (way : List Nat) (key : String),
      ((command.visits way key).map Visit.shape).Perm ((other.visits way key).map Visit.shape)
  | _, _, .command options subcommands, way, key => by
    obtain ⟨names, below⟩ := ReorderedAll.perm_shapes subcommands
    have here : ∀ {first second : Visit}, first.shape = second.shape →
        ∀ {rest others : List Visit}, (rest.map Visit.shape).Perm (others.map Visit.shape) →
          ((first :: rest).map Visit.shape).Perm ((second :: others).map Visit.shape) := by
      intro first second same rest others later
      rw [List.map_cons, List.map_cons, same]
      exact later.cons _
    rw [visits_eq, visits_eq]
    refine here ?_ (below way key 0)
    simp only [Visit.shape, subcommandNames, Multiset.coe_eq_coe.mpr options,
      Multiset.coe_eq_coe.mpr names]

theorem ReorderedAll.perm_shapes : ∀ {commands others : List Command},
    ReorderedAll commands others →
    (commands.map (·.name)).Perm (others.map (·.name)) ∧
      ∀ (way : List Nat) (key : String) (number : Nat),
        ((visitsBelow way key number commands).map Visit.shape).Perm
          ((visitsBelow way key number others).map Visit.shape)
  | _, _, .nil => ⟨.refl _, fun _ _ _ => .refl _⟩
  | _, _, .cons here later => by
    obtain ⟨names, below⟩ := ReorderedAll.perm_shapes later
    refine ⟨?_, fun way key number => ?_⟩
    · rw [List.map_cons, List.map_cons, here.name_eq]
      exact names.cons _
    · rw [visitsBelow, visitsBelow, List.map_append, List.map_append, here.name_eq]
      exact (Reordered.perm_shapes here _ _).append (below way key (number + 1))
  | _, _, .swap first second rest => by
    refine ⟨.swap _ _ _, fun way key number => ?_⟩
    simp only [visitsBelow, List.map_append]
    rw [second.map_shape_visits (way ++ [number]) (way ++ [number + 1]),
      first.map_shape_visits (way ++ [number + 1]) (way ++ [number])]
    exact List.perm_append_comm_assoc _ _ _
  | _, _, .trans first second => by
    obtain ⟨names, below⟩ := ReorderedAll.perm_shapes first
    obtain ⟨namesToo, belowToo⟩ := ReorderedAll.perm_shapes second
    exact ⟨names.trans namesToo, fun way key number =>
      (below way key number).trans (belowToo way key number)⟩
end

/-! ## Commands that declare the same up to order -/

/-- Two commands that declare the same, the order of options and subcommands apart. -/
structure SameUpToOrder (command other : Command) : Prop where
  options : command.options.Perm other.options
  positionals : command.positionals = other.positionals
  subcommandNames : command.subcommandNames.Perm other.subcommandNames

namespace SameUpToOrder

variable {command other : Command}

theorem symm (same : command.SameUpToOrder other) : other.SameUpToOrder command :=
  ⟨same.options.symm, same.positionals.symm, same.subcommandNames.symm⟩

theorem declares (same : command.SameUpToOrder other) {slot : String} {data : SlotData}
    (declares : command.Declares slot data) : other.Declares slot data := by
  cases declares with
  | flag declared listed => exact .flag (same.options.mem_iff.mp declared) listed
  | positional declared => exact .positional (same.positionals ▸ declared)

theorem declares_iff (same : command.SameUpToOrder other) (slot : String) (data : SlotData) :
    command.Declares slot data ↔ other.Declares slot data :=
  ⟨same.declares, same.symm.declares⟩

/-- Whether a command is sound does not depend on the order of what it declares. -/
theorem sound (same : command.SameUpToOrder other) (sound : command.Sound) : other.Sound where
  subcommandNames := fun name listed =>
    sound.subcommandNames name (same.subcommandNames.mem_iff.mpr listed)
  subcommandsDiffer := same.subcommandNames.nodup_iff.mp sound.subcommandsDiffer
  flags := fun option declared => sound.flags option (same.options.mem_iff.mpr declared)
  optionsAgree := fun first declared second declaredToo =>
    sound.optionsAgree first (same.options.mem_iff.mpr declared) second
      (same.options.mem_iff.mpr declaredToo)
  slots := fun slot data declares => sound.slots slot data (same.symm.declares declares)

end SameUpToOrder

theorem sameUpToOrder_of_shape_eq {first second : Visit} (same : first.shape = second.shape) :
    first.key = second.key ∧ first.command.SameUpToOrder second.command := by
  simp only [Visit.shape, Prod.mk.injEq, Multiset.coe_eq_coe] at same
  obtain ⟨key, options, positionals, names⟩ := same
  exact ⟨key, options, positionals, names⟩

/-! ## Counterparts -/

namespace Reordered

variable {root tree : Command}

theorem perm_preorder (reordered : root.Reordered tree) :
    (root.preorder.map Visit.shape).Perm (tree.preorder.map Visit.shape) := by
  rw [preorder, preorder, reordered.name_eq]
  exact reordered.perm_shapes [] tree.name

/-- Every place of a tree has a counterpart in a reordering of it, under the same key and with a
command that declares the same up to order. -/
theorem exists_counterpart (reordered : root.Reordered tree) (place : Place root) :
    ∃ counterpart : Place tree, counterpart.key = place.key ∧
      place.command.SameUpToOrder counterpart.command := by
  have met : place.visit.shape ∈ root.preorder.map Visit.shape :=
    List.mem_map_of_mem (mem_preorder_iff.mpr ⟨place, rfl⟩)
  obtain ⟨visit, metToo, same⟩ := List.mem_map.mp (reordered.perm_preorder.mem_iff.mp met)
  obtain ⟨counterpart, rfl⟩ := mem_preorder_iff.mp metToo
  obtain ⟨key, alike⟩ := sameUpToOrder_of_shape_eq same.symm
  exact ⟨counterpart, key.symm, alike⟩

/-- The keys of a reordering are the keys of the tree in another order. -/
theorem perm_keys (reordered : root.Reordered tree) :
    (root.preorder.map (·.key)).Perm (tree.preorder.map (·.key)) := by
  simpa [Visit.shape, Function.comp_def] using reordered.perm_preorder.map Prod.fst

end Reordered

/-- Different places have different keys exactly if no key is met twice. -/
theorem nodup_keys_iff {root : Command} :
    (root.preorder.map (·.key)).Nodup ↔ Function.Injective fun place : Place root => place.key := by
  have distinct : root.preorder.Nodup := by
    refine (preorder_ordered root).imp ?_
    rintro earlier _ before rfl
    exact not_precedes_self _ before
  rw [List.nodup_map_iff_inj_on distinct]
  constructor
  · intro injective first second same
    have visits := injective first.visit (mem_preorder_iff.mpr ⟨first, rfl⟩) second.visit
      (mem_preorder_iff.mpr ⟨second, rfl⟩) same
    exact Place.eq_of_way_eq (congrArg Visit.way visits)
  · intro injective first met second metToo same
    obtain ⟨place, rfl⟩ := mem_preorder_iff.mp met
    obtain ⟨other, rfl⟩ := mem_preorder_iff.mp metToo
    exact congrArg Place.visit (injective same)

/-- What an index can hold it can hold in every other order. -/
theorem Reordered.representable {root tree : Command} (reordered : root.Reordered tree)
    (representable : root.Representable) : tree.Representable where
  programName := reordered.name_eq ▸ representable.programName
  commands := by
    intro counterpart
    obtain ⟨place, _, same⟩ := reordered.symm.exists_counterpart counterpart
    exact same.symm.sound (representable.commands place)
  keys := by
    have distinct := nodup_keys_iff.mpr representable.keys
    exact nodup_keys_iff.mp (reordered.perm_keys.nodup_iff.mp distinct)

end Command

end CommandCompletion
