import CommandCompletion.Proofs.Index.Renaming
import CommandCompletion.Proofs.Tree.Reordering
import CommandCompletion.Proofs.Walk.LockStep

/-!
# Completion does not depend on the order of declarations

A reordered tree is accepted if the tree is. Its index has the same keys, and the same slots
under every key; only the lists of subcommands and of flags are in another order
(`Index.SameUpToOrder`). All that a walk asks an index is the same for both, so the same words
lead both to one state and one context, and what the sources give there differs in its order
at most (`declarations_in_any_order`).
-/

set_option autoImplicit false

namespace CommandCompletion

/-! ## Indexes that differ in the order of their lists -/

/-- Two entries with the same slots whose lists differ in their order at most. -/
structure IndexEntry.SameUpToOrder (entry other : IndexEntry) : Prop where
  subcommands : entry.subcommands.Perm other.subcommands
  flags : entry.flags.Perm other.flags
  choices : entry.choices = other.choices
  providers : entry.providers = other.providers
  arities : entry.arities = other.arities

theorem IndexEntry.Describes.sameUpToOrder {entry other : IndexEntry}
    {command reordered : Command} (describes : entry.Describes command)
    (same : command.SameUpToOrder reordered) (describesToo : other.Describes reordered) :
    entry.SameUpToOrder other := by
  obtain ⟨choices, providers, arities⟩ := describes.slots_eq describesToo same.declares_iff
  refine ⟨?_, ?_, choices, providers, arities⟩
  · rw [describes.subcommands, describesToo.subcommands]
    exact same.subcommandNames
  · rw [describes.flags, describesToo.flags]
    exact eraseDups_perm_of_mem_iff fun flag => (same.options.flatMap_right _).mem_iff

/-- Two indexes of one program with the same keys whose entries differ in the order of their lists
at most. -/
structure Index.SameUpToOrder (index other : Index) : Prop where
  root : index.root = other.root
  entries : ∀ key, (index.entries.get? key = none ∧ other.entries.get? key = none) ∨
    ∃ own ownToo, index.entries.get? key = some own ∧ other.entries.get? key = some ownToo ∧
      own.SameUpToOrder ownToo

namespace Index

variable {index other : Index} {root tree : Command}

theorem Holds.sameUpToOrder (holds : index.Holds root) (holdsToo : other.Holds tree)
    (reordered : root.Reordered tree) : index.SameUpToOrder other where
  root := by rw [holds.root_eq, holdsToo.root_eq, reordered.name_eq]
  entries := by
    intro key
    cases found : index.entries.get? key with
    | none =>
      refine .inl ⟨rfl, Option.eq_none_iff_forall_ne_some.mpr fun own foundToo => ?_⟩
      obtain ⟨counterpart, rfl⟩ := holdsToo.only key own foundToo
      obtain ⟨place, sameKey, _⟩ := reordered.symm.exists_counterpart counterpart
      obtain ⟨_, held, _⟩ := holds.held place
      rw [sameKey, found] at held
      cases held
    | some own =>
      obtain ⟨place, rfl⟩ := holds.only key own found
      obtain ⟨counterpart, sameKey, same⟩ := reordered.exists_counterpart place
      obtain ⟨_, held, describes⟩ := holds.held place
      obtain ⟨ownToo, heldToo, describesToo⟩ := holdsToo.held counterpart
      cases held.symm.trans found
      exact .inr ⟨own, ownToo, rfl, sameKey ▸ heldToo,
        describes.sameUpToOrder same describesToo⟩

namespace SameUpToOrder

/-- A part of the entries that does not depend on the order of lists makes one table. -/
theorem map_eq {β : Type} (same : index.SameUpToOrder other) {part : IndexEntry → β}
    (parts : ∀ {own ownToo : IndexEntry}, own.SameUpToOrder ownToo → part own = part ownToo) :
    index.entries.map part = other.entries.map part := by
  refine Table.ext_get? fun key => ?_
  rw [Table.get?_map, Table.get?_map]
  rcases same.entries key with ⟨none, noneToo⟩ | ⟨own, ownToo, found, foundToo, entries⟩
  · rw [none, noneToo]
  · rw [found, foundToo, Option.map_some, Option.map_some, parts entries]

/-- A list of the entries that is in another order at most is a permutation in every table. -/
theorem exists_perm {β : Type} (same : index.SameUpToOrder other) {part : IndexEntry → List β}
    (parts : ∀ {own ownToo : IndexEntry}, own.SameUpToOrder ownToo → (part own).Perm (part ownToo))
    {key : String} {values : List β} (found : (index.entries.map part).get? key = some values) :
    ∃ valuesToo, (other.entries.map part).get? key = some valuesToo ∧ values.Perm valuesToo := by
  rw [Table.get?_map] at found
  obtain ⟨own, held, rfl⟩ := Option.map_eq_some_iff.mp found
  rcases same.entries key with ⟨none, _⟩ | ⟨own, ownToo, heldHere, heldToo, entries⟩
  · rw [none] at held
    cases held
  · cases held.symm.trans heldHere
    exact ⟨part ownToo, by rw [Table.get?_map, heldToo, Option.map_some], parts entries⟩

theorem keys (same : index.SameUpToOrder other) : index.keys = other.keys := by
  have tables : index.entries.map (·.arities) = other.entries.map (·.arities) :=
    same.map_eq (·.arities)
  have keys := congrArg Table.keys tables
  rwa [Table.keys_map, Table.keys_map] at keys

/-! ## Queries -/

theorem resolve (same : index.SameUpToOrder other) (key : String) :
    index.resolve key = other.resolve key := by
  have known : index.hasKey key = other.hasKey key := by
    rw [hasKey, hasKey, Table.contains, Table.contains]
    rcases same.entries key with ⟨none, noneToo⟩ | ⟨_, _, found, foundToo, _⟩
    · rw [none, noneToo]
    · rw [found, foundToo, Option.isSome_some, Option.isSome_some]
  rw [Index.resolve, Index.resolve, known, same.root]

/-- What a query takes from the entry is the same if it does not depend on the order of lists. -/
theorem bind_entry?_eq {β : Type} (same : index.SameUpToOrder other)
    {part : IndexEntry → Option β}
    (parts : ∀ {own ownToo : IndexEntry}, own.SameUpToOrder ownToo → part own = part ownToo)
    (key : String) : (index.entry? key).bind part = (other.entry? key).bind part := by
  rw [Index.entry?, Index.entry?, same.resolve]
  rcases same.entries (other.resolve key) with ⟨none, noneToo⟩ | ⟨_, _, found, foundToo, entries⟩
  · rw [none, noneToo]
  · rw [found, foundToo, Option.bind_some, Option.bind_some, parts entries]

/-- Likewise a list is the same up to order if it is in every entry. -/
theorem perm_entry? (same : index.SameUpToOrder other) {part : IndexEntry → List String}
    (parts : ∀ {own ownToo : IndexEntry}, own.SameUpToOrder ownToo → (part own).Perm (part ownToo))
    (key : String) :
    (((index.entry? key).map part).getD []).Perm (((other.entry? key).map part).getD []) := by
  rw [Index.entry?, Index.entry?, same.resolve]
  rcases same.entries (other.resolve key) with ⟨none, noneToo⟩ | ⟨_, _, found, foundToo, entries⟩
  · rw [none, noneToo]
  · rw [found, foundToo]
    exact parts entries

theorem subcommands (same : index.SameUpToOrder other) (key : String) :
    (index.subcommands key).Perm (other.subcommands key) :=
  same.perm_entry? (·.subcommands) key

theorem flags (same : index.SameUpToOrder other) (key : String) :
    (index.flags key).Perm (other.flags key) :=
  same.perm_entry? (·.flags) key

theorem choices (same : index.SameUpToOrder other) (key slot : String) :
    index.choices key slot = other.choices key slot := by
  have found : (index.entry? key).bind (·.choices.get? slot) =
      (other.entry? key).bind (·.choices.get? slot) :=
    same.bind_entry?_eq (fun entries => by rw [entries.choices]) key
  rw [Index.choices, Index.choices, found]

theorem provider (same : index.SameUpToOrder other) (key slot : String) :
    index.provider key slot = other.provider key slot :=
  same.bind_entry?_eq (fun entries => by rw [entries.providers]) key

theorem arity (same : index.SameUpToOrder other) (key slot : String) :
    index.arity key slot = other.arity key slot :=
  same.bind_entry?_eq (fun entries => by rw [entries.arities]) key

theorem isSubcommand (same : index.SameUpToOrder other) (key word : String) :
    index.isSubcommand key word = other.isSubcommand key word := by
  rw [Bool.eq_iff_iff, Index.isSubcommand, Index.isSubcommand, List.contains_iff_mem,
    List.contains_iff_mem, (same.subcommands key).mem_iff]

theorem isFlag (same : index.SameUpToOrder other) (key word : String) :
    index.isFlag key word = other.isFlag key word := by
  rw [Bool.eq_iff_iff, Index.isFlag, Index.isFlag, List.contains_iff_mem, List.contains_iff_mem,
    (same.flags key).mem_iff]

end SameUpToOrder

end Index

/-! ## Walks and candidates -/

namespace WalkState

variable {index other : Index}

theorem apply_sameUpToOrder (same : index.SameUpToOrder other) (description : Description)
    (word : String) (rule : WalkRule) (state : WalkState) :
    state.apply index description word rule = state.apply other description word rule := by
  cases rule with
  | absorb => rfl
  | separator => rfl
  | subcommand => simp only [apply, descend, same.isSubcommand]
  | flag => simp only [apply, openOption, same.isFlag, same.arity]
  | positional => simp only [apply, openPositional, same.arity]

/-- The same words lead to the same state. -/
theorem run_sameUpToOrder (same : index.SameUpToOrder other) (description : Description)
    (typed : List String) : run index description typed = run other description typed := by
  have verdicts : ∀ word rule (first second : WalkState), first = second →
      Verdict.Related (· = ·) (first.apply index description word rule)
        (second.apply other description word rule) := by
    rintro word rule first _ rfl
    rw [first.apply_sameUpToOrder same]
    exact .refl (fun _ => rfl) _
  have steps : ∀ word (first second : WalkState), first = second →
      first.next index description word = second.next other description word := by
    rintro word first _ rfl
    rw [next, next, rooted, rooted, same.resolve]
    exact applyRules_related (verdicts word) description.rules rfl
  refine walk_related steps typed ?_
  rw [start, start, same.root]

theorem context_sameUpToOrder (same : index.SameUpToOrder other) (description : Description)
    (state : WalkState) (word : String) :
    state.context index description word = state.context other description word := by
  simp only [context, same.resolve]

end WalkState

/-- In one context, indexes that differ in the order of their lists draw on the same values. -/
theorem Context.drawn_perm {index other : Index} (same : index.SameUpToOrder other)
    (sources : List CandidateSource) (registry : Registry) (context : Context) :
    (context.drawn index sources registry).Perm (context.drawn other sources registry) := by
  cases context with
  | options node word => exact same.flags node
  | slot node key subcommands word =>
    refine List.Perm.flatMap_left _ fun source _ => ?_
    cases source with
    | subcommands =>
      cases subcommands with
      | false => exact .refl _
      | true => exact same.subcommands node
    | choices => simp only [same.choices, List.Perm.refl]
    | provider => simp only [same.provider, List.Perm.refl]

/-- Indexes that differ in the order of their lists offer the same candidates in some order. -/
theorem Index.SameUpToOrder.complete {index other : Index} (same : index.SameUpToOrder other)
    (description : Description) (registry : Registry) (typed : List String) (word : String) :
    (CommandCompletion.complete index description registry typed word).Perm
      (CommandCompletion.complete other description registry typed word) := by
  rw [CommandCompletion.complete, CommandCompletion.complete,
    WalkState.run_sameUpToOrder same, WalkState.context_sameUpToOrder same,
    Context.candidates_eq_drawn, Context.candidates_eq_drawn]
  refine eraseDups_perm_of_mem_iff fun value => ?_
  exact ((Context.drawn_perm same description.sources registry _).filter _).mem_iff

/-- **The order of declarations only affects the order of lists.** Let the options and the
subcommands of any commands of a tree be put in another order. Then both trees are accepted or
neither is. If they are, both indexes have the same keys and the same tables of choices, providers
and arities; under every key they list the same subcommands and the same flags in some order; and
whatever the description says, whatever providers there are and whatever was typed, they offer the
same candidates in some order. -/
theorem declarations_in_any_order {root tree : Command} (reordered : root.Reordered tree) :
    ((∃ index, root.index = .ok index) ↔ ∃ other, tree.index = .ok other) ∧
    ∀ index other, root.index = .ok index → tree.index = .ok other →
      index.keys = other.keys ∧
      index.choiceTable = other.choiceTable ∧
      index.providerTable = other.providerTable ∧
      index.arityTable = other.arityTable ∧
      (∀ key names, index.subcommandTable.get? key = some names →
        ∃ namesToo, other.subcommandTable.get? key = some namesToo ∧ names.Perm namesToo) ∧
      (∀ key flags, index.flagTable.get? key = some flags →
        ∃ flagsToo, other.flagTable.get? key = some flagsToo ∧ flags.Perm flagsToo) ∧
      ∀ description registry typed word,
        (complete index description registry typed word).Perm
          (complete other description registry typed word) := by
  have accepted : ∀ {first second : Command}, first.Reordered second →
      (∃ index, first.index = .ok index) → ∃ other, second.index = .ok other := by
    intro first second reordered accepted
    have representable := (index_accepts_iff_representable first).1.mp accepted
    exact (reordered.representable representable).accepted
  refine ⟨⟨accepted reordered, accepted reordered.symm⟩, fun index other built builtToo => ?_⟩
  have same := (Command.index_ok built).2.sameUpToOrder (Command.index_ok builtToo).2 reordered
  refine ⟨same.keys, same.map_eq (·.choices), same.map_eq (·.providers), same.map_eq (·.arities),
    fun _ _ => same.exists_perm (·.subcommands), fun _ _ => same.exists_perm (·.flags),
    same.complete⟩

/-- A program with two options and two subcommands, the first of which has options of its own. -/
def listedProgram : Command where
  name := "prog"
  options := [{ flags := ["-v", "--verbose"] }, { flags := ["--color"], arity := .optional }]
  subcommands := [
    { name := "build", options := [{ flags := ["-j"], arity := .exactly 1 }, { flags := ["-q"] }] },
    { name := "test" }]

/-- The same program with every list in the opposite order. -/
def listedBackProgram : Command where
  name := "prog"
  options := [{ flags := ["--color"], arity := .optional }, { flags := ["-v", "--verbose"] }]
  subcommands := [
    { name := "test" },
    { name := "build", options := [{ flags := ["-q"] }, { flags := ["-j"], arity := .exactly 1 }] }]

theorem declarations_in_any_order_listedProgram :
    listedProgram.Reordered listedBackProgram ∧ ∃ index other,
      listedProgram.index = .ok index ∧ listedBackProgram.index = .ok other ∧
      index.arityTable = other.arityTable ∧
      complete index .standard Table.empty [] "-" = ["-v", "--verbose", "--color"] ∧
      (complete index .standard Table.empty [] "-").Perm
        (complete other .standard Table.empty [] "-") := by
  have reordered : listedProgram.Reordered listedBackProgram := by
    refine .command (.swap _ _ _) (.trans (.cons ?_ (.refl _)) (.of_perm (.swap _ _ _)))
    exact .command (.swap _ _ _) .nil
  obtain ⟨accepted, agree⟩ := declarations_in_any_order reordered
  obtain ⟨index, built⟩ : ∃ index, listedProgram.index = .ok index :=
    Command.accepted_of_isSome (by decide +kernel)
  obtain ⟨other, builtToo⟩ := accepted.mp ⟨index, built⟩
  obtain ⟨_, _, _, arities, _, _, offered⟩ := agree index other built builtToo
  refine ⟨reordered, index, other, built, builtToo, arities, ?_, offered _ _ _ _⟩
  exact Command.index_observed built (complete · .standard Table.empty [] "-") (by decide +kernel)

end CommandCompletion
