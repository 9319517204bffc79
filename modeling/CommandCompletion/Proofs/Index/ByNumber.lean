import CommandCompletion.Proofs.Index.Building
import CommandCompletion.Proofs.Tree.Arena

/-!
# Reading an arena by number

An index can be built without turning the arena into a tree first: reading a command means
looking it up by its number, adding its entry, and reading its children by their numbers,
one after the other, until something is refused. Nothing bounds this recursion; children
are any numbers. It is written down here as calls that make further calls (`Arena.Reads`),
so that it has a result only if it ends and every number it meets is that of a command.

On a strict tree it ends, since reading a command follows the tree that the arena holds
(`Arena.StrictTree.builds`), and its result is the index of that tree. It reads no command
twice, and every command if nothing is refused (`made_arena_read_once`).
-/

set_option autoImplicit false

namespace CommandCompletion

/-- A command of an arena with the trees of its children. -/
def Node.withSubcommands (node : Node) (subcommands : List Command) : Command :=
  { name := node.name, options := node.options, positionals := node.positionals, subcommands }

namespace Arena

/-! ## Calls -/

/-- A call that reads the command with a number under a key. -/
structure Call where
  number : Nat
  key : String

/-- The calls that read some children, each under the key that its name makes. -/
def callsBelow (key : String) (children : List Nat) (names : List String) : List Call :=
  List.zipWith (fun child name => ⟨child, childKey key name⟩) children names

/-- What a call does before it calls further: it adds the entry of its command to the entries so
far, and says which calls are to follow. Without a result a number was met that is not that of a
command. -/
def enter? (arena : Arena) (call : Call) (entries : Table IndexEntry) :
    Option (Except SpecificationFault (Table IndexEntry × List Call)) := do
  let node ← arena.node? call.number
  let names ← node.children.mapM fun child => (arena.node? child).map (·.name)
  if entries.contains call.key then some (.error (.duplicateNode call.key))
  else some do
    let own ← Command.entry call.key (node.withSubcommands (names.map fun name => { name }))
    .ok (entries.insert call.key own, callsBelow call.key node.children names)

/-- What some calls, made one after the other, read and what comes of it. A refusal ends all of
them. -/
inductive Reads (arena : Arena) :
    List Call → Table IndexEntry → List Nat → Except SpecificationFault (Table IndexEntry) → Prop
  | done (entries : Table IndexEntry) : Reads arena [] entries [] (.ok entries)
  /-- The command of the first call is refused. -/
  | refused {call : Call} {rest : List Call} {entries : Table IndexEntry}
      {fault : SpecificationFault} (own : arena.enter? call entries = some (.error fault)) :
      Reads arena (call :: rest) entries [call.number] (.error fault)
  /-- Something below the command of the first call is refused. -/
  | refusedBelow {call : Call} {rest calls : List Call} {entries extended : Table IndexEntry}
      {visited : List Nat} {fault : SpecificationFault}
      (own : arena.enter? call entries = some (.ok (extended, calls)))
      (below : Reads arena calls extended visited (.error fault)) :
      Reads arena (call :: rest) entries (call.number :: visited) (.error fault)
  /-- The first call returns, and the others are made. -/
  | returned {call : Call} {rest calls : List Call} {entries extended more : Table IndexEntry}
      {visited later : List Nat} {result : Except SpecificationFault (Table IndexEntry)}
      (own : arena.enter? call entries = some (.ok (extended, calls)))
      (below : Reads arena calls extended visited (.ok more))
      (others : Reads arena rest more later result) :
      Reads arena (call :: rest) entries (call.number :: visited ++ later) result

/-- What building the index of an arena by number reads, and what comes of it. -/
inductive Builds (arena : Arena) : List Nat → Except SpecificationFault Index → Prop
  /-- The name of the program is refused before anything is read. -/
  | unnamed {fault : SpecificationFault}
      (bad : Command.checkWord arena.program.name arena.program.name = .error fault) :
      Builds arena [] (.error fault)
  | read {visited : List Nat} {result : Except SpecificationFault (Table IndexEntry)}
      (named : Command.checkWord arena.program.name arena.program.name = .ok ())
      (reads : arena.Reads [⟨root, arena.program.name⟩] .empty visited result) :
      Builds arena visited (result.map fun entries => ⟨arena.program.name, entries⟩)

/-! ## One result at most -/

theorem Reads.unique {arena : Arena} {calls : List Call} {entries : Table IndexEntry}
    {visited other : List Nat} {result outcome : Except SpecificationFault (Table IndexEntry)}
    (reads : arena.Reads calls entries visited result)
    (otherReads : arena.Reads calls entries other outcome) :
    visited = other ∧ result = outcome := by
  induction reads generalizing other outcome with
  | done entries =>
    cases otherReads
    exact ⟨rfl, rfl⟩
  | refused own =>
    cases otherReads with
    | refused ownToo =>
      cases own.symm.trans ownToo
      exact ⟨rfl, rfl⟩
    | refusedBelow ownToo | returned ownToo => cases own.symm.trans ownToo
  | refusedBelow own _ ih =>
    cases otherReads with
    | refused ownToo => cases own.symm.trans ownToo
    | refusedBelow ownToo below =>
      cases own.symm.trans ownToo
      obtain ⟨rfl, same⟩ := ih below
      cases same
      exact ⟨rfl, rfl⟩
    | returned ownToo below =>
      cases own.symm.trans ownToo
      cases (ih below).2
  | returned own _ _ ih ihOthers =>
    cases otherReads with
    | refused ownToo => cases own.symm.trans ownToo
    | refusedBelow ownToo below =>
      cases own.symm.trans ownToo
      cases (ih below).2
    | returned ownToo below others =>
      cases own.symm.trans ownToo
      obtain ⟨rfl, same⟩ := ih below
      cases same
      obtain ⟨rfl, rfl⟩ := ihOthers others
      exact ⟨rfl, rfl⟩

theorem Builds.unique {arena : Arena} {visited other : List Nat}
    {result outcome : Except SpecificationFault Index} (builds : arena.Builds visited result)
    (otherBuilds : arena.Builds other outcome) : visited = other ∧ result = outcome := by
  cases builds with
  | unnamed bad =>
    cases otherBuilds with
    | unnamed badToo =>
      cases bad.symm.trans badToo
      exact ⟨rfl, rfl⟩
    | read named => cases bad.symm.trans named
  | read named reads =>
    cases otherBuilds with
    | unnamed bad => cases bad.symm.trans named
    | read _ otherReads =>
      obtain ⟨rfl, rfl⟩ := reads.unique otherReads
      exact ⟨rfl, rfl⟩

/-! ## The tree that an arena holds -/

/-- The tree below the command with the given number. -/
def tree? (arena : Arena) (number : Nat) : Option Command :=
  (subtrees 0 arena.nodes)[number]?

theorem tree?_root (arena : Arena) : arena.tree? root = some arena.command := rfl

/-- Where children come behind their parents, a tree is made of its command and the trees of the
children. -/
theorem subtrees_getElem? {nodes : List Node} {start : Nat}
    (descends : ∀ parent node, nodes[parent]? = some node →
      ∀ child ∈ node.children, start + parent < child) (place : Nat) :
    (subtrees start nodes)[place]? = nodes[place]?.map fun node => Node.withSubcommands node <|
      node.children.filterMap fun child => (subtrees start nodes)[child - start]? := by
  induction nodes generalizing start place with
  | nil => rfl
  | cons first later ih =>
    -- A child of a command is found among the trees of the commands behind it.
    have behind : ∀ child, start < child →
        (subtrees start (first :: later))[child - start]? =
          (subtrees (start + 1) later)[child - (start + 1)]? := by
      intro child less
      have next : child - start = child - (start + 1) + 1 := by omega
      rw [next]
      rfl
    cases place with
    | zero =>
      have same : first.children.filterMap
            (fun child => (subtrees start (first :: later))[child - start]?) =
          first.children.filterMap fun child =>
            (subtrees (start + 1) later)[child - (start + 1)]? :=
        List.filterMap_congr fun child member => behind child (descends 0 first rfl child member)
      simp only [List.getElem?_cons_zero, Option.map_some, same]
      rfl
    | succ place =>
      have below : ∀ parent node, later[parent]? = some node →
          ∀ child ∈ node.children, start + 1 + parent < child := by
        intro parent node found child member
        have less := descends (parent + 1) node found child member
        omega
      refine (ih below place).trans ?_
      rw [List.getElem?_cons_succ]
      cases found : later[place]? with
      | none => rfl
      | some node =>
        have same : node.children.filterMap
              (fun child => (subtrees (start + 1) later)[child - (start + 1)]?) =
            node.children.filterMap fun child =>
              (subtrees start (first :: later))[child - start]? := by
          refine List.filterMap_congr fun child member => (behind child ?_).symm
          have less := below place node found child member
          omega
        simp only [Option.map_some, same]

namespace StrictTree

variable {arena : Arena} (strict : arena.StrictTree)
include strict

theorem tree?_eq (number : Nat) :
    arena.tree? number = (arena.node? number).map fun node =>
      node.withSubcommands (node.children.filterMap arena.tree?) := by
  have descends : ∀ parent node, arena.nodes[parent]? = some node →
      ∀ child ∈ node.children, 0 + parent < child := by
    intro parent node there child member
    rw [Nat.zero_add]
    exact strict.descends there member
  exact subtrees_getElem? descends number

theorem exists_tree {number : Nat} (there : number < arena.size) :
    ∃ command, arena.tree? number = some command := by
  obtain ⟨node, found⟩ := Option.isSome_iff_exists.mp (node?_isSome_iff.mpr there)
  rw [strict.tree?_eq, found]
  exact ⟨_, rfl⟩

/-- The subcommands of a tree are the trees of the children, one by one. -/
theorem forall₂_children {number : Nat} {node : Node} (there : arena.node? number = some node) :
    List.Forall₂ (fun child command => arena.tree? child = some command) node.children
      (node.children.filterMap arena.tree?) := by
  have each : ∀ child ∈ node.children, ∃ command, arena.tree? child = some command :=
    fun child member => strict.exists_tree (strict.child_lt_size there member)
  generalize node.children = children at each
  induction children with
  | nil => exact .nil
  | cons child rest ih =>
    obtain ⟨⟨command, found⟩, others⟩ := List.forall_mem_cons.mp each
    rw [List.filterMap_cons_some found]
    exact .cons found (ih others)

end StrictTree

/-! ## Reading follows the tree -/

/-- The name of a tree is that of its command. -/
theorem name_of_tree {arena : Arena} (strict : arena.StrictTree) {number : Nat} {command : Command}
    (tree : arena.tree? number = some command) :
    (arena.node? number).map (·.name) = some command.name := by
  rw [strict.tree?_eq] at tree
  obtain ⟨node, found, rfl⟩ := Option.map_eq_some_iff.mp tree
  rw [found]
  rfl

theorem mapM_names {arena : Arena} (strict : arena.StrictTree) {children : List Nat}
    {commands : List Command}
    (trees : List.Forall₂ (fun child command => arena.tree? child = some command) children
      commands) :
    (children.mapM fun child => (arena.node? child).map (·.name)) =
      some (commands.map (·.name)) := by
  induction trees with
  | nil => rfl
  | cons found _ ih => simp [List.mapM_cons, name_of_tree strict found, ih]

/-- The entry of a command takes its subcommands by name only. -/
theorem entry_withSubcommands (key : String) (node : Node) (commands : List Command) :
    Command.entry key (node.withSubcommands ((commands.map (·.name)).map fun name => { name })) =
      Command.entry key (node.withSubcommands commands) := by
  simp only [Command.entry, Command.entryOf, Node.withSubcommands, List.map_map, Function.comp_def]

/-- Making calls one after the other. -/
theorem Reads.cons {arena : Arena} {call : Call} {rest : List Call}
    {entries more : Table IndexEntry} {visited later : List Nat}
    {result : Except SpecificationFault (Table IndexEntry)}
    (first : arena.Reads [call] entries visited (.ok more))
    (others : arena.Reads rest more later result) :
    arena.Reads (call :: rest) entries (visited ++ later) result := by
  cases first with
  | returned own below none =>
    cases none with
    | done =>
      rw [List.append_nil]
      exact .returned own below others

theorem Reads.cons_error {arena : Arena} {call : Call} {entries : Table IndexEntry}
    {visited : List Nat} {fault : SpecificationFault}
    (first : arena.Reads [call] entries visited (.error fault)) (rest : List Call) :
    arena.Reads (call :: rest) entries visited (.error fault) := by
  cases first with
  | refused own => exact .refused own
  | refusedBelow own below => exact .refusedBelow own below
  | returned _ _ none => cases none

/-- A call adds the entry of its tree, if the key is free, and calls the children. -/
theorem enter?_of_node {arena : Arena} (strict : arena.StrictTree) {number : Nat} {node : Node}
    (there : arena.node? number = some node) (key : String) (entries : Table IndexEntry) :
    arena.enter? ⟨number, key⟩ entries = some (
      if entries.contains key then .error (.duplicateNode key)
      else do
        let own ← Command.entry key
          (node.withSubcommands (node.children.filterMap arena.tree?))
        .ok (entries.insert key own,
          callsBelow key node.children ((node.children.filterMap arena.tree?).map (·.name)))) := by
  have names := mapM_names strict (strict.forall₂_children there)
  simp only [enter?, there, names, Option.bind_eq_bind, Option.bind_some, entry_withSubcommands]
  split <;> rfl

/-- Reading children one after the other adds the entries of their trees, if reading each of them
does. -/
theorem reads_callsBelow {arena : Arena} {children : List Nat} {commands : List Command}
    (trees : List.Forall₂ (fun child command => arena.tree? child = some command) children
      commands)
    (each : ∀ command ∈ commands, ∀ number key entries, arena.tree? number = some command →
      ∃ visited, arena.Reads [⟨number, key⟩] entries visited (command.addEntries key entries))
    (key : String) (entries : Table IndexEntry) :
    ∃ visited, arena.Reads (callsBelow key children (commands.map (·.name))) entries visited
      (Command.addAllEntries key entries commands) := by
  induction trees generalizing entries with
  | nil => exact ⟨[], .done entries⟩
  | @cons child command children commands tree _ ih =>
    obtain ⟨own, others⟩ := List.forall_mem_cons.mp each
    obtain ⟨visited, first⟩ := own child (childKey key command.name) entries tree
    rw [Command.addAllEntries]
    cases added : command.addEntries (childKey key command.name) entries with
    | error fault =>
      rw [added] at first
      exact ⟨visited, first.cons_error _⟩
    | ok more =>
      rw [added] at first
      obtain ⟨later, rest⟩ := ih others more
      exact ⟨visited ++ later, first.cons rest⟩

/-- Reading a command by its number ends, and adds the entries of the tree below it. -/
theorem reads_tree {arena : Arena} (strict : arena.StrictTree) (command : Command) :
    ∀ number key entries, arena.tree? number = some command →
      ∃ visited, arena.Reads [⟨number, key⟩] entries visited (command.addEntries key entries) := by
  induction command using Command.induction with
  | step command ih =>
    intro number key entries tree
    rw [strict.tree?_eq] at tree
    obtain ⟨node, there, rfl⟩ := Option.map_eq_some_iff.mp tree
    have own := enter?_of_node strict there key entries
    have below := reads_callsBelow (strict.forall₂_children there) ih key
    rw [Node.withSubcommands] at own ⊢
    rw [Command.addEntries]
    by_cases taken : entries.contains key = true
    · rw [if_pos taken] at own ⊢
      exact ⟨_, .refused own⟩
    · rw [if_neg taken] at own ⊢
      cases accepted : Command.entry key
          ⟨node.name, node.options, node.positionals, node.children.filterMap arena.tree?⟩ with
      | error fault =>
        rw [accepted] at own
        exact ⟨_, .refused own⟩
      | ok entry =>
        rw [accepted] at own
        obtain ⟨visited, rest⟩ := below (entries.insert key entry)
        change ∃ visited, arena.Reads _ _ visited (Command.addAllEntries _ _ _)
        cases added : Command.addAllEntries key (entries.insert key entry)
            (node.children.filterMap arena.tree?) with
        | error fault =>
          rw [added] at rest
          exact ⟨_, .refusedBelow own rest⟩
        | ok more =>
          rw [added] at rest
          exact ⟨_, .returned own rest (.done more)⟩

/-- Building the index of a strict tree by number ends with the index of the tree that it holds. -/
theorem StrictTree.builds {arena : Arena} (strict : arena.StrictTree) :
    ∃ visited, arena.Builds visited arena.command.index := by
  have name : arena.command.name = arena.program.name := rfl
  rw [Command.index, name]
  cases named : Command.checkWord arena.program.name arena.program.name with
  | error fault => exact ⟨[], .unnamed named⟩
  | ok _ =>
    obtain ⟨visited, reads⟩ :=
      reads_tree strict arena.command root arena.program.name .empty arena.tree?_root
    refine ⟨visited, ?_⟩
    have builds := Builds.read named reads
    cases added : arena.command.addEntries arena.program.name Table.empty with
    | error fault =>
      rw [added] at builds
      exact builds
    | ok entries =>
      rw [added] at builds
      exact builds

/-! ## What is read -/

/-- A number of a command below some others, these included. -/
def Under (arena : Arena) (numbers : List Nat) (number : Nat) : Prop :=
  ∃ start ∈ numbers, ∃ way, arena.numberBelow? start way = some number

theorem under_self (arena : Arena) (number : Nat) : arena.Under [number] number :=
  ⟨number, List.mem_singleton_self number, [], rfl⟩

theorem under_cons_iff {arena : Arena} {first number : Nat} {rest : List Nat} :
    arena.Under (first :: rest) number ↔ arena.Under [first] number ∨ arena.Under rest number := by
  simp only [Under, List.mem_cons, List.not_mem_nil, or_false, exists_eq_left, exists_eq_or_imp]

/-- Below a command are the command itself and what is below its children. -/
theorem under_singleton_iff {arena : Arena} {start number : Nat} {node : Node}
    (there : arena.node? start = some node) :
    arena.Under [start] number ↔ number = start ∨ arena.Under node.children number := by
  constructor
  · rintro ⟨same, member, way, leads⟩
    cases List.mem_singleton.mp member
    cases way with
    | nil =>
      cases leads
      exact .inl rfl
    | cons place rest =>
      simp only [numberBelow?, there, Option.bind_some, Option.bind_eq_some_iff] at leads
      obtain ⟨child, chosen, leads⟩ := leads
      exact .inr ⟨child, List.mem_of_getElem? chosen, rest, leads⟩
  · rintro (rfl | ⟨child, member, way, leads⟩)
    · exact under_self arena _
    · obtain ⟨place, chosen⟩ := List.mem_iff_getElem?.mp member
      refine ⟨start, List.mem_singleton_self start, place :: way, ?_⟩
      simp only [numberBelow?, there, chosen, Option.bind_some, leads]

/-- Numbers below which no command is shared. -/
def Apart (arena : Arena) (numbers : List Nat) : Prop :=
  numbers.Pairwise fun first second => ∀ number, arena.Under [first] number →
    ¬arena.Under [second] number

theorem Apart.cons {arena : Arena} {first : Nat} {rest : List Nat}
    (apart : arena.Apart (first :: rest)) {number : Nat} (under : arena.Under [first] number) :
    ¬arena.Under rest number := by
  rintro ⟨start, member, way, leads⟩
  exact (List.pairwise_cons.mp apart).1 start member number under
    ⟨start, List.mem_singleton_self start, way, leads⟩

namespace StrictTree

variable {arena : Arena} (strict : arena.StrictTree)
include strict

theorem lt_size_of_under {numbers : List Nat} {number : Nat}
    (there : ∀ start ∈ numbers, start < arena.size) (under : arena.Under numbers number) :
    number < arena.size := by
  obtain ⟨start, member, way, leads⟩ := under
  have inside := there start member
  clear member
  induction way generalizing start with
  | nil =>
    cases leads
    exact inside
  | cons place rest ih =>
    simp only [numberBelow?, Option.bind_eq_some_iff] at leads
    obtain ⟨node, found, child, chosen, leads⟩ := leads
    exact ih child leads (strict.child_lt_size found (List.mem_of_getElem? chosen))

/-- What is below the children of a command has a greater number than the command. -/
theorem lt_of_under_children {start number : Nat} {node : Node}
    (there : arena.node? start = some node) (under : arena.Under node.children number) :
    start < number := by
  obtain ⟨child, member, way, leads⟩ := under
  have less := strict.descends there member
  have further := strict.le_of_numberBelow leads
  omega

/-- No command is below two children of a command: two ways would lead to it. -/
theorem apart_children {start : Nat} {node : Node} (there : arena.node? start = some node) :
    arena.Apart node.children := by
  refine List.pairwise_iff_getElem.mpr fun place other inside insideToo less number => ?_
  rintro ⟨first, member, way, leads⟩ ⟨second, memberToo, wayToo, leadsToo⟩
  cases List.mem_singleton.mp member
  cases List.mem_singleton.mp memberToo
  obtain ⟨before, leadsBefore, _⟩ := strict.existsUnique_way (lt_size_of_node? there)
  have through : ∀ (place : Nat) (inside : place < node.children.length) (way : List Nat),
      arena.numberBelow? node.children[place] way = some number →
        arena.numberBelow? root (before ++ place :: way) = some number := by
    intro place inside way leads
    have chosen : node.children[place]? = some node.children[place] :=
      List.getElem?_eq_getElem inside
    simp only [numberBelow?_append, leadsBefore, Option.bind_some, numberBelow?, there, chosen,
      leads]
  have small : number < arena.size :=
    strict.lt_size_of_under (fun _ member => strict.child_lt_size there member)
      ⟨_, List.getElem_mem inside, way, leads⟩
  have same := (strict.existsUnique_way small).unique (through place inside way leads)
    (through other insideToo wayToo leadsToo)
  have places := (List.cons.inj (List.append_cancel_left same)).1
  omega

end StrictTree

theorem numbers_callsBelow {arena : Arena} {children : List Nat} {commands : List Command}
    (trees : List.Forall₂ (fun child command => arena.tree? child = some command) children
      commands) (key : String) :
    (callsBelow key children (commands.map (·.name))).map (·.number) = children := by
  induction trees with
  | nil => rfl
  | cons _ _ ih => exact congrArg _ ih

/-- The calls that a call makes read the children of its command. -/
theorem enter?_ok {arena : Arena} (strict : arena.StrictTree) {call : Call}
    {entries extended : Table IndexEntry} {calls : List Call}
    (own : arena.enter? call entries = some (.ok (extended, calls))) :
    ∃ node, arena.node? call.number = some node ∧ calls.map (·.number) = node.children := by
  cases there : arena.node? call.number with
  | none => simp [enter?, there] at own
  | some node =>
    rw [enter?_of_node strict there, Option.some.injEq] at own
    split at own
    · cases own
    · obtain ⟨entry, _, same⟩ := bind_eq_ok_iff.mp own
      cases same
      exact ⟨node, rfl, numbers_callsBelow (strict.forall₂_children there) call.key⟩

namespace Reads

variable {arena : Arena} (strict : arena.StrictTree) {calls : List Call}
  {entries more : Table IndexEntry} {visited : List Nat}
  {result : Except SpecificationFault (Table IndexEntry)}
include strict

/-- Only what is below the called commands is read. -/
theorem under (reads : arena.Reads calls entries visited result) :
    ∀ number ∈ visited, arena.Under (calls.map (·.number)) number := by
  induction reads with
  | done => exact fun _ member => nomatch member
  | @refused call =>
    intro number member
    cases List.mem_singleton.mp member
    exact under_cons_iff.mpr (.inl (under_self arena _))
  | refusedBelow own _ ih =>
    obtain ⟨node, there, children⟩ := enter?_ok strict own
    rw [children] at ih
    intro number member
    refine under_cons_iff.mpr (.inl ((under_singleton_iff there).mpr ?_))
    exact (List.mem_cons.mp member).imp_right (ih number)
  | returned own _ _ ih ihOthers =>
    obtain ⟨node, there, children⟩ := enter?_ok strict own
    rw [children] at ih
    intro number member
    rcases List.mem_append.mp member with first | later
    · refine under_cons_iff.mpr (.inl ((under_singleton_iff there).mpr ?_))
      exact (List.mem_cons.mp first).imp_right (ih number)
    · exact under_cons_iff.mpr (.inr (ihOthers number later))

/-- If nothing is refused, everything below the called commands is read. -/
theorem mem_of_under (reads : arena.Reads calls entries visited (.ok more)) :
    ∀ number, arena.Under (calls.map (·.number)) number → number ∈ visited := by
  generalize accepted : (Except.ok more : Except SpecificationFault (Table IndexEntry)) = result
    at reads
  induction reads generalizing more with
  | done =>
    rintro number ⟨_, member, _⟩
    cases member
  | refused | refusedBelow => cases accepted
  | returned own _ _ ih ihOthers =>
    obtain ⟨node, there, children⟩ := enter?_ok strict own
    have below := ih rfl
    rw [children] at below
    intro number under
    rcases under_cons_iff.mp under with first | later
    · refine List.mem_append_left _ (List.mem_cons.mpr ?_)
      exact ((under_singleton_iff there).mp first).imp_right (below number)
    · exact List.mem_append_right _ (ihOthers accepted number later)

/-- Nothing is read twice. -/
theorem nodup (reads : arena.Reads calls entries visited result)
    (apart : arena.Apart (calls.map (·.number))) : visited.Nodup := by
  induction reads with
  | done => exact .nil
  | refused => exact List.nodup_singleton _
  | refusedBelow own below ih =>
    obtain ⟨node, there, children⟩ := enter?_ok strict own
    have inside := below.under strict
    rw [children] at ih inside
    refine List.nodup_cons.mpr ⟨fun member => ?_, ih (strict.apart_children there)⟩
    exact absurd (strict.lt_of_under_children there (inside _ member)) (Nat.lt_irrefl _)
  | returned own below others ih ihOthers =>
    obtain ⟨node, there, children⟩ := enter?_ok strict own
    have inside := below.under strict
    have outside := others.under strict
    rw [children] at ih inside
    have first : List.Nodup (_ :: _) := List.nodup_cons.mpr
      ⟨fun member => absurd (strict.lt_of_under_children there (inside _ member))
        (Nat.lt_irrefl _), ih (strict.apart_children there)⟩
    refine List.nodup_append'.mpr ⟨first, ihOthers (List.pairwise_cons.mp apart).2, ?_⟩
    intro number member later
    have here :=
      (under_singleton_iff there).mpr ((List.mem_cons.mp member).imp_right (inside number))
    exact apart.cons here (outside number later)

end Reads

/-! ## Every command once -/

theorem exists_of_map_eq_ok {ε α β : Type} {change : α → β} {result : Except ε α} {value : β}
    (accepted : result.map change = .ok value) : ∃ before, result = .ok before := by
  cases result with
  | error fault => cases accepted
  | ok before => exact ⟨before, rfl⟩

theorem under_root_iff {arena : Arena} (strict : arena.StrictTree) {number : Nat} :
    arena.Under [root] number ↔ number < arena.size := by
  constructor
  · intro under
    refine strict.lt_size_of_under (fun start member => ?_) under
    rw [List.mem_singleton.mp member]
    exact Nat.succ_pos _
  · intro there
    obtain ⟨way, leads, _⟩ := strict.existsUnique_way there
    exact ⟨root, List.mem_singleton_self root, way, leads⟩

/-- Building an index by number reads no command twice, and every command if it succeeds. -/
theorem StrictTree.reads_once {arena : Arena} (strict : arena.StrictTree) {visited : List Nat}
    {result : Except SpecificationFault Index} (builds : arena.Builds visited result) :
    visited.Nodup ∧ (∀ number ∈ visited, number < arena.size) ∧
      ∀ index, result = .ok index → visited.Perm (List.range arena.size) := by
  cases builds with
  | unnamed =>
    refine ⟨.nil, ?_, ?_⟩
    · intro number member
      cases member
    · intro index accepted
      cases accepted
  | read named reads =>
    have distinct := reads.nodup strict (List.pairwise_singleton _ _)
    have inside : ∀ number ∈ visited, number < arena.size := fun number member =>
      (under_root_iff strict).mp (reads.under strict number member)
    refine ⟨distinct, inside, ?_⟩
    rintro index accepted
    obtain ⟨entries, rfl⟩ := exists_of_map_eq_ok accepted
    refine (List.perm_ext_iff_of_nodup distinct List.nodup_range).mpr fun number => ?_
    rw [List.mem_range]
    exact ⟨inside number, fun there =>
      reads.mem_of_under strict number ((under_root_iff strict).mpr there)⟩

/-- **An arena is a strict tree, read once.** In an arena that is made by edits each command but the
program is a child once, of a parent with a smaller number, and one way leads to it from the
program. An edit keeps every number valid, changes the command that it names only, and puts what it
creates behind the others. Building the index by number ends, with one result, the index of the
tree that the arena holds; it reads each command at most once, and exactly once when it succeeds. -/
theorem made_arena_read_once {arena : Arena} (made : arena.Made) :
    (∀ number < arena.size,
      arena.links.count number = if number = root then 0 else 1) ∧
    (∀ parent node, arena.node? parent = some node →
      ∀ child ∈ node.children, parent < child ∧ child < arena.size) ∧
    (∀ number < arena.size, ∃! way, arena.numberBelow? root way = some number) ∧
    (∀ edit : Edit, edit.target < arena.size →
      (∀ number < arena.size, ((edit.apply arena).node? number).isSome) ∧
      (∀ number < arena.size, (edit.apply arena).node? number =
        if number = edit.target then (arena.node? number).map (edit.change arena.size)
        else arena.node? number) ∧
      (edit.apply arena).nodes.drop arena.size = edit.created) ∧
    ∃ visited, arena.Builds visited arena.command.index ∧
      (∀ other outcome, arena.Builds other outcome →
        other = visited ∧ outcome = arena.command.index) ∧
      visited.Nodup ∧ (∀ number ∈ visited, number < arena.size) ∧
      ∀ index, arena.command.index = .ok index → visited.Perm (List.range arena.size) := by
  have strict := made.strictTree
  refine ⟨?_, ?_, ?_, ?_, ?_⟩
  · intro number there
    exact strict.count_links there
  · intro parent node there child member
    exact ⟨strict.descends there member, strict.child_lt_size there member⟩
  · intro number there
    exact strict.existsUnique_way there
  · intro edit _
    refine ⟨?_, ?_, ?_⟩
    · intro number there
      have sizes := edit.size_apply arena
      exact node?_isSome_iff.mpr (by omega)
    · intro number there
      exact edit.node?_apply there
    · exact edit.drop_nodes_apply arena
  · obtain ⟨visited, builds⟩ := strict.builds
    refine ⟨visited, builds, ?_, strict.reads_once builds⟩
    intro other outcome otherBuilds
    exact otherBuilds.unique builds

/-- A program with a subcommand and a subcommand of that one, the first of which takes a flag. -/
def nestedArena : Arena :=
  (Edit.addOption 1 { flags := ["--all"] }).apply <|
    (Edit.addSubcommand 1 "add").apply <| (Edit.addSubcommand 0 "remote").apply (new "prog")

theorem made_arena_read_once_nestedArena :
    nestedArena.Made ∧ ∃ visited, nestedArena.Builds visited nestedArena.command.index ∧
      nestedArena.command.index.isOk = true ∧ visited.Perm [0, 1, 2] := by
  have made : nestedArena.Made :=
    .edited (.edited (.edited (.new "prog") _ (by decide)) _ (by decide)) _ (by decide)
  have accepted : nestedArena.command.index.isOk = true := by decide +kernel
  refine ⟨made, ?_⟩
  obtain ⟨visited, builds, _, _, _, every⟩ := (made_arena_read_once made).2.2.2.2
  obtain ⟨index, result⟩ : ∃ index, nestedArena.command.index = .ok index := by
    cases result : nestedArena.command.index with
    | error fault =>
      rw [result] at accepted
      cases accepted
    | ok index => exact ⟨index, rfl⟩
  exact ⟨visited, builds, accepted, every index result⟩

end Arena
end CommandCompletion
