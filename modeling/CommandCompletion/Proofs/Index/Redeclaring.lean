import CommandCompletion.Proofs.Index.Content

/-!
# Options declared again

A flag that is declared again with the same slot is passed over, and what is kept of a
declaration is its flags and their slot. So the entry of a command depends on its options
only through the list of all flags, each with its slot (`Command.declareFlags_congr`), and
flags at the end of that list which stand in it before, with the same slot, leave no trace
(`Command.declareFlags_append`).

A change of the options of one command that leaves the entry of that command alone leaves the
index of the whole tree alone, or the fault for which the tree is refused
(`Command.index_changeOptions`).
-/

set_option autoImplicit false

namespace CommandCompletion

namespace Command

/-- The tree with other options for the command at the end of a way down. -/
def changeOptions (change : List OptionDecl → List OptionDecl) : List Nat → Command → Command
  | [], command => { command with options := change command.options }
  | number :: rest, command =>
    { command with subcommands := command.subcommands.modify number (changeOptions change rest) }

/-! ## Flags with their slots -/

/-- A listed flag with the slot that its declaration gives it. -/
def withSlot (declared : DeclaredFlag) : String × SlotData :=
  (declared.1, declared.2.slot)

theorem lookup_map_withSlot (listed : List DeclaredFlag) (flag : String) :
    (listed.map withSlot).lookup flag = (listed.lookup flag).map OptionDecl.slot := by
  induction listed with
  | nil => rfl
  | cons first rest ih =>
    rw [List.map_cons, withSlot, List.lookup_cons, List.lookup_cons]
    cases flag == first.1 with
    | true => rfl
    | false => exact ih

/-- Among lists of the same flags with the same slots, a flag is in none or has one slot. -/
theorem lookup_alike {before others : List DeclaredFlag}
    (alike : before.map withSlot = others.map withSlot) (flag : String) :
    (before.lookup flag = none ∧ others.lookup flag = none) ∨
      ∃ earlier earlierToo, before.lookup flag = some earlier ∧
        others.lookup flag = some earlierToo ∧ earlier.slot = earlierToo.slot := by
  have slots : (before.lookup flag).map OptionDecl.slot =
      (others.lookup flag).map OptionDecl.slot := by
    rw [← lookup_map_withSlot, ← lookup_map_withSlot, alike]
  cases found : before.lookup flag with
  | none =>
    rw [found] at slots
    exact .inl ⟨rfl, Option.map_eq_none_iff.mp slots.symm⟩
  | some earlier =>
    rw [found] at slots
    obtain ⟨earlierToo, foundToo, same⟩ := Option.map_eq_some_iff.mp slots.symm
    exact .inr ⟨earlier, earlierToo, rfl, foundToo, same.symm⟩

/-- What is declared depends on the flags listed and on their slots. -/
theorem declareFlags_congr (key : String) {before others listed listedToo : List DeclaredFlag}
    (met : before.map withSlot = others.map withSlot)
    (alike : listed.map withSlot = listedToo.map withSlot) :
    (declareFlags key before listed).map (List.map withSlot) =
      (declareFlags key others listedToo).map (List.map withSlot) := by
  induction listed generalizing before others listedToo with
  | nil =>
    cases List.map_eq_nil_iff.mp alike.symm
    rfl
  | cons first rest ih =>
    obtain ⟨⟨flag, other⟩, restToo, rfl, same, alikeRest⟩ := List.map_eq_cons_iff.mp alike.symm
    obtain ⟨firstFlag, option⟩ := first
    obtain rfl : flag = firstFlag := congrArg Prod.fst same
    have sameSlot : option.slot = other.slot := (congrArg Prod.snd same).symm
    rw [declareFlags, declareFlags]
    split
    · rfl
    · rcases lookup_alike met flag with ⟨unmet, unmetToo⟩ | ⟨earlier, earlierToo, found, foundToo, slot⟩
      · have metToo : ((flag, option) :: before).map withSlot =
            ((flag, other) :: others).map withSlot := by
          rw [List.map_cons, List.map_cons, met, same]
        have later := ih metToo alikeRest.symm
        have choices : option.choices = other.choices := congrArg SlotData.choices sameSlot
        have provider : option.provider = other.provider := congrArg SlotData.provider sameSlot
        have kept : ∀ (declared : DeclaredFlag) (flags : Except SpecificationFault _),
            (flags >>= fun later => .ok (declared :: later)).map (List.map withSlot) =
              (flags.map (List.map withSlot)).map (withSlot declared :: ·) := by
          intro declared flags
          cases flags <;> rfl
        simp only [unmet, unmetToo, choices, provider]
        cases checkChoices key other.choices with
        | error fault => rfl
        | ok _ =>
          cases checkProvider key other.provider with
          | error fault => rfl
          | ok _ => exact (kept _ _).trans ((congrArg _ later).trans (same ▸ (kept _ _).symm))
      · have decision : earlier.sameSlot option = earlierToo.sameSlot other := by
          rw [Bool.eq_iff_iff, OptionDecl.sameSlot_iff, OptionDecl.sameSlot_iff, slot, sameSlot]
        simp only [found, foundToo, decision]
        split
        · exact ih met alikeRest.symm
        · rfl

/-- A flag that was met before with the same slot is passed over. -/
theorem declareFlags_again (key : String) {before rest : List DeclaredFlag} {flag : String}
    {option earlier : OptionDecl} (checked : (!Text.isWord flag || isPositionalKey flag) = false)
    (found : before.lookup flag = some earlier) (same : earlier.slot = option.slot) :
    declareFlags key before ((flag, option) :: rest) = declareFlags key before rest := by
  simp only [declareFlags, checked, found, OptionDecl.sameSlot_iff.mpr same, if_true,
    Bool.false_eq_true, if_false]

/-- A flag that was met before or is listed, with the same slot. -/
def Recurs (before listed : List DeclaredFlag) (declared : DeclaredFlag) : Prop :=
  (before.lookup declared.1).map OptionDecl.slot = some declared.2.slot ∨
    withSlot declared ∈ listed.map withSlot

/-- A listed flag that was met before with the same slot is not needed in the list. -/
theorem Recurs.of_met {before rest : List DeclaredFlag} {flag : String}
    {option earlier : OptionDecl} {declared : DeclaredFlag}
    (recurs : Recurs before ((flag, option) :: rest) declared)
    (found : before.lookup flag = some earlier) (same : earlier.slot = option.slot) :
    Recurs before rest declared := by
  rcases recurs with met | listed
  · exact .inl met
  · rcases List.mem_cons.mp listed with here | later
    · refine .inl ?_
      obtain ⟨sameFlag, sameSlot⟩ := Prod.mk.inj here
      rw [sameFlag, found, Option.map_some, same, sameSlot]
    · exact .inr later

/-- A listed flag is met from then on. -/
theorem Recurs.of_unmet {before rest : List DeclaredFlag} {flag : String} {option : OptionDecl}
    {declared : DeclaredFlag} (recurs : Recurs before ((flag, option) :: rest) declared)
    (unmet : before.lookup flag = none) : Recurs ((flag, option) :: before) rest declared := by
  rcases recurs with met | listed
  · refine .inl ?_
    have different : declared.1 ≠ flag := by
      intro same
      simp [same, unmet] at met
    rwa [List.lookup_cons, beq_eq_false_iff_ne.mpr different]
  · rcases List.mem_cons.mp listed with here | later
    · obtain ⟨sameFlag, sameSlot⟩ := Prod.mk.inj here
      exact .inl (by rw [sameFlag, List.lookup_cons_self, Option.map_some, sameSlot])
    · exact .inr later

/-- Flags that were all met before with the same slots are passed over. -/
theorem declareFlags_met (key : String) {before more : List DeclaredFlag}
    (checked : ∀ declared ∈ before,
      (!Text.isWord declared.1 || isPositionalKey declared.1) = false)
    (again : ∀ declared ∈ more, Recurs before [] declared) :
    declareFlags key before more = .ok [] := by
  induction more with
  | nil => rfl
  | cons first rest ih =>
    obtain ⟨flag, option⟩ := first
    obtain ⟨here, later⟩ := List.forall_mem_cons.mp again
    have slots := here.resolve_right List.not_mem_nil
    obtain ⟨earlier, found, same⟩ := Option.map_eq_some_iff.mp slots
    obtain ⟨_, _, split, _⟩ := List.lookup_eq_some_iff.mp found
    have member : (flag, earlier) ∈ before := by simp [split]
    exact (declareFlags_again key (checked _ member) found same).trans (ih later)

/-- Flags at the end of a list that were met or listed before, with the same slots, are passed
over. -/
theorem declareFlags_append (key : String) {before listed more : List DeclaredFlag}
    (checked : ∀ declared ∈ before,
      (!Text.isWord declared.1 || isPositionalKey declared.1) = false)
    (again : ∀ declared ∈ more, Recurs before listed declared) :
    declareFlags key before (listed ++ more) = declareFlags key before listed := by
  induction listed generalizing before with
  | nil => exact declareFlags_met key checked again
  | cons first rest ih =>
    obtain ⟨flag, option⟩ := first
    rw [List.cons_append, declareFlags, declareFlags]
    split
    · rfl
    · rename_i good
      cases found : before.lookup flag with
      | some earlier =>
        simp only
        split
        · rename_i same
          exact ih checked fun declared member =>
            (again declared member).of_met found (OptionDecl.sameSlot_iff.mp same)
        · rfl
      | none =>
        have checkedNow : ∀ declared ∈ (flag, option) :: before,
            (!Text.isWord declared.1 || isPositionalKey declared.1) = false :=
          List.forall_mem_cons.mpr ⟨Bool.eq_false_iff.mpr good, checked⟩
        simp only [ih checkedNow fun declared member => (again declared member).of_unmet found]

/-! ## Entries -/

/-- The entry of a command depends on its options through the flags declared with their slots. -/
theorem entry_congr {key : String} {command other : Command}
    (names : command.subcommandNames = other.subcommandNames)
    (positionals : command.positionals = other.positionals)
    (flags : (declareFlags key [] (listedFlags command.options)).map (List.map withSlot) =
      (declareFlags key [] (listedFlags other.options)).map (List.map withSlot)) :
    entry key command = entry key other := by
  have sameEntry : ∀ {kept keptToo : List DeclaredFlag}, kept.map withSlot = keptToo.map withSlot →
      command.entryOf kept = other.entryOf keptToo := by
    intro kept keptToo same
    have slots : flagSlots kept = flagSlots keptToo := same
    have listed : kept.map (·.1) = keptToo.map (·.1) := by
      simpa [withSlot, Function.comp_def] using congrArg (List.map Prod.fst) same
    rw [entryOf, entryOf, slots, listed, positionals]
    exact congrArg (IndexEntry.mk · _ _ _ _) names
  rw [entry, entry, positionals]
  refine congrArg₂ (· >>= ·) (congrArg (checkSubcommands key []) names) (funext fun _ => ?_)
  revert flags
  cases declareFlags key [] (listedFlags command.options) <;>
    cases declareFlags key [] (listedFlags other.options) <;> intro flags
  · cases flags
    rfl
  · cases flags
  · cases flags
  · have same := sameEntry (Except.ok.inj flags)
    exact congrArg (fun own => checkPositionals key other.positionals >>= fun _ => .ok own) same

/-- A declaration whose flags are all listed before, each with the same slot, adds nothing to the
entry of a command. -/
theorem entry_append_option (key : String) {command : Command} {extra : OptionDecl}
    (again : ∀ flag ∈ extra.flags, ∃ earlier ∈ command.options,
      flag ∈ earlier.flags ∧ earlier.slot = extra.slot) :
    entry key { command with options := command.options ++ [extra] } = entry key command := by
  have listed : listedFlags (command.options ++ [extra]) =
      listedFlags command.options ++ extra.flags.map fun flag => (flag, extra) := by
    simp [listedFlags]
  refine entry_congr rfl rfl (congrArg (Except.map _) ?_)
  rw [listed]
  refine declareFlags_append key (fun _ member => absurd member List.not_mem_nil)
    fun declared member => .inr ?_
  obtain ⟨flag, inside, rfl⟩ := List.mem_map.mp member
  obtain ⟨earlier, declared, inEarlier, same⟩ := again flag inside
  exact List.mem_map.mpr ⟨(flag, earlier), mem_listedFlags_iff.mpr ⟨declared, inEarlier⟩,
    Prod.ext rfl same⟩

/-- A declaration may be split into two with the same slot. -/
theorem entry_split_option (key : String) {command : Command} {before after : List OptionDecl}
    {option : OptionDecl} {flags further : List String}
    (declared : command.options = before ++ option :: after)
    (listed : option.flags = flags ++ further) :
    entry key { command with options :=
      before ++ { option with flags := flags } :: { option with flags := further } :: after } =
        entry key command := by
  refine entry_congr rfl rfl (declareFlags_congr key rfl ?_)
  simp [declared, listed, listedFlags, withSlot, OptionDecl.slot, Function.comp_def]

/-! ## A change at one command of a tree -/

theorem name_changeOptions (change : List OptionDecl → List OptionDecl) (way : List Nat)
    (command : Command) : (command.changeOptions change way).name = command.name := by
  cases way <;> rfl

theorem addAllEntries_modify {change : Command → Command} {key : String} {number : Nat}
    {commands : List Command} (names : ∀ command, (change command).name = command.name)
    (same : ∀ command, commands[number]? = some command → ∀ key entries,
      addEntries key entries (change command) = addEntries key entries command)
    (entries : Table IndexEntry) :
    addAllEntries key entries (commands.modify number change) =
      addAllEntries key entries commands := by
  induction commands generalizing number entries with
  | nil => simp
  | cons first rest ih =>
    cases number with
    | zero =>
      rw [List.modify_zero_cons, addAllEntries, addAllEntries, names, same first rfl]
    | succ number =>
      rw [List.modify_succ_cons, addAllEntries, addAllEntries]
      exact congrArg _ (funext fun extended => ih same extended)

/-- A change of options that leaves the entry of the command alone leaves the entries of the tree
alone. -/
theorem addEntries_changeOptions {change : List OptionDecl → List OptionDecl} {way : List Nat}
    {command : Command}
    (same : ∀ target, command.below? way = some target → ∀ key,
      entry key { target with options := change target.options } = entry key target)
    (key : String) (entries : Table IndexEntry) :
    addEntries key entries (command.changeOptions change way) =
      addEntries key entries command := by
  induction way generalizing command key entries with
  | nil =>
    have own := same command rfl key
    obtain ⟨name, options, positionals, subcommands⟩ := command
    rw [changeOptions, addEntries, addEntries]
    simp only at own
    rw [own]
  | cons number rest ih =>
    have below : ∀ child, command.subcommands[number]? = some child → ∀ key entries,
        addEntries key entries (child.changeOptions change rest) = addEntries key entries child := by
      intro child chosen
      refine ih fun target found => same target ?_
      rw [below?, chosen]
      exact found
    obtain ⟨name, options, positionals, subcommands⟩ := command
    have names : (subcommands.modify number (changeOptions change rest)).map (·.name) =
        subcommands.map (·.name) := by
      refine List.ext_getElem? fun place => ?_
      rw [List.getElem?_map, List.getElem?_map, List.getElem?_modify]
      split <;> simp [Function.comp_def, name_changeOptions]
    have own : entry key ⟨name, options, positionals,
        subcommands.modify number (changeOptions change rest)⟩ =
          entry key ⟨name, options, positionals, subcommands⟩ :=
      entry_congr names rfl rfl
    rw [changeOptions, addEntries, addEntries]
    simp only [own, addAllEntries_modify (name_changeOptions change rest) below]

/-- A change of options that leaves the entry of the command alone leaves the index alone, or the
fault of a tree that is refused. -/
theorem index_changeOptions {change : List OptionDecl → List OptionDecl} {root : Command}
    (place : Place root)
    (same : ∀ key, entry key { place.command with options := change place.command.options } =
      entry key place.command) :
    (root.changeOptions change place.way).index = root.index := by
  have sameThere : ∀ target, root.below? place.way = some target → ∀ key,
      entry key { target with options := change target.options } = entry key target := by
    intro target found key
    cases place.reached.symm.trans found
    exact same key
  have entries := addEntries_changeOptions sameThere root.name Table.empty
  rw [index, index, name_changeOptions, entries]

end Command

/-- **Identical declarations are merged without trace.** At any command of any tree, a declaration
behind the others whose flags all have earlier declarations with the same arity, choices and
provider changes nothing: neither the index of the tree, nor the fault if the tree is refused. The
same holds if a declaration is split into two with the same slot, one behind the other. -/
theorem redeclarations_merged (root : Command) (place : Place root) :
    (∀ extra : OptionDecl,
      (∀ flag ∈ extra.flags, ∃ earlier ∈ place.command.options,
        flag ∈ earlier.flags ∧ earlier.slot = extra.slot) →
      (root.changeOptions (· ++ [extra]) place.way).index = root.index) ∧
    ∀ (before : List OptionDecl) (option : OptionDecl) (after : List OptionDecl)
      (flags further : List String),
      place.command.options = before ++ option :: after → option.flags = flags ++ further →
      (root.changeOptions (fun _ => before ++ { option with flags := flags } ::
        { option with flags := further } :: after) place.way).index = root.index := by
  constructor
  · intro extra again
    exact Command.index_changeOptions place fun key => Command.entry_append_option key again
  · intro before option after flags further declared listed
    exact Command.index_changeOptions place fun key =>
      Command.entry_split_option key declared listed

/-- A program with a subcommand two of whose options have the same slot. -/
def jobsProgram : Command where
  name := "prog"
  subcommands := [
    { name := "run"
      options := [{ flags := ["-j", "--jobs"], arity := .exactly 1, provider := some "cores" },
        { flags := ["-q"], arity := .exactly 1, provider := some "cores" }] }]

theorem redeclarations_merged_jobsProgram :
    jobsProgram.index.isOk = true ∧
    (jobsProgram.changeOptions
      (· ++ [{ flags := ["-q", "--jobs", "-q"], arity := .exactly 1, provider := some "cores" }])
        [0]).index = jobsProgram.index ∧
    (jobsProgram.changeOptions
      (fun _ => [{ flags := ["-j"], arity := .exactly 1, provider := some "cores" },
        { flags := ["--jobs"], arity := .exactly 1, provider := some "cores" },
        { flags := ["-q"], arity := .exactly 1, provider := some "cores" }]) [0]).index =
          jobsProgram.index := by
  obtain ⟨appended, split⟩ := redeclarations_merged jobsProgram ⟨[0], _, rfl⟩
  refine ⟨by decide +kernel, appended _ ?_, ?_⟩
  · decide
  · exact split [] { flags := ["-j", "--jobs"], arity := .exactly 1, provider := some "cores" }
      [{ flags := ["-q"], arity := .exactly 1, provider := some "cores" }] ["-j"] ["--jobs"] rfl rfl

end CommandCompletion
