import CommandCompletion.Index.Build
import CommandCompletion.Proofs.Text.Words
import CommandCompletion.Proofs.Tree.Places
import Mathlib.Data.List.Nodup

/-!
# What is checked of one command

A command declares slots: each positional under the key of its place, each option under
every one of its flags (`Command.Declares`). A command is sound when a script can hold
its names and the texts of its slots, its subcommands have different names, and options
that share a flag agree on its slot (`Command.Sound`). The defects of a command are
listed one by one, each with the fault that names it (`Command.Defect`); the sound
commands are those that have none.

The checks say the same. When they accept a command it is sound, and the flags they
return are the first declarations of the flags listed (`Command.FirstDeclarations`). When
they refuse it, the fault names a defect that the command has (`Command.entry_error`).
-/

set_option autoImplicit false

namespace CommandCompletion

/-! ## Chains of checks -/

theorem bind_eq_ok_iff {ε α β : Type} {first : Except ε α} {rest : α → Except ε β} {final : β} :
    (first >>= rest) = .ok final ↔ ∃ value, first = .ok value ∧ rest value = .ok final := by
  cases first <;> simp [bind, Except.bind]

theorem bind_eq_error_iff {ε α β : Type} {first : Except ε α} {rest : α → Except ε β} {fault : ε} :
    (first >>= rest) = .error fault ↔
      first = .error fault ∨ ∃ value, first = .ok value ∧ rest value = .error fault := by
  cases first <;> simp [bind, Except.bind]

/-! ## Slots -/

/-- What the slot of an option takes. -/
def OptionDecl.slot (option : OptionDecl) : Command.SlotData :=
  ⟨option.arity, option.choices, option.provider⟩

/-- What the slot of a positional takes. -/
def PositionalDecl.slot (positional : PositionalDecl) : Command.SlotData :=
  ⟨positional.arity, positional.choices, positional.provider⟩

theorem OptionDecl.sameSlot_iff {first second : OptionDecl} :
    first.sameSlot second = true ↔ first.slot = second.slot := by
  simp [sameSlot, slot, and_assoc]

namespace Command

/-- A slot whose choices and provider a script can hold. -/
structure SlotData.Writable (data : SlotData) : Prop where
  choices : ∀ values, data.choices = some values → ∀ value ∈ values, Text.Plain value
  provider : ∀ name, data.provider = some name → Text.Word name

/-- A text of a slot that a script cannot hold. -/
inductive SlotData.BadText (data : SlotData) : String → Prop where
  | choice {values : List String} {value : String} (given : data.choices = some values)
      (listed : value ∈ values) (bad : ¬Text.Plain value) : data.BadText value
  | provider {name : String} (given : data.provider = some name) (bad : ¬Text.Word name) :
      data.BadText name

theorem SlotData.Writable.no_badText {data : SlotData} (writable : data.Writable) {text : String} :
    ¬data.BadText text := by
  intro badText
  cases badText with
  | choice given listed bad => exact bad (writable.choices _ given _ listed)
  | provider given bad => exact bad (writable.provider _ given)

/-- The slots that a command declares, by key: an option has one under each of its flags, a
positional under the key of its place. -/
inductive Declares (command : Command) : String → SlotData → Prop where
  | flag {option : OptionDecl} {flag : String} (declared : option ∈ command.options)
      (listed : flag ∈ option.flags) : command.Declares flag option.slot
  | positional {place : Nat} {positional : PositionalDecl}
      (declared : command.positionals[place]? = some positional) :
      command.Declares (positionalKey place) positional.slot

/-! ## Sound commands and defects -/

/-- A command that a script can hold, its subcommands taken by name only. -/
structure Sound (command : Command) : Prop where
  /-- The names of subcommands are words other than the separator. -/
  subcommandNames : ∀ name ∈ command.subcommandNames, Text.Word name ∧ name ≠ "--"
  /-- No two subcommands have one name. -/
  subcommandsDiffer : command.subcommandNames.Nodup
  /-- Flags are words that no positional slot could be named by. -/
  flags : ∀ option ∈ command.options, ∀ flag ∈ option.flags,
    Text.Word flag ∧ ¬PositionalForm flag
  /-- Options that list one flag agree on its arity, its choices and its provider. -/
  optionsAgree : ∀ first ∈ command.options, ∀ second ∈ command.options, ∀ flag,
    flag ∈ first.flags → flag ∈ second.flags → first.slot = second.slot
  /-- The choices of every slot are free of control characters and its provider is a word. -/
  slots : ∀ slot data, command.Declares slot data → data.Writable

/-- What may be wrong with the command under a key, with the fault that names it. -/
inductive Defect (key : String) (command : Command) : SpecificationFault → Prop where
  | subcommandName {name : String} (listed : name ∈ command.subcommandNames)
      (bad : ¬Text.Word name ∨ name = "--") : Defect key command (.invalidName key name)
  | subcommandTwice {name : String} (twice : 1 < command.subcommandNames.count name) :
      Defect key command (.duplicateSubcommand key name)
  | flagName {option : OptionDecl} {flag : String} (declared : option ∈ command.options)
      (listed : flag ∈ option.flags) (bad : ¬Text.Word flag ∨ PositionalForm flag) :
      Defect key command (.invalidName key flag)
  | flagConflict {first second : OptionDecl} {flag : String} (declared : first ∈ command.options)
      (declaredToo : second ∈ command.options) (listed : flag ∈ first.flags)
      (listedToo : flag ∈ second.flags) (differ : first.slot ≠ second.slot) :
      Defect key command (.conflictingOption key flag)
  | slotText {slot text : String} {data : SlotData} (declared : command.Declares slot data)
      (bad : data.BadText text) : Defect key command (.invalidName key text)

/-- Nothing is wrong with a sound command. -/
theorem Sound.no_defect {command : Command} (sound : command.Sound) {key : String}
    {fault : SpecificationFault} : ¬command.Defect key fault := by
  intro defect
  cases defect with
  | subcommandName listed bad =>
    obtain ⟨word, notSeparator⟩ := sound.subcommandNames _ listed
    exact bad.elim (· word) notSeparator
  | subcommandTwice twice =>
    have once := List.nodup_iff_count_le_one.mp sound.subcommandsDiffer
    exact absurd (once _) (Nat.not_le.mpr twice)
  | flagName declared listed bad =>
    obtain ⟨word, notReserved⟩ := sound.flags _ declared _ listed
    exact bad.elim (· word) notReserved
  | flagConflict declared declaredToo listed listedToo differ =>
    exact differ (sound.optionsAgree _ declared _ declaredToo _ listed listedToo)
  | slotText declared bad => exact (sound.slots _ _ declared).no_badText bad

/-- The list of defects is complete: a command with none of them is sound. -/
theorem sound_of_no_defect {key : String} {command : Command}
    (none : ∀ fault, ¬command.Defect key fault) : command.Sound where
  subcommandNames := by
    intro name listed
    constructor
    · by_contra bad
      exact none _ (.subcommandName listed (.inl bad))
    · intro separator
      exact none _ (.subcommandName listed (.inr separator))
  subcommandsDiffer := by
    refine List.nodup_iff_count_le_one.mpr fun name => ?_
    by_contra twice
    exact none _ (.subcommandTwice (Nat.lt_of_not_le twice))
  flags := by
    intro option declared flag listed
    constructor
    · by_contra bad
      exact none _ (.flagName declared listed (.inl bad))
    · intro reserved
      exact none _ (.flagName declared listed (.inr reserved))
  optionsAgree := by
    intro first declared second declaredToo flag listed listedToo
    by_contra differ
    exact none _ (.flagConflict declared declaredToo listed listedToo differ)
  slots := by
    intro slot data declares
    constructor
    · intro values given value listed
      by_contra bad
      exact none _ (.slotText declares (.choice given listed bad))
    · intro name given
      by_contra bad
      exact none _ (.slotText declares (.provider given bad))

/-! ## What single checks say -/

theorem checkWord_eq_ok_iff {key word : String} {result : Unit} :
    checkWord key word = .ok result ↔ Text.Word word := by
  rw [← Text.isWord_iff, checkWord]
  cases Text.isWord word <;> simp

theorem checkWord_eq_error_iff {key word : String} {fault : SpecificationFault} :
    checkWord key word = .error fault ↔ ¬Text.Word word ∧ fault = .invalidName key word := by
  rw [← Text.isWord_iff, checkWord]
  cases Text.isWord word <;> simp [eq_comm]

theorem checkChoices_ok {key : String} {choices : Option (List String)} {result : Unit}
    (accepted : checkChoices key choices = .ok result) :
    ∀ values, choices = some values → ∀ value ∈ values, Text.Plain value := by
  rintro values rfl value listed
  simp only [checkChoices] at accepted
  split at accepted
  · cases accepted
  · rename_i none
    by_contra bad
    exact List.find?_eq_none.mp none value listed (Text.any_isControl_iff.mpr bad)

theorem checkChoices_error {key : String} (data : SlotData) {fault : SpecificationFault}
    (refused : checkChoices key data.choices = .error fault) :
    ∃ text, data.BadText text ∧ fault = .invalidName key text := by
  cases given : data.choices with
  | none =>
    rw [given] at refused
    cases refused
  | some values =>
    rw [given] at refused
    simp only [checkChoices] at refused
    split at refused
    · rename_i value found
      cases refused
      refine ⟨value, .choice given (List.mem_of_find?_eq_some found) ?_, rfl⟩
      have control := List.find?_some found
      exact Text.any_isControl_iff.mp control
    · cases refused

theorem checkProvider_ok {key : String} {provider : Option String} {result : Unit}
    (accepted : checkProvider key provider = .ok result) :
    ∀ name, provider = some name → Text.Word name := by
  rintro name rfl
  exact checkWord_eq_ok_iff.mp accepted

theorem checkProvider_error {key : String} (data : SlotData) {fault : SpecificationFault}
    (refused : checkProvider key data.provider = .error fault) :
    ∃ text, data.BadText text ∧ fault = .invalidName key text := by
  cases given : data.provider with
  | none =>
    rw [given] at refused
    cases refused
  | some name =>
    rw [given] at refused
    obtain ⟨bad, rfl⟩ := checkWord_eq_error_iff.mp refused
    exact ⟨name, .provider given bad, rfl⟩

/-! ## Names of subcommands -/

theorem checkSubcommands_ok {key : String} {before names : List String} {result : Unit}
    (accepted : checkSubcommands key before names = .ok result) :
    (∀ name ∈ names, Text.Word name ∧ name ≠ "--") ∧ names.Nodup ∧
      ∀ name ∈ names, name ∉ before := by
  induction names generalizing before with
  | nil => simp
  | cons name rest ih =>
    simp only [checkSubcommands] at accepted
    split at accepted
    · cases accepted
    · rename_i good
      split at accepted
      · cases accepted
      · rename_i new
        obtain ⟨words, distinct, fresh⟩ := ih accepted
        simp only [Bool.or_eq_true, Bool.not_eq_true', not_or, Bool.not_eq_false, beq_iff_eq,
          Text.isWord_iff] at good
        refine ⟨List.forall_mem_cons.mpr ⟨good, words⟩, List.nodup_cons.mpr ⟨?_, distinct⟩, ?_⟩
        · intro member
          exact fresh name member List.mem_cons_self
        · refine List.forall_mem_cons.mpr ⟨by simpa using new, fun other member inside => ?_⟩
          exact fresh other member (List.mem_cons_of_mem _ inside)

/-- A refused list of names holds a bad name or a name for the second time, those met before
counted in. -/
theorem checkSubcommands_error {key : String} {before names : List String}
    {fault : SpecificationFault} (refused : checkSubcommands key before names = .error fault) :
    (∃ name ∈ names, (¬Text.Word name ∨ name = "--") ∧ fault = .invalidName key name) ∨
      ∃ name, 1 < (before ++ names).count name ∧ fault = .duplicateSubcommand key name := by
  induction names generalizing before with
  | nil => cases refused
  | cons name rest ih =>
    simp only [checkSubcommands] at refused
    split at refused
    · rename_i bad
      simp only [Bool.or_eq_true, Bool.not_eq_true', ← Bool.not_eq_true, beq_iff_eq,
        Text.isWord_iff] at bad
      exact .inl ⟨name, List.mem_cons_self, bad, (Except.error.inj refused).symm⟩
    · split at refused
      · rename_i old
        refine .inr ⟨name, ?_, (Except.error.inj refused).symm⟩
        have met : 0 < before.count name := List.count_pos_iff.mpr (by simpa using old)
        rw [List.count_append, List.count_cons_self]
        omega
      · rcases ih refused with ⟨other, listed, bad, rfl⟩ | ⟨other, twice, rfl⟩
        · exact .inl ⟨other, List.mem_cons_of_mem _ listed, bad, rfl⟩
        · refine .inr ⟨other, ?_, rfl⟩
          simp only [List.count_append, List.count_cons] at twice ⊢
          omega

/-! ## Flags -/

theorem mem_listedFlags_iff {options : List OptionDecl} {declared : DeclaredFlag} :
    declared ∈ listedFlags options ↔ declared.2 ∈ options ∧ declared.1 ∈ declared.2.flags := by
  simp only [listedFlags, List.mem_flatMap, List.mem_map]
  constructor
  · rintro ⟨option, member, flag, listed, rfl⟩
    exact ⟨member, listed⟩
  · rintro ⟨member, listed⟩
    exact ⟨declared.2, member, declared.1, listed, rfl⟩

/-- How the first declarations are picked out of a list of flags, given those met before: a flag
that was met is passed over if its slot is the same, a new one is kept. -/
inductive FirstDeclarations : List DeclaredFlag → List DeclaredFlag → List DeclaredFlag → Prop where
  | done (before : List DeclaredFlag) : FirstDeclarations before [] []
  | again {before rest flags : List DeclaredFlag} {flag : String} {option earlier : OptionDecl}
      (met : before.lookup flag = some earlier) (same : earlier.slot = option.slot)
      (further : FirstDeclarations before rest flags) :
      FirstDeclarations before ((flag, option) :: rest) flags
  | new {before rest flags : List DeclaredFlag} {flag : String} {option : OptionDecl}
      (word : Text.Word flag) (free : ¬PositionalForm flag) (unmet : before.lookup flag = none)
      (writable : option.slot.Writable)
      (further : FirstDeclarations ((flag, option) :: before) rest flags) :
      FirstDeclarations before ((flag, option) :: rest) ((flag, option) :: flags)

theorem declareFlags_ok {key : String} {before listed flags : List DeclaredFlag}
    (accepted : declareFlags key before listed = .ok flags) :
    FirstDeclarations before listed flags := by
  induction listed generalizing before flags with
  | nil =>
    cases accepted
    exact .done before
  | cons first rest ih =>
    obtain ⟨flag, option⟩ := first
    simp only [declareFlags] at accepted
    split at accepted
    · cases accepted
    · rename_i good
      simp only [Bool.or_eq_true, Bool.not_eq_true', not_or, Bool.not_eq_false, Text.isWord_iff,
        isPositionalKey_iff] at good
      split at accepted
      · rename_i earlier met
        split at accepted
        · rename_i same
          exact .again met (OptionDecl.sameSlot_iff.mp same) (ih accepted)
        · cases accepted
      · rename_i unmet
        obtain ⟨_, choicesAccepted, accepted⟩ := bind_eq_ok_iff.mp accepted
        obtain ⟨_, providerAccepted, accepted⟩ := bind_eq_ok_iff.mp accepted
        obtain ⟨later, further, kept⟩ := bind_eq_ok_iff.mp accepted
        cases kept
        refine .new good.1 good.2 unmet ⟨?_, ?_⟩ (ih further)
        · exact checkChoices_ok choicesAccepted
        · exact checkProvider_ok providerAccepted

/-- A refused list of flags holds a flag with a defect, the declarations met before being among
those of the command. -/
theorem declareFlags_error {key : String} {command : Command} {before listed : List DeclaredFlag}
    {fault : SpecificationFault} (refused : declareFlags key before listed = .error fault)
    (metBefore : ∀ declared ∈ before, declared ∈ listedFlags command.options)
    (ahead : ∀ declared ∈ listed, declared ∈ listedFlags command.options) :
    command.Defect key fault := by
  induction listed generalizing before with
  | nil => cases refused
  | cons first rest ih =>
    obtain ⟨flag, option⟩ := first
    obtain ⟨here, later⟩ := List.forall_mem_cons.mp ahead
    obtain ⟨declared, listed⟩ := mem_listedFlags_iff.mp here
    simp only [declareFlags] at refused
    split at refused
    · rename_i bad
      simp only [Bool.or_eq_true, Bool.not_eq_true', ← Bool.not_eq_true, Text.isWord_iff,
        isPositionalKey_iff] at bad
      cases refused
      exact .flagName declared listed bad
    · split at refused
      · rename_i earlier met
        split at refused
        · exact ih refused metBefore later
        · rename_i differ
          obtain ⟨_, _, split, _⟩ := List.lookup_eq_some_iff.mp met
          have member : (flag, earlier) ∈ before := by simp [split]
          obtain ⟨declaredBefore, listedBefore⟩ := mem_listedFlags_iff.mp (metBefore _ member)
          cases refused
          exact .flagConflict declaredBefore declared listedBefore listed
            (fun same => differ (OptionDecl.sameSlot_iff.mpr same))
      · have slot : command.Declares flag option.slot := .flag declared listed
        rcases bind_eq_error_iff.mp refused with refused | ⟨_, _, refused⟩
        · obtain ⟨text, bad, rfl⟩ := checkChoices_error option.slot refused
          exact .slotText slot bad
        · rcases bind_eq_error_iff.mp refused with refused | ⟨_, _, refused⟩
          · obtain ⟨text, bad, rfl⟩ := checkProvider_error option.slot refused
            exact .slotText slot bad
          · rcases bind_eq_error_iff.mp refused with refused | ⟨_, _, impossible⟩
            · exact ih refused (List.forall_mem_cons.mpr ⟨here, metBefore⟩) later
            · cases impossible

namespace FirstDeclarations

variable {before listed flags : List DeclaredFlag}

/-- Only flags that were listed are kept. -/
theorem kept_listed (picked : FirstDeclarations before listed flags) :
    ∀ declared ∈ flags, declared ∈ listed := by
  induction picked with
  | done => intro declared member; cases member
  | again _ _ _ ih => exact fun declared member => List.mem_cons_of_mem _ (ih declared member)
  | new _ _ _ _ _ ih =>
    refine List.forall_mem_cons.mpr ⟨List.mem_cons_self, fun declared member => ?_⟩
    exact List.mem_cons_of_mem _ (ih declared member)

/-- Every listed flag has a declaration among those met before and those kept, with the slot of
the listed one. -/
theorem listed_kept (picked : FirstDeclarations before listed flags) :
    ∀ declared ∈ listed, ∃ first, (before ++ flags).lookup declared.1 = some first ∧
      first.slot = declared.2.slot := by
  induction picked with
  | done => intro declared member; cases member
  | again met same _ ih =>
    refine List.forall_mem_cons.mpr ⟨⟨_, ?_, same⟩, ih⟩
    rw [List.lookup_append, met, Option.some_or]
  | @new before rest flags flag option _ _ unmet _ _ ih =>
    refine List.forall_mem_cons.mpr ⟨⟨option, ?_, rfl⟩, fun declared member => ?_⟩
    · rw [List.lookup_append, unmet, Option.none_or, List.lookup_cons_self]
    · obtain ⟨first, found, same⟩ := ih declared member
      refine ⟨first, ?_, same⟩
      -- The new flag goes from the flags kept to those met, which changes no look-up.
      rw [← found]
      by_cases here : declared.1 = flag
      · simp [List.lookup_append, here, unmet]
      · simp [List.lookup_append, List.lookup_cons, beq_eq_false_iff_ne.mpr here]

/-- The flags kept are those listed that were not met before, each at its first occurrence. -/
theorem kept_names (picked : FirstDeclarations before listed flags) :
    flags.map (·.1) =
      ((listed.map (·.1)).filter fun flag => (before.lookup flag).isNone).eraseDups := by
  induction picked with
  | done => rfl
  | again met _ _ ih => simp [met, ih]
  | @new before rest flags flag option _ _ unmet _ _ ih =>
    simp only [List.map_cons, List.filter_cons, unmet, Option.isNone_none, if_true,
      List.eraseDups_cons, List.filter_filter, ih]
    congr 3
    funext other
    rw [List.lookup_cons]
    cases same : other == flag <;> simp

theorem kept_sound (picked : FirstDeclarations before listed flags) :
    ∀ declared ∈ flags, Text.Word declared.1 ∧ ¬PositionalForm declared.1 ∧
      declared.2.slot.Writable := by
  induction picked with
  | done => intro declared member; cases member
  | again _ _ _ ih => exact ih
  | new word free _ writable _ ih => exact List.forall_mem_cons.mpr ⟨⟨word, free, writable⟩, ih⟩

end FirstDeclarations

end Command

end CommandCompletion
