import CommandCompletion.Proofs.Index.Queries
import CommandCompletion.Walk.Context

/-!
# What is true after any words

A rule changes the state of a walk whether it claims the word or hands it on, so what
every rule preserves is preserved by any list of rules, in any order and with any
repetitions (`WalkState.applyRules_induction`), and by any list of words
(`WalkState.walk_induction`).

Three properties are preserved in this way. The key of the state stays a key of the
index, since only the name of a subcommand changes it. Once the separator was met the
key does not change any more. And a slot that is open is one that its command declares,
with the declared arity, and can still take a word (`ActiveSlot.Fits`): a slot that the
command does not declare is closed by the word that would open it.
-/

set_option autoImplicit false

namespace CommandCompletion

/-- The state in which a rule leaves the walk. -/
def Verdict.state : Verdict → WalkState
  | .claimed state | .passed state => state

@[simp] theorem Verdict.state_claimed (state : WalkState) : (claimed state).state = state := rfl

@[simp] theorem Verdict.state_passed (state : WalkState) : (passed state).state = state := rfl

/-- An open slot of the command with a given key, a number of whose positionals is filled. -/
structure ActiveSlot.Fits (index : Index) (node : String) (filled : Nat) (slot : ActiveSlot) :
    Prop where
  /-- The slot can still take a word. -/
  unexhausted : slot.isExhausted = false
  /-- The slot is declared, with this arity. -/
  arity : index.arity node slot.key = some slot.arity
  /-- A positional slot is that of the first positional which is not filled, and has a word. -/
  positional : slot.kind = .positional → slot.key = positionalKey filled ∧ 1 ≤ slot.consumed
  /-- The slot of an option is named by a flag of the command, and takes words. -/
  option : slot.kind = .option → slot.key ∈ index.flags node ∧ slot.arity ≠ .exactly 0

namespace WalkState

/-- A state at a known command, whose open slot is one of that command. -/
structure Valid (index : Index) (state : WalkState) : Prop where
  known : index.hasKey state.node = true
  fits : ∀ slot, state.active = some slot → slot.Fits index state.node state.filled

variable {index : Index} {description : Description} {word : String}

/-! ## From one rule to a walk -/

/-- What every rule preserves is preserved by the rules that are tried for a word. -/
theorem applyRules_induction {motive : WalkState → Prop}
    (step : ∀ rule state, motive state →
      motive (state.apply index description word rule).state)
    (rules : List WalkRule) {state : WalkState} (holds : motive state) :
    motive (applyRules index description word rules state) := by
  induction rules generalizing state with
  | nil => exact holds
  | cons rule rest ih =>
    have after := step rule state holds
    rw [applyRules]
    cases verdict : state.apply index description word rule with
    | claimed final =>
      rw [verdict] at after
      exact after
    | passed passing =>
      rw [verdict] at after
      exact ih after

/-- What every word preserves is preserved by a list of words. -/
theorem walk_induction {motive : WalkState → Prop}
    (step : ∀ state word, motive state → motive (state.next index description word))
    (words : List String) {state : WalkState} (holds : motive state) :
    motive (state.walk index description words) := by
  induction words generalizing state with
  | nil => exact holds
  | cons word rest ih => exact ih (step state word holds)

theorem walk_append (state : WalkState) (words further : List String) :
    state.walk index description (words ++ further) =
      (state.walk index description words).walk index description further :=
  List.foldl_append

theorem rooted_of_hasKey {state : WalkState} (known : index.hasKey state.node = true) :
    state.rooted index = state := by
  rw [rooted, Index.resolve_of_hasKey known]

/-! ## Closing a slot -/

@[simp] theorem release_node (state : WalkState) : state.release.node = state.node := by
  unfold release
  split <;> rfl

@[simp] theorem release_positionalOnly (state : WalkState) :
    state.release.positionalOnly = state.positionalOnly := by
  unfold release
  split <;> rfl

@[simp] theorem release_active (state : WalkState) : state.release.active = none := by
  unfold release
  split
  · rfl
  · assumption

@[simp] theorem settle_node (state : WalkState) : state.settle.node = state.node := by
  unfold settle
  split <;> simp

@[simp] theorem settle_positionalOnly (state : WalkState) :
    state.settle.positionalOnly = state.positionalOnly := by
  unfold settle
  split <;> simp

/-! ## The command reached -/

/-- When a rule for subcommands or flags claims a word. -/
theorem claims_iff {only known : Bool} :
    ¬(only || !known) = true ↔ only = false ∧ known = true := by
  simp

/-- A rule leaves the command unless the word names one of its subcommands and options may
still follow; then it may lead to that subcommand. -/
theorem node_apply (rule : WalkRule) (state : WalkState) :
    (state.apply index description word rule).state.node = state.node ∨
      state.positionalOnly = false ∧ index.isSubcommand state.node word = true ∧
        (state.apply index description word rule).state.node = childKey state.node word := by
  cases rule with
  | absorb =>
    left
    simp only [apply, absorb]
    split
    · rfl
    · split <;> simp
  | separator =>
    left
    simp only [apply, separate]
    split <;> rfl
  | subcommand =>
    simp only [apply, descend]
    split
    · exact .inl rfl
    · rename_i descends
      obtain ⟨notOnly, listed⟩ := claims_iff.mp descends
      exact .inr ⟨notOnly, listed, rfl⟩
  | flag =>
    left
    simp only [apply, openOption]
    split <;> rfl
  | positional =>
    left
    simp [apply, openPositional]

/-- No rule takes the separator back. -/
theorem positionalOnly_apply (rule : WalkRule) {state : WalkState}
    (only : state.positionalOnly = true) :
    (state.apply index description word rule).state.positionalOnly = true := by
  cases rule with
  | absorb =>
    simp only [apply, absorb]
    split
    · exact only
    · split <;> simpa using only
  | separator => simp [apply, separate, only]
  | subcommand => simp [apply, descend, only]
  | flag => simp [apply, openOption, only]
  | positional => simpa [apply, openPositional] using only

/-- In a closed index, a rule leads from a known command to a known command. -/
theorem hasKey_apply (closed : index.Closed) (rule : WalkRule) {state : WalkState}
    (known : index.hasKey state.node = true) :
    index.hasKey (state.apply index description word rule).state.node = true := by
  rcases node_apply rule state with stays | ⟨_, listed, descends⟩
  · rwa [stays]
  · rw [descends]
    exact closed.child state.node word known listed

/-- In a closed index, one word leads from any state to a known command. -/
theorem hasKey_next (closed : index.Closed) (state : WalkState) (word : String) :
    index.hasKey (state.next index description word).node = true :=
  applyRules_induction (motive := fun state => index.hasKey state.node = true)
    (fun rule _ known => hasKey_apply closed rule known) description.rules
    (closed.hasKey_resolve state.node)

/-- Once the separator was met, one more word leaves a known command and its restriction. -/
theorem positionalOnly_next {node : String} (known : index.hasKey node = true)
    (state : WalkState) (word : String)
    (holds : state.positionalOnly = true ∧ state.node = node) :
    (state.next index description word).positionalOnly = true ∧
      (state.next index description word).node = node := by
  obtain ⟨only, rfl⟩ := holds
  rw [next, rooted_of_hasKey known]
  refine applyRules_induction
    (motive := fun later => later.positionalOnly = true ∧ later.node = state.node)
    ?_ description.rules ⟨only, rfl⟩
  intro rule later laterHolds
  obtain ⟨laterOnly, sameNode⟩ := laterHolds
  refine ⟨positionalOnly_apply rule laterOnly, ?_⟩
  rcases node_apply rule later with stays | ⟨notOnly, _, _⟩
  · rw [stays, sameNode]
  · rw [laterOnly] at notOnly
    cases notOnly

/-! ## The open slot -/

theorem valid_of_closed {state : WalkState} (known : index.hasKey state.node = true)
    (nothingOpen : state.active = none) : state.Valid index where
  known := known
  fits := by
    intro slot opened
    rw [nothingOpen] at opened
    cases opened

/-- After settling, only a slot that can still take a word has to fit. -/
theorem settle_valid {state : WalkState} (known : index.hasKey state.node = true)
    (fits : ∀ slot, state.active = some slot → slot.isExhausted = false →
      slot.Fits index state.node state.filled) : state.settle.Valid index := by
  unfold settle
  split
  · exact valid_of_closed (by simpa using known) (by simp)
  · rename_i open_
    refine ⟨known, fun slot opened => fits slot opened ?_⟩
    simpa [opened] using open_

theorem absorb_valid {state : WalkState} (valid : state.Valid index) :
    (state.absorb description word).state.Valid index := by
  unfold absorb
  split
  · exact valid
  · rename_i slot opened
    obtain ⟨_, arity, positional, option⟩ := valid.fits slot opened
    split
    · refine settle_valid valid.known fun grown same unexhausted => ?_
      cases same
      refine ⟨unexhausted, arity, fun kind => ?_, option⟩
      exact ⟨(positional kind).1, Nat.le_add_left 1 slot.consumed⟩
    · exact valid_of_closed (by simpa using valid.known) (by simp)

theorem separate_valid {state : WalkState} (valid : state.Valid index) :
    (state.separate description word).state.Valid index := by
  unfold separate
  split
  · exact valid
  · exact ⟨valid.known, valid.fits⟩

theorem descend_valid (closed : index.Closed) {state : WalkState} (valid : state.Valid index) :
    (state.descend index word).state.Valid index := by
  unfold descend
  split
  · exact valid
  · rename_i descends
    obtain ⟨_, listed⟩ := claims_iff.mp descends
    exact valid_of_closed (closed.child state.node word valid.known listed) rfl

/-- A slot that has no word yet can take one, unless it takes none at all. -/
theorem unexhausted_of_unopened {slot : ActiveSlot} (unopened : slot.consumed = 0)
    (takes : slot.arity ≠ .exactly 0) : slot.isExhausted = false := by
  obtain ⟨key, kind, arity, consumed⟩ := slot
  cases unopened
  cases arity with
  | exactly count =>
    have positive : count ≠ 0 := fun none => takes (congrArg Arity.exactly none)
    simpa [ActiveSlot.isExhausted] using positive
  | optional => rfl
  | zeroOrMore => rfl
  | oneOrMore => rfl
  | remainder => rfl

/-- A flag whose slot is not declared opens no slot. -/
theorem openOption_valid {state : WalkState} (valid : state.Valid index) :
    (state.openOption index word).state.Valid index := by
  unfold openOption
  split
  · exact valid
  · rename_i opens
    obtain ⟨_, isFlag⟩ := claims_iff.mp opens
    have listed : word ∈ index.flags state.node := List.contains_iff_mem.mp isFlag
    refine ⟨valid.known, fun slot opened => ?_⟩
    simp only [Verdict.state_claimed] at opened
    split at opened
    · cases opened
    · rename_i takes
      cases opened
      -- An arity that is not declared counts as zero, and then nothing is opened.
      cases declared : index.arity state.node word with
      | none => simp [declared] at takes
      | some arity =>
        rw [declared] at takes
        exact ⟨unexhausted_of_unopened rfl takes, declared, nofun, fun _ => ⟨listed, takes⟩⟩

/-- A positional that is not declared takes one word, the one that would open its slot. -/
theorem openPositional_valid {state : WalkState} (known : index.hasKey state.node = true) :
    (state.openPositional index).state.Valid index := by
  refine settle_valid known fun slot same unexhausted => ?_
  cases same
  cases declared : index.arity state.node (positionalKey state.filled) with
  | none =>
    -- It counts as one word, and the slot has that word already.
    rw [declared] at unexhausted
    simp [ActiveSlot.isExhausted] at unexhausted
  | some arity =>
    rw [declared] at unexhausted
    refine ⟨unexhausted, declared, fun _ => ⟨rfl, Nat.le_refl 1⟩, fun kind => ?_⟩
    cases kind

theorem apply_valid (closed : index.Closed) (rule : WalkRule) {state : WalkState}
    (valid : state.Valid index) : (state.apply index description word rule).state.Valid index := by
  cases rule with
  | absorb => exact absorb_valid valid
  | separator => exact separate_valid valid
  | subcommand => exact descend_valid closed valid
  | flag => exact openOption_valid valid
  | positional => exact openPositional_valid valid.known

theorem next_valid (closed : index.Closed) (state : WalkState) (word : String)
    (valid : state.Valid index) : (state.next index description word).Valid index := by
  rw [next, rooted_of_hasKey valid.known]
  exact applyRules_induction (fun rule _ => apply_valid closed rule) description.rules valid

theorem run_valid (closed : index.Closed) (description : Description) (typed : List String) :
    (run index description typed).Valid index :=
  walk_induction (next_valid closed) typed (valid_of_closed closed.root rfl)

end WalkState

/-- **What is true after any words.** In an index that is built from a specification, and
whatever rules a walk follows: its state is at a known command, and an open slot is one of that
command that can still take a word; once the separator was met, it stays met and the command
stays the same; and one word leads from any state at all to a known command. -/
theorem walk_invariant {root : Command} {index : Index} (built : root.index = .ok index)
    (description : Description) :
    (∀ typed, (WalkState.run index description typed).Valid index) ∧
      (∀ typed later, (WalkState.run index description typed).positionalOnly = true →
        (WalkState.run index description (typed ++ later)).positionalOnly = true ∧
          (WalkState.run index description (typed ++ later)).node =
            (WalkState.run index description typed).node) ∧
      ∀ (state : WalkState) (word : String),
        index.hasKey (state.next index description word).node = true := by
  obtain ⟨_, holds⟩ := Command.index_ok built
  have closed := holds.closed
  refine ⟨WalkState.run_valid closed description, ?_, WalkState.hasKey_next closed⟩
  intro typed later only
  have known := (WalkState.run_valid closed description typed).known
  rw [WalkState.run, WalkState.walk_append]
  exact WalkState.walk_induction (motive := fun state => state.positionalOnly = true ∧
    state.node = (WalkState.run index description typed).node)
    (WalkState.positionalOnly_next known) later ⟨only, rfl⟩

/-- Rules without one for the open slot, which therefore only a positional opens again. -/
def forgetfulDescription : Description where
  rules := [.separator, .subcommand, .positional]

theorem walk_invariant_forgetfulDescription : ∃ index, sampleProgram.index = .ok index ∧
    (WalkState.run index forgetfulDescription ["file", "--"]).active =
      some ⟨"pos_0", .positional, .zeroOrMore, 1⟩ ∧
    (WalkState.run index forgetfulDescription ["file", "--"]).Valid index ∧
    (WalkState.run index forgetfulDescription (["file", "--"] ++ ["build"])).node = "prog" := by
  obtain ⟨index, built⟩ := sampleProgram_accepted
  have evaluated : sampleProgram.index.toOption.map
      (WalkState.run · forgetfulDescription ["file", "--"]) =
        some ⟨"prog", 0, some ⟨"pos_0", .positional, .zeroOrMore, 1⟩, true⟩ := by
    decide +kernel
  rw [built] at evaluated
  have reached : WalkState.run index forgetfulDescription ["file", "--"] = _ :=
    Option.some.inj evaluated
  obtain ⟨valid, stays, _⟩ := walk_invariant built forgetfulDescription
  obtain ⟨_, sameNode⟩ := stays ["file", "--"] ["build"] (by rw [reached])
  refine ⟨index, built, by rw [reached], valid _, ?_⟩
  rw [sameNode, reached]

end CommandCompletion
