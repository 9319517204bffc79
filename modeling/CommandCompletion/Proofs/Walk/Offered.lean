import CommandCompletion.Proofs.Walk.Separator

/-!
# What is offered is what would be read

What a word is completed as is decided apart from the rules that read the word once it is
typed. Under the standard rules the two agree. A word that is completed as a value of the
open slot would go to that slot; one that is completed as a value while no slot is open
would fill the next positional, unless it names something else; and a subcommand that may be
offered would lead to that subcommand (`offered_as_read`).

Flags are offered also while a positional waits for more words, or an option that takes any
number of them is open. A flag that is typed there is one more word of that slot: it counts
as a flag exactly where the open slot can be interrupted.
-/

set_option autoImplicit false

namespace CommandCompletion

namespace WalkState

variable {index : Index} {description : Description} {matchCase : MatchCase}
variable {state : WalkState} {node key word : String} {subcommands : Bool}

/-! ## What a context says of its state -/

/-- What is known of a state whose context is one of values. -/
structure CompletesValue (state : WalkState) (description : Description) (node key : String)
    (subcommands : Bool) (word : String) : Prop where
  node : node = state.node
  key : key = state.currentSlot
  subcommands : subcommands = state.subcommandsFollow
  value : state.positionalOnly = true ∨ state.optionPending = true ∨
    description.looksLikeOption word = false

theorem completesValue_of_context (known : index.hasKey state.node = true) {other : String}
    (offered : state.context index description word = .slot node key subcommands other) :
    state.CompletesValue description node key subcommands word := by
  rw [context, Index.resolve_of_hasKey known] at offered
  split at offered
  · cases offered
  · rename_i value
    cases offered
    refine ⟨rfl, rfl, rfl, ?_⟩
    cases only : state.positionalOnly with
    | true => exact .inl rfl
    | false =>
      cases pending : state.optionPending with
      | true => exact .inr (.inl rfl)
      | false => exact .inr (.inr (by simpa [only, pending] using value))

theorem node_of_context_options (known : index.hasKey state.node = true) {other : String}
    (offered : state.context index description word = .options node other) :
    node = state.node ∧ state.positionalOnly = false := by
  rw [context, Index.resolve_of_hasKey known] at offered
  split at offered
  · rename_i options
    cases offered
    exact ⟨rfl, by simp_all⟩
  · cases offered

theorem subcommandsFollow_iff :
    state.subcommandsFollow = true ↔
      state.filled = 0 ∧ state.active = none ∧ state.positionalOnly = false := by
  simp [subcommandsFollow, and_assoc]

theorem declines_of_closed (closed : state.active = none) : state.Declines description word := by
  intro slot opened
  rw [closed] at opened
  cases opened

theorem currentSlot_of_open {slot : ActiveSlot} (opened : state.active = some slot) :
    state.currentSlot = slot.key := by
  rw [currentSlot, opened]

theorem currentSlot_of_closed (closed : state.active = none) :
    state.currentSlot = positionalKey state.filled := by
  rw [currentSlot, closed]

theorem release_of_closed (closed : state.active = none) : state.release = state := by
  rw [release, closed]

/-! ## Values -/

/-- A word that is completed as a value goes to the slot that is open. -/
theorem absorbs_of_completesValue (valid : state.Valid index) (closed : state.OptionsClosed)
    (completes : state.CompletesValue description node key subcommands word) {slot : ActiveSlot}
    (opened : state.active = some slot) : slot.absorbs description word = true := by
  have fits := valid.fits slot opened
  by_contra declined
  obtain ⟨optional, looks⟩ := fits.declines_iff.mp (Bool.not_eq_true _ ▸ declined)
  -- Only a slot of at most one word declines, which is an option's and never waits for a word.
  have option := fits.option_of_optional optional
  rcases completes.value with only | pending | value
  · rw [closed only slot opened] at option
    cases option
  · simp [optionPending, opened, ActiveSlot.required, optional] at pending
  · rw [looks] at value
    cases value

/-- While no slot is open, a word that names nothing else fills the next positional. -/
theorem readBy_positional (known : index.hasKey state.node = true) (closed : state.active = none)
    (names : state.positionalOnly = true ∨ word ≠ "--" ∧
      word ∉ index.subcommands state.node ∧ word ∉ index.flags state.node) :
    state.ReadBy index (.standard matchCase) word .positional
      (state.giving (index.positionalSlot state.node state.filled)) := by
  have value : state.positionalOnly = true ∨ word ≠ "--" ∧
      index.isSubcommand state.node word = false ∧ index.isFlag state.node word = false := by
    simpa [Index.isSubcommand, Index.isFlag] using names
  have reading : StandardReading index matchCase state word .positional _ :=
    .filled (declines_of_closed closed) value
  rw [release_of_closed closed] at reading
  exact reading.sound known

/-- A subcommand that may follow leads to that subcommand. -/
theorem readBy_subcommand (known : index.hasKey state.node = true)
    (follow : state.subcommandsFollow = true) (notSeparator : word ≠ "--")
    (listed : word ∈ index.subcommands state.node) :
    state.ReadBy index (.standard matchCase) word .subcommand
      { node := childKey state.node word } := by
  obtain ⟨_, closed, free⟩ := subcommandsFollow_iff.mp follow
  have isSubcommand : index.isSubcommand state.node word = true :=
    List.contains_iff_mem.mpr listed
  exact (StandardReading.descended (declines_of_closed closed) free notSeparator
    isSubcommand).sound known

/-! ## Flags -/

/-- A flag counts as a flag where the open slot can be interrupted. -/
theorem readBy_flag (valid : state.Valid index) (free : state.positionalOnly = false)
    (listed : word ∈ index.flags state.node)
    (looks : (Description.standard matchCase).looksLikeOption word = true)
    (notSeparator : word ≠ "--") (notSubcommand : word ∉ index.subcommands state.node)
    (interruptible : state.Interruptible) :
    state.ReadBy index (.standard matchCase) word .flag
      { state.release with active := index.flagSlot? state.node word } := by
  have declined := (valid.declines_iff_interruptible looks).mpr interruptible
  have unlisted : index.isSubcommand state.node word = false := by
    simpa [Index.isSubcommand] using notSubcommand
  have isFlag : index.isFlag state.node word = true := List.contains_iff_mem.mpr listed
  exact (StandardReading.flagged declined free notSeparator unlisted isFlag).sound valid.known

/-- Where the open slot cannot be interrupted, what looks like an option is one more word of it. -/
theorem readBy_absorb (valid : state.Valid index)
    (looks : (Description.standard matchCase).looksLikeOption word = true)
    (busy : ¬state.Interruptible) : ∃ slot, state.active = some slot ∧
      state.ReadBy index (.standard matchCase) word .absorb (state.giving slot.grown) := by
  rw [← valid.declines_iff_interruptible looks] at busy
  simp only [Declines, not_forall, Bool.not_eq_false] at busy
  obtain ⟨slot, opened, takes⟩ := busy
  exact ⟨slot, opened, (StandardReading.absorbed opened takes).sound valid.known⟩

end WalkState

/-- No subcommand of an index is named like the separator. -/
theorem Index.Holds.ne_separator {index : Index} {root : Command} (holds : index.Holds root)
    {key name : String} (known : index.hasKey key = true) (listed : name ∈ index.subcommands key) :
    name ≠ "--" := by
  obtain ⟨place, rfl⟩ := holds.hasKey_iff.mp known
  rw [holds.subcommands_key] at listed
  exact ((holds.sound place).subcommandNames name listed).2

/-- **What is offered is what would be read.** In an index that is built from a specification,
under the standard rules, and after any words:

a word that is completed as a value would go to the open slot, which is the slot named; if none is
open, any word that names no subcommand and no flag and is not the separator would fill the slot
named, and so would every word once the separator was met; and if subcommands may follow, the name
of each would lead there, with nothing filled and no slot open;

where flags are offered, typing one that begins with the marker and names nothing else opens its
slot exactly if the open slot can be interrupted, and is a word of the open slot otherwise. -/
theorem offered_as_read {root : Command} {index : Index} (built : root.index = .ok index)
    (matchCase : MatchCase) (typed : List String) :
    let description := Description.standard matchCase
    let state := WalkState.run index description typed
    (∀ word node key subcommands other,
      state.context index description word = .slot node key subcommands other →
        (∀ slot, state.active = some slot → slot.key = key ∧
          state.ReadBy index description word .absorb (state.giving slot.grown)) ∧
        (state.active = none → ∀ value, (state.positionalOnly = true ∨ value ≠ "--" ∧
            value ∉ index.subcommands node ∧ value ∉ index.flags node) →
          state.ReadBy index description value .positional
            (state.giving ⟨key, .positional, (index.arity node key).getD (.exactly 1), 1⟩)) ∧
        (subcommands = true → ∀ name ∈ index.subcommands node,
          state.ReadBy index description name .subcommand
            { node := childKey node name, filled := 0, active := none })) ∧
    ∀ word node other, state.context index description word = .options node other →
      ∀ flag ∈ index.flags node, description.looksLikeOption flag = true → flag ≠ "--" →
        flag ∉ index.subcommands node →
          (state.claimedBy index description flag = some .flag ↔ state.Interruptible) ∧
          (state.Interruptible → state.ReadBy index description flag .flag
            { state.release with active := index.flagSlot? node flag }) ∧
          (¬state.Interruptible → ∃ slot, state.active = some slot ∧
            state.ReadBy index description flag .absorb (state.giving slot.grown)) := by
  obtain ⟨_, holds⟩ := Command.index_ok built
  intro description state
  have valid : state.Valid index := WalkState.run_valid holds.closed description typed
  have optionsClosed : state.OptionsClosed :=
    WalkState.run_optionsClosed holds.closed matchCase typed
  clear_value state
  refine ⟨?values, ?flags⟩
  case values =>
    intro word node key subcommands other offered
    have completes := WalkState.completesValue_of_context valid.known offered
    obtain ⟨rfl, rfl, rfl, _⟩ := id completes
    refine ⟨?_, ?_, ?_⟩
    · intro slot opened
      refine ⟨(WalkState.currentSlot_of_open opened).symm, ?_⟩
      have takes := WalkState.absorbs_of_completesValue valid optionsClosed completes opened
      exact (WalkState.StandardReading.absorbed opened takes).sound valid.known
    · intro closed value names
      rw [WalkState.currentSlot_of_closed closed]
      exact WalkState.readBy_positional valid.known closed names
    · intro follow name listed
      have notSeparator := holds.ne_separator valid.known listed
      exact WalkState.readBy_subcommand valid.known follow notSeparator listed
  case flags =>
    intro word node other offered flag listed looks notSeparator notSubcommand
    obtain ⟨rfl, free⟩ := WalkState.node_of_context_options valid.known offered
    have asFlag := WalkState.readBy_flag valid free listed looks notSeparator notSubcommand
    have asWord := WalkState.readBy_absorb valid looks
    refine ⟨⟨?_, fun interruptible => (asFlag interruptible).claimed⟩, asFlag, asWord⟩
    intro claimed
    by_contra busy
    obtain ⟨slot, _, reads⟩ := asWord busy
    rw [reads.claimed] at claimed
    cases claimed

/-- An open option takes one of its choices, and an open positional takes a flag. -/
theorem offered_as_read_sampleProgram : ∃ index, sampleProgram.index = .ok index ∧
    (WalkState.run index (.standard .sensitive) ["--color"]).ReadBy index (.standard .sensitive)
      "auto" .absorb { node := "prog" } ∧
    (WalkState.run index (.standard .sensitive) ["file"]).ReadBy index (.standard .sensitive)
      "-v" .absorb ⟨"prog", 0, some ⟨"pos_0", .positional, .zeroOrMore, 2⟩, false⟩ := by
  obtain ⟨index, built⟩ := sampleProgram_accepted
  refine ⟨index, built, ?_, ?_⟩
  · have reached : WalkState.run index (.standard .sensitive) ["--color"] =
        ⟨"prog", 0, some ⟨"--color", .option, .optional, 0⟩, false⟩ :=
      Command.index_observed built (WalkState.run · (.standard .sensitive) ["--color"])
        (by decide +kernel)
    have offered : (WalkState.run index (.standard .sensitive) ["--color"]).context index
        (.standard .sensitive) "auto" = .slot "prog" "--color" false "auto" :=
      Command.index_observed built (fun index => (WalkState.run index (.standard .sensitive)
        ["--color"]).context index (.standard .sensitive) "auto") (by decide +kernel)
    obtain ⟨values, _⟩ := offered_as_read built .sensitive ["--color"]
    obtain ⟨goes, _⟩ := values "auto" _ _ _ _ offered
    obtain ⟨_, reads⟩ := goes _ (congrArg WalkState.active reached)
    rwa [reached] at reads ⊢
  · have reached : WalkState.run index (.standard .sensitive) ["file"] =
        ⟨"prog", 0, some ⟨"pos_0", .positional, .zeroOrMore, 1⟩, false⟩ :=
      Command.index_observed built (WalkState.run · (.standard .sensitive) ["file"])
        (by decide +kernel)
    have offered : (WalkState.run index (.standard .sensitive) ["file"]).context index
        (.standard .sensitive) "-" = .options "prog" "-" :=
      Command.index_observed built (fun index => (WalkState.run index (.standard .sensitive)
        ["file"]).context index (.standard .sensitive) "-") (by decide +kernel)
    have flags : index.flags "prog" = ["-v", "--verbose", "-q", "--color"] :=
      Command.index_observed built (·.flags "prog") (by decide +kernel)
    have subcommands : index.subcommands "prog" = ["build", "test"] :=
      Command.index_observed built (·.subcommands "prog") (by decide +kernel)
    have busy : ¬(WalkState.run index (.standard .sensitive) ["file"]).Interruptible := by
      intro interruptible
      cases interruptible _ (congrArg WalkState.active reached)
    obtain ⟨_, typedFlags⟩ := offered_as_read built .sensitive ["file"]
    obtain ⟨_, _, absorbs⟩ := typedFlags "-" _ _ offered "-v" (by simp [flags]) (by decide)
      (by decide) (by simp [subcommands])
    obtain ⟨slot, opened, reads⟩ := absorbs busy
    cases opened.symm.trans (congrArg WalkState.active reached)
    rwa [reached] at reads ⊢

end CommandCompletion
