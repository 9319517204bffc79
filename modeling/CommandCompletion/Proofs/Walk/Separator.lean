import CommandCompletion.Proofs.Walk.Standard

/-!
# When the separator counts

Under the standard rules a separator counts exactly where no slot is open, or one of at most
one word (`WalkState.Interruptible`); every other open slot takes it as a word. So options
and subcommands are over after a list of words if and only if the list has a separator at
such a point (`separator_law`).

From there on the command stays the same and no option is open: an option that was open is
closed by the separator (`WalkState.OptionsClosed`), and no rule opens one any more. What is
completed is then always a value of the next positional.
-/

set_option autoImplicit false

namespace CommandCompletion

namespace WalkState

variable {index : Index} {matchCase : MatchCase} {word : String} {state after : WalkState}
variable {rule : WalkRule}

/-- No slot is open, or one that takes at most one word. -/
def Interruptible (state : WalkState) : Prop :=
  ∀ slot, state.active = some slot → slot.arity = .optional

/-- Once the separator was met, no slot of an option is open. -/
def OptionsClosed (state : WalkState) : Prop :=
  state.positionalOnly = true → ∀ slot, state.active = some slot → slot.kind = .positional

/-- What looks like an option is declined by exactly the slots of at most one word. -/
theorem Valid.declines_iff_interruptible (valid : state.Valid index)
    {description : Description} (looks : description.looksLikeOption word = true) :
    state.Declines description word ↔ state.Interruptible := by
  constructor
  · intro declined slot opened
    exact ((valid.fits slot opened).declines_iff.mp (declined slot opened)).1
  · intro interruptible slot opened
    exact (valid.fits slot opened).declines_iff.mpr ⟨interruptible slot opened, looks⟩

theorem looksLikeOption_separator (matchCase : MatchCase) :
    (Description.standard matchCase).looksLikeOption "--" = true := by
  cases matchCase <;> decide

/-! ## The slot that got a word -/

@[simp] theorem giving_node (state : WalkState) (slot : ActiveSlot) :
    (state.giving slot).node = state.node := by
  simp [giving]

@[simp] theorem giving_positionalOnly (state : WalkState) (slot : ActiveSlot) :
    (state.giving slot).positionalOnly = state.positionalOnly := by
  simp [giving]

/-- A slot that is open after getting a word is that slot. -/
theorem active_giving {slot other : ActiveSlot} (opened : (state.giving slot).active = some other) :
    other = slot := by
  rw [giving, settle] at opened
  split at opened
  · simp at opened
  · exact (Option.some.inj opened).symm

/-! ## One more word -/

/-- No rule opens an option once the separator was met, and the separator closes an open one. -/
theorem StandardReading.optionsClosed
    (reading : StandardReading index matchCase state word rule after)
    (closed : state.OptionsClosed) : after.OptionsClosed := by
  intro only slot opened
  cases reading with
  | absorbed openedBefore takes =>
    rw [giving_positionalOnly] at only
    have positional := closed only _ openedBefore
    cases active_giving opened
    exact positional
  | separated declined free separator => simp at opened
  | descended declined free notSeparator listed => cases opened
  | flagged declined free notSeparator unlisted isFlag => simp [free] at only
  | filled declined value =>
    cases active_giving opened
    rfl

/-- Options and subcommands end with one more word only if it is a separator that no open slot
takes. -/
theorem StandardReading.separates
    (reading : StandardReading index matchCase state word rule after)
    (free : state.positionalOnly = false) (only : after.positionalOnly = true) :
    word = "--" ∧ state.Declines (.standard matchCase) word := by
  cases reading with
  | absorbed opened takes => simp [free] at only
  | separated declined _ separator => exact ⟨separator, declined⟩
  | descended declined _ notSeparator listed => cases only
  | flagged declined _ notSeparator unlisted isFlag => simp [free] at only
  | filled declined value => simp [free] at only

/-- A separator that no open slot takes ends options and subcommands and keeps the command. -/
theorem StandardReading.ends (reading : StandardReading index matchCase state "--" rule after)
    (declined : state.Declines (.standard matchCase) "--") :
    after.positionalOnly = true ∧ after.node = state.node := by
  cases reading with
  | absorbed opened takes =>
    rw [declined _ opened] at takes
    cases takes
  | separated _ free separator => simp
  | descended _ free notSeparator listed => exact absurd rfl notSeparator
  | flagged _ free notSeparator unlisted isFlag => exact absurd rfl notSeparator
  | filled _ value =>
    rcases value with only | ⟨notSeparator, _⟩
    · simp [only]
    · exact absurd rfl notSeparator

/-! ## Whole walks -/

theorem run_concat (description : Description) (typed : List String) (word : String) :
    run index description (typed ++ [word]) = (run index description typed).next index description
      word := by
  simp [run, walk]

theorem run_optionsClosed (closed : index.Closed) (matchCase : MatchCase) (typed : List String) :
    (run index (.standard matchCase) typed).OptionsClosed := by
  induction typed using List.reverseRecOn with
  | nil =>
    intro only
    cases only
  | append_singleton typed word ih =>
    obtain ⟨rule, reading⟩ := reading_next (run_valid closed (.standard matchCase) typed).known
      matchCase word
    rw [run_concat]
    exact reading.optionsClosed ih

/-- A separator where no open slot takes it ends options and subcommands for good, and the command
reached there is kept. -/
theorem run_separated (closed : index.Closed) (matchCase : MatchCase) (before later : List String)
    (interruptible : (run index (.standard matchCase) before).Interruptible) :
    (run index (.standard matchCase) (before ++ "--" :: later)).positionalOnly = true ∧
      (run index (.standard matchCase) (before ++ "--" :: later)).node =
        (run index (.standard matchCase) before).node := by
  have valid := run_valid closed (.standard matchCase) before
  have declined := (valid.declines_iff_interruptible (looksLikeOption_separator matchCase)).mpr
    interruptible
  obtain ⟨rule, reading⟩ := reading_next valid.known matchCase "--"
  obtain ⟨only, sameNode⟩ := reading.ends declined
  rw [← run_concat] at only sameNode
  have split : before ++ "--" :: later = (before ++ ["--"]) ++ later := by simp
  rw [split, run, walk_append, ← run, ← sameNode]
  exact walk_induction
    (positionalOnly_next (run_valid closed (.standard matchCase) (before ++ ["--"])).known)
    later ⟨only, rfl⟩

/-- Options and subcommands that are over were ended by a separator that no open slot took. -/
theorem exists_separator (closed : index.Closed) (matchCase : MatchCase) (typed : List String)
    (only : (run index (.standard matchCase) typed).positionalOnly = true) :
    ∃ before later, typed = before ++ "--" :: later ∧
      (run index (.standard matchCase) before).Interruptible := by
  induction typed using List.reverseRecOn with
  | nil => cases only
  | append_singleton typed word ih =>
    cases earlier : (run index (.standard matchCase) typed).positionalOnly with
    | true =>
      obtain ⟨before, later, rfl, interruptible⟩ := ih earlier
      exact ⟨before, later ++ [word], by simp, interruptible⟩
    | false =>
      have valid := run_valid closed (.standard matchCase) typed
      obtain ⟨rule, reading⟩ := reading_next valid.known matchCase word
      rw [run_concat] at only
      obtain ⟨rfl, declined⟩ := reading.separates earlier only
      have looks := looksLikeOption_separator matchCase
      exact ⟨typed, [], rfl, (valid.declines_iff_interruptible looks).mp declined⟩

/-- Once the separator was met, every word is completed as a value, without subcommands. -/
theorem context_of_positionalOnly (known : index.hasKey state.node = true)
    (only : state.positionalOnly = true) (description : Description) (word : String) :
    state.context index description word = .slot state.node state.currentSlot false word := by
  have noSubcommands : state.subcommandsFollow = false := by simp [subcommandsFollow, only]
  rw [context, Index.resolve_of_hasKey known, only, noSubcommands]
  rfl

end WalkState

/-- **When the separator counts.** In an index that is built from a specification, and under the
standard rules: options and subcommands are over after some words if and only if these have a
separator at a point where no slot is open, or one of at most one word. After such a point the
command stays the one reached there, no slot of an option is open, and every word is completed as a
value of the current slot, without subcommands. -/
theorem separator_law {root : Command} {index : Index} (built : root.index = .ok index)
    (matchCase : MatchCase) :
    (∀ typed, (WalkState.run index (.standard matchCase) typed).positionalOnly = true ↔
      ∃ before later, typed = before ++ "--" :: later ∧
        (WalkState.run index (.standard matchCase) before).Interruptible) ∧
    ∀ before later, (WalkState.run index (.standard matchCase) before).Interruptible →
      let state := WalkState.run index (.standard matchCase) (before ++ "--" :: later)
      state.node = (WalkState.run index (.standard matchCase) before).node ∧
        (∀ slot, state.active = some slot → slot.kind = .positional) ∧
        ∀ word, state.context index (.standard matchCase) word =
          .slot state.node state.currentSlot false word := by
  obtain ⟨_, holds⟩ := Command.index_ok built
  have closed := holds.closed
  refine ⟨fun typed => ⟨WalkState.exists_separator closed matchCase typed, ?_⟩, ?_⟩
  · rintro ⟨before, later, rfl, interruptible⟩
    exact (WalkState.run_separated closed matchCase before later interruptible).1
  · intro before later interruptible
    obtain ⟨only, sameNode⟩ := WalkState.run_separated closed matchCase before later interruptible
    have known := (WalkState.run_valid closed (.standard matchCase) (before ++ "--" :: later)).known
    refine ⟨sameNode, ?_, ?_⟩
    · exact WalkState.run_optionsClosed closed matchCase _ only
    · exact WalkState.context_of_positionalOnly known only (.standard matchCase)

/-- The separator closes an open option that takes at most one word, and names of subcommands and
flags are values from there on. -/
theorem separator_law_sampleProgram : ∃ index, sampleProgram.index = .ok index ∧
    (WalkState.run index (.standard .sensitive) ["--color"]).Interruptible ∧
    (WalkState.run index (.standard .sensitive) ["--color", "--", "build", "-v"]).positionalOnly =
      true ∧
    (WalkState.run index (.standard .sensitive) ["--color", "--", "build", "-v"]).node =
      "prog" := by
  obtain ⟨index, built⟩ := sampleProgram_accepted
  have reached : WalkState.run index (.standard .sensitive) ["--color"] =
      ⟨"prog", 0, some ⟨"--color", .option, .optional, 0⟩, false⟩ :=
    Command.index_observed built (WalkState.run · (.standard .sensitive) ["--color"])
      (by decide +kernel)
  have interruptible : (WalkState.run index (.standard .sensitive) ["--color"]).Interruptible := by
    intro slot opened
    cases opened.symm.trans (congrArg WalkState.active reached)
    rfl
  obtain ⟨counts, after⟩ := separator_law built .sensitive
  obtain ⟨sameNode, _⟩ := after ["--color"] ["build", "-v"] interruptible
  refine ⟨index, built, interruptible, ?_, ?_⟩
  · exact (counts _).mpr ⟨["--color"], ["build", "-v"], rfl, interruptible⟩
  · exact sameNode.trans (congrArg WalkState.node reached)

end CommandCompletion
