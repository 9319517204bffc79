import CommandCompletion.Proofs.Walk.Invariant

/-!
# How the standard rules read a word

The standard rules try the open slot first, then the separator, the subcommands, the flags
and at last the next positional, which claims anything. So every word is read in one of
five ways, each with its reason: what the rule that claims the word needs, and what keeps
the rules before it from claiming it (`StandardReading`). A reading that holds is the one
the walk takes: it names the rule that claims the word and the state after it
(`StandardReading.sound`), and one of the readings always holds (`exists_reading`).

Whether an open slot takes a word depends on little, since an open slot can still take
some word: all but a slot of at most one word take any word, and that one takes every word
that does not look like an option (`ActiveSlot.Fits.declines_iff`).
-/

set_option autoImplicit false

namespace CommandCompletion

/-- An open slot that can take no more than one word, and has none yet, declines what looks like
an option; every other open slot takes whatever comes. -/
theorem ActiveSlot.Fits.declines_iff {index : Index} {node : String} {filled : Nat}
    {slot : ActiveSlot} (fits : slot.Fits index node filled) {description : Description}
    {word : String} : slot.absorbs description word = false ↔
      slot.arity = .optional ∧ description.looksLikeOption word = true := by
  have unexhausted := fits.unexhausted
  obtain ⟨key, kind, arity, consumed⟩ := slot
  cases arity with
  | exactly count => simpa [absorbs, isExhausted] using unexhausted
  | optional =>
    have empty : consumed = 0 := by simpa [isExhausted] using unexhausted
    simp [absorbs, empty]
  | zeroOrMore => simp [absorbs]
  | oneOrMore => simp [absorbs]
  | remainder => simp [absorbs]

/-- A positional slot that is open has a word, so it is not one of at most one word. -/
theorem ActiveSlot.Fits.option_of_optional {index : Index} {node : String} {filled : Nat}
    {slot : ActiveSlot} (fits : slot.Fits index node filled) (optional : slot.arity = .optional) :
    slot.kind = .option := by
  cases kind : slot.kind with
  | option => rfl
  | positional =>
    have unexhausted := fits.unexhausted
    have opened := (fits.positional kind).2
    rw [isExhausted, optional] at unexhausted
    exact absurd opened (of_decide_eq_false unexhausted)

namespace WalkState

/-- The first rule that claims a word, if one does. -/
def claimant? (index : Index) (description : Description) (word : String) :
    List WalkRule → WalkState → Option WalkRule
  | [], _ => none
  | rule :: rest, state =>
    match state.apply index description word rule with
    | .claimed _ => some rule
    | .passed next => claimant? index description word rest next

/-- The rule of a description that claims a word after a state. -/
def claimedBy (index : Index) (description : Description) (state : WalkState) (word : String) :
    Option WalkRule :=
  claimant? index description word description.rules (state.rooted index)

/-- A rule claims a word, and the walk goes on from a state. -/
structure ReadBy (index : Index) (description : Description) (state : WalkState) (word : String)
    (rule : WalkRule) (after : WalkState) : Prop where
  claimed : state.claimedBy index description word = some rule
  next : state.next index description word = after

/-- No slot is open that takes the word. -/
def Declines (description : Description) (word : String) (state : WalkState) : Prop :=
  ∀ slot, state.active = some slot → slot.absorbs description word = false

/-- The state when a slot has got one more word: the slot stays open if it can take another one,
and is closed if it cannot. -/
def giving (state : WalkState) (slot : ActiveSlot) : WalkState :=
  { state with active := some slot }.settle

end WalkState

/-- A slot with one more word. -/
def ActiveSlot.grown (slot : ActiveSlot) : ActiveSlot :=
  { slot with consumed := slot.consumed + 1 }

/-- The slot that a flag of a command opens, if the slot takes words. -/
def Index.flagSlot? (index : Index) (node flag : String) : Option ActiveSlot :=
  let arity := (index.arity node flag).getD (.exactly 0)
  if arity = .exactly 0 then none else some ⟨flag, .option, arity, 0⟩

/-- The slot of the positional with a number, with its first word. -/
def Index.positionalSlot (index : Index) (node : String) (number : Nat) : ActiveSlot :=
  let key := positionalKey number
  ⟨key, .positional, (index.arity node key).getD (.exactly 1), 1⟩

namespace WalkState

variable {index : Index} {matchCase : MatchCase} {word : String} {state after : WalkState}
variable {rule : WalkRule}

/-- How the standard rules read a word at a known command: the rule that claims the word and the
state after it, with what keeps the rules before it from claiming the word. -/
inductive StandardReading (index : Index) (matchCase : MatchCase) (state : WalkState)
    (word : String) : WalkRule → WalkState → Prop where
  /-- The open slot takes the word. -/
  | absorbed {slot : ActiveSlot} (opened : state.active = some slot)
      (takes : slot.absorbs (.standard matchCase) word = true) :
      StandardReading index matchCase state word .absorb (state.giving slot.grown)
  /-- The word is the separator, met for the first time. -/
  | separated (declined : state.Declines (.standard matchCase) word)
      (free : state.positionalOnly = false) (separator : word = "--") :
      StandardReading index matchCase state word .separator
        { state.release with positionalOnly := true }
  /-- The word leads to a subcommand. -/
  | descended (declined : state.Declines (.standard matchCase) word)
      (free : state.positionalOnly = false) (notSeparator : word ≠ "--")
      (listed : index.isSubcommand state.node word = true) :
      StandardReading index matchCase state word .subcommand { node := childKey state.node word }
  /-- The word is a flag. -/
  | flagged (declined : state.Declines (.standard matchCase) word)
      (free : state.positionalOnly = false) (notSeparator : word ≠ "--")
      (unlisted : index.isSubcommand state.node word = false)
      (isFlag : index.isFlag state.node word = true) :
      StandardReading index matchCase state word .flag
        { state.release with active := index.flagSlot? state.node word }
  /-- The word is the next positional. -/
  | filled (declined : state.Declines (.standard matchCase) word)
      (value : state.positionalOnly = true ∨ word ≠ "--" ∧
        index.isSubcommand state.node word = false ∧ index.isFlag state.node word = false) :
      StandardReading index matchCase state word .positional
        (state.release.giving (index.positionalSlot state.node state.release.filled))

/-! ## What each rule does -/

theorem absorb_of_declines {description : Description}
    (declined : state.Declines description word) :
    state.absorb description word = .passed state.release := by
  cases opened : state.active with
  | none => simp [absorb, release, opened]
  | some slot => simp [absorb, opened, declined slot opened]

theorem separate_standard_of_ne (notSeparator : word ≠ "--") :
    state.separate (.standard matchCase) word = .passed state := by
  have different : (word != (Description.standard matchCase).separator) = true :=
    bne_iff_ne.mpr notSeparator
  rw [separate, different, Bool.or_true, if_pos rfl]

theorem separate_of_positionalOnly {description : Description}
    (only : state.positionalOnly = true) : state.separate description word = .passed state := by
  simp [separate, only]

theorem descend_of_not (closed : state.positionalOnly = true ∨
    index.isSubcommand state.node word = false) : state.descend index word = .passed state := by
  rcases closed with only | unlisted
  · simp [descend, only]
  · simp [descend, unlisted]

theorem openOption_of_not (closed : state.positionalOnly = true ∨
    index.isFlag state.node word = false) : state.openOption index word = .passed state := by
  rcases closed with only | unlisted
  · simp [openOption, only]
  · simp [openOption, unlisted]

/-- A reading that holds is the one the walk takes. -/
theorem StandardReading.sound (known : index.hasKey state.node = true)
    (reading : StandardReading index matchCase state word rule after) :
    state.ReadBy index (.standard matchCase) word rule after := by
  have rules : (Description.standard matchCase).rules =
      [.absorb, .separator, .subcommand, .flag, .positional] := rfl
  suffices tried : claimant? index (.standard matchCase) word
      [.absorb, .separator, .subcommand, .flag, .positional] state = some rule ∧
    applyRules index (.standard matchCase) word
      [.absorb, .separator, .subcommand, .flag, .positional] state = after by
    constructor
    · rw [claimedBy, rooted_of_hasKey known, rules, tried.1]
    · rw [next, rooted_of_hasKey known, rules, tried.2]
  cases reading with
  | absorbed opened takes =>
    simp [claimant?, applyRules, apply, absorb, opened, takes, giving, ActiveSlot.grown]
  | separated declined free separator =>
    have separates : (Description.standard matchCase).separator = word := separator.symm
    simp [claimant?, applyRules, apply, absorb_of_declines declined, separate, free, separates]
  | descended declined free notSeparator listed =>
    simp [claimant?, applyRules, apply, absorb_of_declines declined,
      separate_standard_of_ne notSeparator, descend, free, listed]
  | flagged declined free notSeparator unlisted isFlag =>
    have passed : state.release.descend index word = .passed state.release :=
      descend_of_not (.inr (by simpa using unlisted))
    simp [claimant?, applyRules, apply, absorb_of_declines declined,
      separate_standard_of_ne notSeparator, passed, openOption, free, isFlag, Index.flagSlot?]
  | filled declined value =>
    have passed : state.release.separate (.standard matchCase) word = .passed state.release ∧
        state.release.descend index word = .passed state.release ∧
        state.release.openOption index word = .passed state.release := by
      rcases value with only | ⟨notSeparator, unlisted, notFlag⟩
      · have released : state.release.positionalOnly = true := by simpa using only
        exact ⟨separate_of_positionalOnly released, descend_of_not (.inl released),
          openOption_of_not (.inl released)⟩
      · exact ⟨separate_standard_of_ne notSeparator, descend_of_not (.inr (by simpa using unlisted)),
          openOption_of_not (.inr (by simpa using notFlag))⟩
    obtain ⟨notSeparated, notDescended, notFlagged⟩ := passed
    simp [claimant?, applyRules, apply, absorb_of_declines declined, notSeparated, notDescended,
      notFlagged, openPositional, giving, Index.positionalSlot]

/-- Every word is read in one of the five ways. -/
theorem exists_reading (index : Index) (matchCase : MatchCase) (state : WalkState)
    (word : String) :
    ∃ rule after, StandardReading index matchCase state word rule after := by
  by_cases declined : state.Declines (.standard matchCase) word
  · cases only : state.positionalOnly with
    | true => exact ⟨_, _, .filled declined (.inl only)⟩
    | false =>
      by_cases separator : word = "--"
      · exact ⟨_, _, .separated declined only separator⟩
      · cases listed : index.isSubcommand state.node word with
        | true => exact ⟨_, _, .descended declined only separator listed⟩
        | false =>
          cases isFlag : index.isFlag state.node word with
          | true => exact ⟨_, _, .flagged declined only separator listed isFlag⟩
          | false => exact ⟨_, _, .filled declined (.inr ⟨separator, listed, isFlag⟩)⟩
  · simp only [Declines, not_forall, Bool.not_eq_false] at declined
    obtain ⟨slot, opened, takes⟩ := declined
    exact ⟨_, _, .absorbed opened takes⟩

/-- The state after one more word is that of a reading. -/
theorem reading_next (known : index.hasKey state.node = true) (matchCase : MatchCase)
    (word : String) : ∃ rule, StandardReading index matchCase state word rule
      (state.next index (.standard matchCase) word) := by
  obtain ⟨rule, after, reading⟩ := exists_reading index matchCase state word
  exact ⟨rule, (reading.sound known).next ▸ reading⟩

end WalkState

end CommandCompletion
