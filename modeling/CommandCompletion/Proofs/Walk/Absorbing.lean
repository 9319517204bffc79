import CommandCompletion.Proofs.Walk.Offered

/-!
# Words that go to an open slot

An open slot that may take more than one word takes whatever comes, whether it looks like a
value, an option, a subcommand or the separator. So as long as there is room in the slot, a
list of words does nothing but raise the number of words that the slot has; the word that
fills it closes it (`WalkState.walk_absorbed`). A slot of a fixed number of words has room for
as many words as it still lacks (`WalkState.walk_bounded`): fewer words leave it open, and as
many close it (`WalkState.walk_bounded_open`, `WalkState.walk_bounded_closed`). A slot without an
upper bound has room for all words that are left (`WalkState.walk_unbounded`).

Together these say what any list of words does to an open slot of either kind
(`absorption_law`).
-/

set_option autoImplicit false

namespace CommandCompletion

namespace ActiveSlot

variable {slot : ActiveSlot}

/-- A slot with so many more words. -/
def grownBy (slot : ActiveSlot) (words : Nat) : ActiveSlot :=
  { slot with consumed := slot.consumed + words }

@[simp] theorem grownBy_zero (slot : ActiveSlot) : slot.grownBy 0 = slot := rfl

@[simp] theorem grownBy_arity (slot : ActiveSlot) (words : Nat) :
    (slot.grownBy words).arity = slot.arity := rfl

@[simp] theorem grown_grownBy (slot : ActiveSlot) (words : Nat) :
    (slot.grownBy words).grown = slot.grownBy (words + 1) := rfl

/-- A slot that may take more than one word takes any word for which it has room. -/
theorem absorbs_of_unexhausted (unexhausted : slot.isExhausted = false)
    (several : slot.arity ≠ .optional) (description : Description) (word : String) :
    slot.absorbs description word = true := by
  rw [isExhausted] at unexhausted
  rw [absorbs]
  cases arity : slot.arity with
  | exactly count => simpa [arity] using unexhausted
  | optional => exact absurd arity several
  | zeroOrMore => rfl
  | oneOrMore => rfl
  | remainder => rfl

/-- A slot without an upper bound has room for any number of words. -/
theorem isExhausted_of_isUnbounded (unbounded : slot.arity.isUnbounded = true) :
    slot.isExhausted = false := by
  rw [isExhausted]
  cases arity : slot.arity with
  | exactly count => simp [arity, Arity.isUnbounded] at unbounded
  | optional => simp [arity, Arity.isUnbounded] at unbounded
  | zeroOrMore => rfl
  | oneOrMore => rfl
  | remainder => rfl

/-- A slot of a fixed number of words has room as long as one of them is missing. -/
theorem isExhausted_grownBy {count : Nat} (bounded : slot.arity = .exactly count) (words : Nat) :
    (slot.grownBy words).isExhausted = decide (count ≤ slot.consumed + words) := by
  rw [isExhausted, grownBy_arity, bounded]
  rfl

end ActiveSlot

namespace WalkState

variable {index : Index} {matchCase : MatchCase} {state : WalkState} {slot : ActiveSlot}

theorem giving_of_unexhausted (state : WalkState) (unexhausted : slot.isExhausted = false) :
    state.giving slot = { state with active := some slot } := by
  simp [giving, settle, unexhausted]

/-- A slot that has everything it can take is closed, and a positional one is filled. -/
theorem giving_of_exhausted (state : WalkState) (exhausted : slot.isExhausted = true) :
    state.giving slot = { state with
      active := none
      filled := if slot.kind = .positional then state.filled + 1 else state.filled } := by
  simp [giving, settle, exhausted, release]

/-- What a slot gets does not depend on the slot that was open before. -/
theorem giving_reopened (state : WalkState) (other slot : ActiveSlot) :
    { state with active := some other }.giving slot = state.giving slot := rfl

/-- Words for which an open slot has room go to that slot. -/
theorem walk_absorbed (known : index.hasKey state.node = true)
    (opened : state.active = some slot) (unexhausted : slot.isExhausted = false)
    (several : slot.arity ≠ .optional) (words : List String)
    (room : ∀ taken < words.length, (slot.grownBy taken).isExhausted = false) :
    state.walk index (.standard matchCase) words =
      state.giving (slot.grownBy words.length) := by
  induction words using List.reverseRecOn with
  | nil =>
    rw [List.length_nil, ActiveSlot.grownBy_zero, giving_of_unexhausted state unexhausted, ← opened]
    rfl
  | append_singleton words word ih =>
    have roomBefore : ∀ taken < words.length, (slot.grownBy taken).isExhausted = false := by
      intro taken less
      exact room taken (by rw [List.length_append]; omega)
    have roomHere : (slot.grownBy words.length).isExhausted = false :=
      room words.length (by simp)
    -- After the words before, the slot is still open, so it takes the last one as well.
    have reached := ih roomBefore
    rw [giving_of_unexhausted state roomHere] at reached
    have takes : (slot.grownBy words.length).absorbs (.standard matchCase) word = true :=
      ActiveSlot.absorbs_of_unexhausted roomHere several _ word
    have reading : StandardReading index matchCase
        { state with active := some (slot.grownBy words.length) } word .absorb _ :=
      .absorbed rfl takes
    have knownHere : index.hasKey
        { state with active := some (slot.grownBy words.length) }.node = true := known
    rw [walk_append, reached]
    calc { state with active := some (slot.grownBy words.length) }.next index
          (.standard matchCase) word
        = { state with active := some (slot.grownBy words.length) }.giving
            (slot.grownBy words.length).grown := (reading.sound knownHere).next
      _ = state.giving (slot.grownBy (words ++ [word]).length) := by
          rw [giving_reopened, ActiveSlot.grown_grownBy, List.length_append]
          rfl

/-- Words that a slot of a fixed number of words still lacks go to that slot. -/
theorem walk_bounded (known : index.hasKey state.node = true) (opened : state.active = some slot)
    {count : Nat} (bounded : slot.arity = .exactly count) (lacks : slot.consumed < count)
    (words : List String) (fits : slot.consumed + words.length ≤ count) :
    state.walk index (.standard matchCase) words =
      state.giving (slot.grownBy words.length) := by
  have room : ∀ taken, slot.consumed + taken < count →
      (slot.grownBy taken).isExhausted = false := by
    intro taken less
    rw [ActiveSlot.isExhausted_grownBy bounded]
    exact decide_eq_false (Nat.not_le.mpr less)
  have several : slot.arity ≠ .optional := by
    rw [bounded]
    nofun
  exact walk_absorbed known opened (room 0 lacks) several words fun taken less =>
    room taken (by omega)

/-- A slot of a fixed number of words stays open as long as words are missing. -/
theorem walk_bounded_open (known : index.hasKey state.node = true)
    (opened : state.active = some slot) {count : Nat} (bounded : slot.arity = .exactly count)
    (words : List String) (fewer : slot.consumed + words.length < count) :
    state.walk index (.standard matchCase) words =
      { state with active := some (slot.grownBy words.length) } := by
  have unexhausted : (slot.grownBy words.length).isExhausted = false := by
    rw [ActiveSlot.isExhausted_grownBy bounded]
    exact decide_eq_false (Nat.not_le.mpr fewer)
  rw [walk_bounded known opened bounded (by omega) words (Nat.le_of_lt fewer)]
  exact giving_of_unexhausted state unexhausted

/-- A slot of a fixed number of words is closed by the last word that is missing. -/
theorem walk_bounded_closed (known : index.hasKey state.node = true)
    (opened : state.active = some slot) {count : Nat} (bounded : slot.arity = .exactly count)
    (lacks : slot.consumed < count) (words : List String)
    (all : slot.consumed + words.length = count) :
    state.walk index (.standard matchCase) words = { state with
      active := none
      filled := if slot.kind = .positional then state.filled + 1 else state.filled } := by
  have exhausted : (slot.grownBy words.length).isExhausted = true := by
    rw [ActiveSlot.isExhausted_grownBy bounded]
    exact decide_eq_true (Nat.le_of_eq all.symm)
  rw [walk_bounded known opened bounded lacks words (Nat.le_of_eq all)]
  exact giving_of_exhausted state exhausted

/-- All words that follow go to a slot without an upper bound. -/
theorem walk_unbounded (known : index.hasKey state.node = true)
    (opened : state.active = some slot) (unbounded : slot.arity.isUnbounded = true)
    (words : List String) :
    state.walk index (.standard matchCase) words =
      { state with active := some (slot.grownBy words.length) } := by
  have room : ∀ taken, (slot.grownBy taken).isExhausted = false := by
    intro taken
    refine ActiveSlot.isExhausted_of_isUnbounded ?_
    rwa [ActiveSlot.grownBy_arity]
  have several : slot.arity ≠ .optional := by
    intro optional
    rw [optional] at unbounded
    cases unbounded
  rw [walk_absorbed known opened (room 0) several words fun taken _ => room taken]
  exact giving_of_unexhausted state (room words.length)

end WalkState

/-- **What an open slot absorbs.** In an index that is built from a specification, and under the
standard rules, take any words that leave a slot open. If the slot takes a fixed number of words,
some of them are still missing; fewer words than are missing only raise the number of words that
it has, whatever they are, and as many as are missing close it, which fills a positional slot and
changes nothing else. If the slot has no upper bound, any words that follow only raise the number
of words that it has: the slot stays open and current, and the command, its filled positionals and
the restriction to positionals stay as they are. -/
theorem absorption_law {root : Command} {index : Index} (built : root.index = .ok index)
    (matchCase : MatchCase) (typed : List String) {slot : ActiveSlot}
    (opened : (WalkState.run index (.standard matchCase) typed).active = some slot) :
    let state := WalkState.run index (.standard matchCase) typed
    (∀ count, slot.arity = .exactly count → slot.consumed < count ∧ ∀ words : List String,
      (words.length < count - slot.consumed →
        state.walk index (.standard matchCase) words =
          { state with active := some { slot with consumed := slot.consumed + words.length } }) ∧
      (words.length = count - slot.consumed →
        state.walk index (.standard matchCase) words = { state with
          active := none
          filled := if slot.kind = .positional then state.filled + 1 else state.filled })) ∧
    (slot.arity.isUnbounded = true → ∀ words : List String,
      state.walk index (.standard matchCase) words =
          { state with active := some { slot with consumed := slot.consumed + words.length } } ∧
        (state.walk index (.standard matchCase) words).currentSlot = state.currentSlot) := by
  obtain ⟨_, holds⟩ := Command.index_ok built
  have valid := WalkState.run_valid holds.closed (.standard matchCase) typed
  intro state
  refine ⟨?bounded, ?unbounded⟩
  case bounded =>
    intro count bounded
    have lacks : slot.consumed < count := by
      have unexhausted := (valid.fits slot opened).unexhausted
      simpa [ActiveSlot.isExhausted, bounded] using unexhausted
    refine ⟨lacks, fun words => ⟨fun fewer => ?_, fun all => ?_⟩⟩
    · exact WalkState.walk_bounded_open valid.known opened bounded words (by omega)
    · exact WalkState.walk_bounded_closed valid.known opened bounded lacks words (by omega)
  case unbounded =>
    intro unbounded words
    have reached : state.walk index (.standard matchCase) words = _ :=
      WalkState.walk_unbounded valid.known opened unbounded words
    refine ⟨reached, ?_⟩
    rw [reached, WalkState.currentSlot_of_open opened]
    rfl

/-- A program with a positional of three words, an option of at least one word, and a subcommand. -/
def absorbingProgram : Command where
  name := "prog"
  options := [{ flags := ["--tag"], arity := .oneOrMore }]
  positionals := [{ name := "point", arity := .exactly 3 }]
  subcommands := [{ name := "build" }]

theorem absorbingProgram_accepted : ∃ index, absorbingProgram.index = .ok index :=
  Command.accepted_of_isSome (by decide +kernel)

/-- The separator, a flag and the name of a subcommand are words of a positional that lacks two
words, and of an option without an upper bound. -/
theorem absorption_law_absorbingProgram : ∃ index, absorbingProgram.index = .ok index ∧
    (WalkState.run index (.standard .sensitive) ["1"]).active =
      some ⟨"pos_0", .positional, .exactly 3, 1⟩ ∧
    (WalkState.run index (.standard .sensitive) ["1"]).walk index (.standard .sensitive) ["--"] =
      ⟨"prog", 0, some ⟨"pos_0", .positional, .exactly 3, 2⟩, false⟩ ∧
    (WalkState.run index (.standard .sensitive) ["1"]).walk index (.standard .sensitive)
      ["--", "build"] = ⟨"prog", 1, none, false⟩ ∧
    (WalkState.run index (.standard .sensitive) ["--tag"]).active =
      some ⟨"--tag", .option, .oneOrMore, 0⟩ ∧
    (WalkState.run index (.standard .sensitive) ["--tag"]).walk index (.standard .sensitive)
      ["--", "--tag", "build"] = ⟨"prog", 0, some ⟨"--tag", .option, .oneOrMore, 3⟩, false⟩ := by
  obtain ⟨index, built⟩ := absorbingProgram_accepted
  have point : WalkState.run index (.standard .sensitive) ["1"] =
      ⟨"prog", 0, some ⟨"pos_0", .positional, .exactly 3, 1⟩, false⟩ :=
    Command.index_observed built (WalkState.run · (.standard .sensitive) ["1"]) (by decide +kernel)
  have tag : WalkState.run index (.standard .sensitive) ["--tag"] =
      ⟨"prog", 0, some ⟨"--tag", .option, .oneOrMore, 0⟩, false⟩ :=
    Command.index_observed built (WalkState.run · (.standard .sensitive) ["--tag"])
      (by decide +kernel)
  obtain ⟨bounded, _⟩ := absorption_law built .sensitive ["1"] (congrArg WalkState.active point)
  obtain ⟨_, words⟩ := bounded 3 rfl
  obtain ⟨_, unbounded⟩ := absorption_law built .sensitive ["--tag"] (congrArg WalkState.active tag)
  refine ⟨index, built, by rw [point], ?_, ?_, by rw [tag], ?_⟩
  · rw [(words ["--"]).1 (by decide), point]
    rfl
  · rw [(words ["--", "build"]).2 rfl, point]
    rfl
  · rw [(unbounded rfl ["--", "--tag", "build"]).1, tag]
    rfl

end CommandCompletion
