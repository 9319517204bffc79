import CommandCompletion.Proofs.Walk.Absorbing
import Mathlib.Algebra.BigOperators.Intervals
import Mathlib.Algebra.Order.BigOperators.Group.Finset
import Mathlib.Data.ENat.Basic

/-!
# Words dealt out to positionals

Words that are values are dealt out to the positionals of a command one after the other. A
positional gets as many words as it takes, at least the one that opens it, before the next one
gets any (`Index.width`): a slot that takes none still has that word, a slot of at most one word
is full with it, and a slot without an upper bound keeps all that come.

So the state after some values is known from their number alone. If the positionals before one
take fewer words together, or just so many, and that one included they take more, then these are
filled and the rest of the words is in its slot (`positionals_dealt_greedily`). The walk is
followed word by word: either the open slot has room for one more, or it is full with the word
and the next positional is at its start (`WalkState.next_dealt`).
-/

set_option autoImplicit false

namespace CommandCompletion

/-- How many words a positional with an arity gets before the next one gets any. -/
def Arity.width : Arity → ℕ∞
  | .exactly count => Nat.cast (max count 1)
  | .optional => 1
  | .zeroOrMore | .oneOrMore | .remainder => ⊤

theorem Arity.one_le_width (arity : Arity) : 1 ≤ arity.width := by
  cases arity with
  | exactly count => exact Nat.one_le_cast.mpr (le_max_right count 1)
  | optional => exact le_refl 1
  | zeroOrMore => exact le_top
  | oneOrMore => exact le_top
  | remainder => exact le_top

/-- A slot that has a word is full once it has as many as a positional with its arity gets. -/
theorem ActiveSlot.isExhausted_iff_width {slot : ActiveSlot} (started : 1 ≤ slot.consumed) :
    slot.isExhausted = true ↔ slot.arity.width ≤ slot.consumed := by
  obtain ⟨key, kind, arity, consumed⟩ := slot
  cases arity with
  | exactly count =>
    rw [isExhausted, Arity.width, Nat.cast_le, max_le_iff, and_iff_left started]
    exact decide_eq_true_iff
  | optional => simp [isExhausted, Arity.width]
  | zeroOrMore => simp [isExhausted, Arity.width]
  | oneOrMore => simp [isExhausted, Arity.width]
  | remainder => simp [isExhausted, Arity.width]

namespace Index

/-- How many words the positional with a number gets before the next one gets any; one that is not
declared gets one. -/
def width (index : Index) (node : String) (number : Nat) : ℕ∞ :=
  match index.arity node (positionalKey number) with
  | some arity => arity.width
  | none => 1

/-- How many words the positionals from one number on get, up to another number that is left out. -/
def widths (index : Index) (node : String) (first last : Nat) : ℕ∞ :=
  ∑ number ∈ Finset.Ico first last, index.width node number

/-- A number of words that fills the positionals from one number on up to another, and not that
one as well. -/
structure Reaches (index : Index) (node : String) (first words last : Nat) : Prop where
  le : first ≤ last
  filled : index.widths node first last ≤ words
  unfilled : words < index.widths node first (last + 1)

/-- A word that is neither the separator nor the name of a subcommand or a flag of a command. -/
structure Value (index : Index) (node word : String) : Prop where
  notSeparator : word ≠ "--"
  notSubcommand : index.isSubcommand node word = false
  notFlag : index.isFlag node word = false

variable {index : Index} {node : String} {first words last other : Nat}

@[simp] theorem widths_self (index : Index) (node : String) (first : Nat) :
    index.widths node first first = 0 := by
  simp [widths]

theorem widths_succ (index : Index) (node : String) (le : first ≤ last) :
    index.widths node first (last + 1) =
      index.widths node first last + index.width node last :=
  Finset.sum_Ico_succ_top le _

theorem widths_mono (index : Index) (node : String) (first : Nat) (le : last ≤ other) :
    index.widths node first last ≤ index.widths node first other :=
  Finset.sum_le_sum_of_subset (Finset.Ico_subset_Ico_right le)

/-- A number of words reaches one positional only. -/
theorem Reaches.unique (reaches : index.Reaches node first words last)
    (reachesToo : index.Reaches node first words other) : last = other := by
  -- Otherwise the greater of the two would be filled by fewer words than fill the lesser one.
  rcases Nat.lt_trichotomy last other with less | same | less
  · have filled := (widths_mono index node first less).trans reachesToo.filled
    exact absurd reaches.unfilled (not_lt.mpr filled)
  · exact same
  · have filled := (widths_mono index node first less).trans reaches.filled
    exact absurd reachesToo.unfilled (not_lt.mpr filled)

/-- Every positional gets a word. -/
theorem zero_lt_width (index : Index) (node : String) (number : Nat) :
    (0 : ℕ) < index.width node number := by
  have one : (0 : ℕ) < (1 : ℕ∞) := by simp
  rw [width]
  split
  · exact one.trans_le (Arity.one_le_width _)
  · exact one

theorem width_positionalSlot (index : Index) (node : String) (number : Nat) :
    (index.positionalSlot node number).arity.width = index.width node number := by
  simp only [positionalSlot, width]
  cases index.arity node (positionalKey number) with
  | none => exact Nat.cast_one
  | some arity => rfl

/-- The slot of a positional is full once it has as many words as the positional gets. -/
theorem isExhausted_positionalSlot_iff (index : Index) (node : String) (number more : Nat) :
    ((index.positionalSlot node number).grownBy more).isExhausted = true ↔
      index.width node number ≤ (more + 1 : ℕ) := by
  have started : 1 ≤ ((index.positionalSlot node number).grownBy more).consumed :=
    Nat.le_add_right 1 more
  rw [ActiveSlot.isExhausted_iff_width started, ActiveSlot.grownBy_arity, width_positionalSlot,
    Nat.add_comm]
  rfl

end Index

namespace WalkState

variable {index : Index} {matchCase : MatchCase} {state : WalkState} {word : String}

/-- The positional slot with a number that is open with some words, none if it has none. -/
def dealtSlot? (index : Index) (node : String) (number : Nat) : Nat → Option ActiveSlot
  | 0 => none
  | more + 1 => some ((index.positionalSlot node number).grownBy more)

/-- A state as it is when the positionals before a number are filled and the slot of that number
has some words. -/
def dealt (index : Index) (state : WalkState) (number words : Nat) : WalkState :=
  { state with filled := number, active := dealtSlot? index state.node number words }

theorem dealt_filled (closed : state.active = none) : state.dealt index state.filled 0 = state := by
  rw [dealt, dealtSlot?, ← closed]

/-- With one more word a positional slot stays open, or is full. -/
theorem giving_dealt (index : Index) (state : WalkState) (number words : Nat) :
    (state.dealt index number words).giving
        ((index.positionalSlot state.node number).grownBy words) =
      if index.width state.node number ≤ (words + 1 : ℕ) then state.dealt index (number + 1) 0
      else state.dealt index number (words + 1) := by
  have full := index.isExhausted_positionalSlot_iff state.node number words
  by_cases enough : index.width state.node number ≤ (words + 1 : ℕ)
  · rw [if_pos enough, giving_of_exhausted _ (full.mpr enough)]
    rfl
  · have room : ((index.positionalSlot state.node number).grownBy words).isExhausted = false :=
      eq_false_of_ne_true fun exhausted => enough (full.mp exhausted)
    rw [if_neg enough, giving_of_unexhausted _ room]
    rfl

/-- A value goes to the positional slot that has room for it. -/
theorem next_dealt (known : index.hasKey state.node = true) (matchCase : MatchCase)
    {number words : Nat} (room : words < index.width state.node number)
    (value : state.positionalOnly = true ∨ index.Value state.node word) :
    (state.dealt index number words).next index (.standard matchCase) word =
      if index.width state.node number ≤ (words + 1 : ℕ) then state.dealt index (number + 1) 0
      else state.dealt index number (words + 1) := by
  have knownHere : index.hasKey (state.dealt index number words).node = true := known
  cases words with
  | zero =>
    have closed : (state.dealt index number 0).active = none := rfl
    have reading : StandardReading index matchCase (state.dealt index number 0) word .positional
        _ := .filled (declines_of_closed closed)
      (value.imp_right fun plain => ⟨plain.notSeparator, plain.notSubcommand, plain.notFlag⟩)
    rw [(reading.sound knownHere).next, release_of_closed closed]
    exact giving_dealt index state number 0
  | succ words =>
    have unexhausted :
        ((index.positionalSlot state.node number).grownBy words).isExhausted = false := by
      refine eq_false_of_ne_true fun exhausted => ?_
      exact absurd room (not_lt.mpr ((index.isExhausted_positionalSlot_iff _ _ _).mp exhausted))
    -- A slot of at most one word would be full with the word that opened it.
    have several : ((index.positionalSlot state.node number).grownBy words).arity ≠ .optional := by
      intro optional
      rw [ActiveSlot.isExhausted, optional] at unexhausted
      simp [ActiveSlot.grownBy, Index.positionalSlot] at unexhausted
    have takes := ActiveSlot.absorbs_of_unexhausted unexhausted several (.standard matchCase) word
    have reading : StandardReading index matchCase (state.dealt index number (words + 1)) word
        .absorb _ := .absorbed rfl takes
    rw [(reading.sound knownHere).next, ActiveSlot.grown_grownBy]
    exact giving_dealt index state number (words + 1)

/-- Values fill one positional after the other. -/
theorem walk_dealt (known : index.hasKey state.node = true) (matchCase : MatchCase)
    (closed : state.active = none) (words : List String)
    (values : state.positionalOnly = true ∨ ∀ word ∈ words, index.Value state.node word) :
    ∃ last given more : Nat,
      state.walk index (.standard matchCase) words = state.dealt index last more ∧
      state.filled ≤ last ∧ index.widths state.node state.filled last = given ∧
      given + more = words.length ∧ more < index.width state.node last := by
  induction words using List.reverseRecOn with
  | nil =>
    exact ⟨state.filled, 0, 0, (dealt_filled closed).symm, le_refl _, index.widths_self _ _, rfl,
      index.zero_lt_width state.node state.filled⟩
  | append_singleton words word ih =>
    have valuesBefore : state.positionalOnly = true ∨ ∀ word ∈ words, index.Value state.node word :=
      values.imp_right fun plain other member => plain other (List.mem_append_left _ member)
    have value : state.positionalOnly = true ∨ index.Value state.node word :=
      values.imp_right fun plain => plain word (by simp)
    obtain ⟨last, given, more, reached, le, filled, count, room⟩ := ih valuesBefore
    rw [walk_append, reached, walk, List.foldl_cons, List.foldl_nil,
      next_dealt known matchCase room value]
    -- The word fills the slot that the words before reached, or there is still room in it.
    by_cases enough : index.width state.node last ≤ (more + 1 : ℕ)
    · have width : index.width state.node last = (more + 1 : ℕ) :=
        le_antisymm enough (ENat.natCast_add_one_le_iff.mpr room)
      refine ⟨last + 1, given + (more + 1), 0, if_pos enough, by omega, ?_, ?_,
        index.zero_lt_width state.node (last + 1)⟩
      · rw [index.widths_succ state.node le, filled, width, ← Nat.cast_add]
      · rw [List.length_append, List.length_singleton]
        omega
    · refine ⟨last, given, more + 1, if_neg enough, le, filled, ?_, not_le.mp enough⟩
      rw [List.length_append, List.length_singleton]
      omega

end WalkState

/-- **Values are dealt out greedily.** In an index that is built from a specification, and under
the standard rules, take any words that leave no slot open, and let values follow: any words if
the separator was met, and otherwise words that are neither the separator nor the name of a
subcommand or a flag of the command. Their number reaches exactly one positional, counted from the
first one that is not filled: those before it get no more words than there are, and with its own
there would be more. The positionals before it are then filled. If they use up all words no slot is
open, and otherwise it is open and has the words that they leave. The command and the restriction
to positionals stay as they are. -/
theorem positionals_dealt_greedily {root : Command} {index : Index} (built : root.index = .ok index)
    (matchCase : MatchCase) (typed words : List String)
    (closed : (WalkState.run index (.standard matchCase) typed).active = none)
    (values : (WalkState.run index (.standard matchCase) typed).positionalOnly = true ∨
      ∀ word ∈ words,
        index.Value (WalkState.run index (.standard matchCase) typed).node word) :
    let state := WalkState.run index (.standard matchCase) typed
    let after := state.walk index (.standard matchCase) words
    index.Reaches state.node state.filled words.length after.filled ∧
      (∀ last, index.Reaches state.node state.filled words.length last → last = after.filled) ∧
      after.node = state.node ∧ after.positionalOnly = state.positionalOnly ∧
      (after.active = none ↔
        (words.length : ℕ∞) = index.widths state.node state.filled after.filled) ∧
      ∀ slot, after.active = some slot →
        slot.kind = .positional ∧ slot.key = positionalKey after.filled ∧
          index.arity state.node slot.key = some slot.arity ∧
          (slot.consumed : ℕ∞) =
            words.length - index.widths state.node state.filled after.filled := by
  obtain ⟨_, holds⟩ := Command.index_ok built
  have valid := WalkState.run_valid holds.closed (.standard matchCase) typed
  intro state after
  have validAfter : after.Valid index :=
    WalkState.walk_induction (WalkState.next_valid holds.closed) words valid
  obtain ⟨last, given, more, reached, le, filled, count, room⟩ :=
    WalkState.walk_dealt valid.known matchCase closed words values
  have same : after = state.dealt index last more := reached
  have filledAfter : after.filled = last := by rw [same, WalkState.dealt]
  have nodeAfter : after.node = state.node := by rw [same, WalkState.dealt]
  have reaches : index.Reaches state.node state.filled words.length last := by
    refine ⟨le, ?_, ?_⟩
    · rw [filled]
      exact_mod_cast (by omega : given ≤ words.length)
    · rw [index.widths_succ state.node le, filled, ← count, Nat.cast_add]
      exact (ENat.add_lt_add_iff_left (ENat.natCast_ne_top given)).mpr room
  rw [filledAfter]
  refine ⟨reaches, fun other reachesToo => reachesToo.unique reaches, nodeAfter, ?_, ?_, ?_⟩
  · rw [same, WalkState.dealt]
  · rw [filled, Nat.cast_inj, same]
    cases more with
    | zero => simp [WalkState.dealt, WalkState.dealtSlot?, ← count]
    | succ more => simp [WalkState.dealt, WalkState.dealtSlot?, ← count]
  · intro slot opened
    have fits := validAfter.fits slot opened
    rw [nodeAfter] at fits
    rw [same] at opened
    cases more with
    | zero => cases opened
    | succ more =>
      cases opened
      refine ⟨rfl, rfl, fits.arity, ?_⟩
      rw [filled, ← count, ← ENat.natCast_sub]
      simp [ActiveSlot.grownBy, Index.positionalSlot, Nat.add_comm]

/-- A program with positionals of no word, of two words and of any number, and with a flag and a
subcommand. -/
def dealingProgram : Command where
  name := "prog"
  options := [{ flags := ["-v"] }]
  positionals := [{ name := "mark", arity := .exactly 0 }, { name := "pair", arity := .exactly 2 },
    { name := "rest", arity := .zeroOrMore }]
  subcommands := [{ name := "build" }]

theorem dealingProgram_accepted : ∃ index, dealingProgram.index = .ok index :=
  Command.accepted_of_isSome (by decide +kernel)

/-- Of five values the first one goes to the positional of no word, two fill the next one, and two
are in the slot of the last. -/
theorem positionals_dealt_greedily_dealingProgram : ∃ index, dealingProgram.index = .ok index ∧
    (WalkState.run index (.standard .sensitive) []).active = none ∧
    (∀ word ∈ ["a", "b", "-", "d", "e"],
      index.Value (WalkState.run index (.standard .sensitive) []).node word) ∧
    ((WalkState.run index (.standard .sensitive) []).walk index (.standard .sensitive)
      ["a", "b", "-", "d", "e"]).filled = 2 ∧
    ∃ slot, ((WalkState.run index (.standard .sensitive) []).walk index (.standard .sensitive)
        ["a", "b", "-", "d", "e"]).active = some slot ∧
      slot.key = positionalKey 2 ∧ slot.consumed = 2 := by
  obtain ⟨index, built⟩ := dealingProgram_accepted
  have start : WalkState.run index (.standard .sensitive) [] = ⟨"prog", 0, none, false⟩ :=
    Command.index_observed built (WalkState.run · (.standard .sensitive) []) (by decide +kernel)
  have values : ∀ word ∈ ["a", "b", "-", "d", "e"],
      index.Value (WalkState.run index (.standard .sensitive) []).node word := by
    have named : ["a", "b", "-", "d", "e"].all (fun word => word != "--" &&
        !index.isSubcommand "prog" word && !index.isFlag "prog" word) = true :=
      Command.index_observed built (fun index => ["a", "b", "-", "d", "e"].all (fun word =>
        word != "--" && !index.isSubcommand "prog" word && !index.isFlag "prog" word))
        (by decide +kernel)
    rw [start]
    intro word member
    have plain := List.all_eq_true.mp named word member
    simp only [Bool.and_eq_true, bne_iff_ne, Bool.not_eq_true'] at plain
    exact ⟨plain.1.1, plain.1.2, plain.2⟩
  have mark : index.arity "prog" (positionalKey 0) = some (.exactly 0) :=
    Command.index_observed built (·.arity "prog" (positionalKey 0)) (by decide +kernel)
  have pair : index.arity "prog" (positionalKey 1) = some (.exactly 2) :=
    Command.index_observed built (·.arity "prog" (positionalKey 1)) (by decide +kernel)
  have rest : index.arity "prog" (positionalKey 2) = some .zeroOrMore :=
    Command.index_observed built (·.arity "prog" (positionalKey 2)) (by decide +kernel)
  have before : index.widths "prog" 0 2 = (3 : ℕ) := by
    rw [index.widths_succ "prog" (Nat.zero_le 1), index.widths_succ "prog" (Nat.zero_le 0)]
    simp only [Index.widths_self, Index.width, mark, pair, Arity.width]
    rfl
  have reaches : index.Reaches "prog" 0 5 2 := by
    refine ⟨Nat.zero_le 2, ?_, ?_⟩
    · rw [before]
      exact_mod_cast (by decide : 3 ≤ 5)
    · have unlimited : index.width "prog" 2 = ⊤ := by simp only [Index.width, rest, Arity.width]
      rw [index.widths_succ "prog" (Nat.zero_le 2), unlimited, add_top]
      exact ENat.natCast_lt_top 5
  have law := positionals_dealt_greedily built .sensitive [] ["a", "b", "-", "d", "e"]
    (congrArg WalkState.active start) (.inr values)
  obtain ⟨_, unique, _, _, closed, slots⟩ := law
  rw [start] at values unique closed slots
  have filled := (unique 2 reaches).symm
  rw [filled, before] at closed slots
  refine ⟨index, built, ?_⟩
  rw [start]
  refine ⟨rfl, values, filled, ?_⟩
  cases opened : (WalkState.walk index (.standard .sensitive) ⟨"prog", 0, none, false⟩
      ["a", "b", "-", "d", "e"]).active with
  | none => exact absurd (closed.mp opened) (by decide)
  | some slot =>
    obtain ⟨_, key, _, consumed⟩ := slots slot opened
    exact ⟨slot, rfl, key, by exact_mod_cast consumed⟩

end CommandCompletion
