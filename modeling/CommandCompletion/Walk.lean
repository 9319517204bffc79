import CommandCompletion.Index
import CommandCompletion.Walk.Slot

/-!
# Walking the typed words

The words that are complete are read from the left. What has to be remembered is small:
the command reached, how many of its positionals are filled, the slot that is open, and
whether the separator was met. For each word the rules of the description are tried in
order, and the first one that claims the word settles it. A rule that does not claim the
word hands it on; the rule of the open slot closes that slot when it hands the word on.

The walk never fails. A word that no rule claims changes nothing, and a command key that
the index does not have is replaced by the program's before the word is read.
-/

set_option autoImplicit false

namespace CommandCompletion

/-- What is remembered of the words read so far. -/
structure WalkState where
  /-- The key of the command reached. -/
  node : String
  /-- The positionals of that command that are filled. -/
  filled : Nat := 0
  /-- The slot that is taking words. -/
  active : Option ActiveSlot := none
  /-- Whether only positionals may follow. -/
  positionalOnly : Bool := false
  deriving DecidableEq

/-- What a rule makes of a word. -/
inductive Verdict where
  /-- The rule claims the word; the walk goes on from this state. -/
  | claimed (state : WalkState)
  /-- The rule hands the word on to the next rule, in this state. -/
  | passed (state : WalkState)
  deriving DecidableEq

namespace WalkState

/-- The state before any word. -/
def start (index : Index) : WalkState :=
  { node := index.root }

/-- The key of the slot that a word completed now belongs to. -/
def currentSlot (state : WalkState) : String :=
  match state.active with
  | some slot => slot.key
  | none => positionalKey state.filled

/-- Closes the open slot; a positional slot that closes is filled. -/
def release (state : WalkState) : WalkState :=
  match state.active with
  | some slot =>
    { state with
      active := none
      filled := if slot.kind = .positional then state.filled + 1 else state.filled }
  | none => state

/-- Closes the open slot if it has everything it can take. -/
def settle (state : WalkState) : WalkState :=
  if state.active.any ActiveSlot.isExhausted then state.release else state

/-- The open slot takes the word, or closes. -/
def absorb (description : Description) (word : String) (state : WalkState) : Verdict :=
  match state.active with
  | none => .passed state
  | some slot =>
    if slot.absorbs description word then
      .claimed { state with active := some { slot with consumed := slot.consumed + 1 } }.settle
    else .passed state.release

/-- The separator makes everything that follows positional. -/
def separate (description : Description) (word : String) (state : WalkState) : Verdict :=
  if state.positionalOnly || word != description.separator then .passed state
  else .claimed { state with positionalOnly := true }

/-- The name of a subcommand leads to that subcommand, with nothing filled. -/
def descend (index : Index) (word : String) (state : WalkState) : Verdict :=
  if state.positionalOnly || !index.isSubcommand state.node word then .passed state
  else .claimed { state with node := childKey state.node word, filled := 0, active := none }

/-- A flag opens its slot, unless the slot takes nothing. -/
def openOption (index : Index) (word : String) (state : WalkState) : Verdict :=
  if state.positionalOnly || !index.isFlag state.node word then .passed state
  else
    let arity := (index.arity state.node word).getD (.exactly 0)
    .claimed { state with
      active := if arity = .exactly 0 then none else some ⟨word, .option, arity, 0⟩ }

/-- Any word fills the next positional slot, which stays open if it can take more. -/
def openPositional (index : Index) (state : WalkState) : Verdict :=
  let key := positionalKey state.filled
  let arity := (index.arity state.node key).getD (.exactly 1)
  .claimed { state with active := some ⟨key, .positional, arity, 1⟩ }.settle

/-- What a rule makes of a word. -/
def apply (index : Index) (description : Description) (word : String) (rule : WalkRule)
    (state : WalkState) : Verdict :=
  match rule with
  | .absorb => state.absorb description word
  | .separator => state.separate description word
  | .subcommand => state.descend index word
  | .flag => state.openOption index word
  | .positional => state.openPositional index

/-- Tries rules in order until one claims the word. -/
def applyRules (index : Index) (description : Description) (word : String) :
    List WalkRule → WalkState → WalkState
  | [], state => state
  | rule :: rest, state =>
    match state.apply index description word rule with
    | .claimed next => next
    | .passed next => applyRules index description word rest next

/-- The state at a command that the index has. -/
def rooted (index : Index) (state : WalkState) : WalkState :=
  { state with node := index.resolve state.node }

/-- The state after one more word. -/
def next (index : Index) (description : Description) (state : WalkState) (word : String) :
    WalkState :=
  applyRules index description word description.rules (state.rooted index)

/-- The state after a list of words, from a given state. -/
def walk (index : Index) (description : Description) (state : WalkState) (words : List String) :
    WalkState :=
  words.foldl (next index description) state

/-- The state after the typed words of a command line. -/
def run (index : Index) (description : Description) (words : List String) : WalkState :=
  walk index description (start index) words

end WalkState

end CommandCompletion
