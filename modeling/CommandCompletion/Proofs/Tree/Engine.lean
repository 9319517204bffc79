import CommandCompletion.Candidates
import CommandCompletion.Proofs.Index.Checks

/-!
# Completing on the tree

The walk of the typed words and the candidates for a word need no index. They are defined
here on the tree of commands itself. What is remembered of the typed words is the place
reached, and the open slot is a slot of the command at that place: a word is the name of a
subcommand if a subcommand has that name, it opens the slot of the first option that lists
it, and what a slot takes is read from its declaration.

The candidates are what is offered for the word among all values of the sources, each at
its first occurrence.
-/

set_option autoImplicit false

namespace CommandCompletion

/-! ## Slots of a command -/

/-- A slot of a command: that of an option under one of its flags, or that of the positional
with a number. The command may have fewer positionals. -/
inductive TreeSlot (command : Command) where
  | option (declaring : OptionDecl) (flag : String) (declared : declaring ∈ command.options)
      (listed : flag ∈ declaring.flags)
  | positional (number : Nat)

namespace TreeSlot

variable {command : Command}

/-- What opens the slot. -/
def kind : TreeSlot command → SlotKind
  | .option .. => .option
  | .positional _ => .positional

/-- The key under which an index has the slot. -/
def key : TreeSlot command → String
  | .option _ flag _ _ => flag
  | .positional number => positionalKey number

/-- What is declared of the slot; nothing of a positional that the command does not have. -/
def declaration? : TreeSlot command → Option Command.SlotData
  | .option declaring _ _ _ => some declaring.slot
  | .positional number => command.positionals[number]?.map (·.slot)

/-- How many words the slot takes, one if nothing is declared. -/
def arity (slot : TreeSlot command) : Arity :=
  (slot.declaration?.map (·.arity)).getD (.exactly 1)

end TreeSlot

/-- Whether an option lists a word among its flags. -/
def OptionDecl.lists (word : String) (option : OptionDecl) : Bool :=
  option.flags.contains word

theorem OptionDecl.lists_iff {word : String} {option : OptionDecl} :
    option.lists word = true ↔ word ∈ option.flags :=
  List.contains_iff_mem

/-- The slot that a word opens as a flag, of the first option that lists it. -/
def Command.flagSlot? (command : Command) (word : String) : Option (TreeSlot command) :=
  match found : command.options.find? (OptionDecl.lists word) with
  | some declaring =>
    some (.option declaring word (List.mem_of_find?_eq_some found)
      (OptionDecl.lists_iff.mp (List.find?_some found)))
  | none => none

/-- A slot of a command that is taking words. -/
structure OpenTreeSlot (command : Command) where
  slot : TreeSlot command
  consumed : Nat

/-- The open slot by its key, with the arity that was read from its declaration. -/
def OpenTreeSlot.flat {command : Command} (opened : OpenTreeSlot command) : ActiveSlot :=
  ⟨opened.slot.key, opened.slot.kind, opened.slot.arity, opened.consumed⟩

/-! ## The walk -/

/-- What is remembered of the words read so far. -/
structure TreeState (root : Command) where
  place : Place root
  filled : Nat := 0
  active : Option (OpenTreeSlot place.command) := none
  positionalOnly : Bool := false

/-- What a rule makes of a word. -/
inductive TreeVerdict (root : Command) where
  | claimed (state : TreeState root)
  | passed (state : TreeState root)

namespace TreeState

variable {root : Command}

def start (root : Command) : TreeState root :=
  { place := .program root }

/-- The slot that a word completed now belongs to. -/
def currentSlot (state : TreeState root) : TreeSlot state.place.command :=
  match state.active with
  | some opened => opened.slot
  | none => .positional state.filled

/-- Closes the open slot; a positional slot that closes is filled. -/
def release (state : TreeState root) : TreeState root :=
  match state.active with
  | some opened =>
    { state with
      active := none
      filled := if opened.slot.kind = .positional then state.filled + 1 else state.filled }
  | none => state

/-- Closes the open slot if it has everything it can take. -/
def settle (state : TreeState root) : TreeState root :=
  if state.active.any (·.flat.isExhausted) then state.release else state

def absorb (description : Description) (word : String) (state : TreeState root) :
    TreeVerdict root :=
  match state.active with
  | none => .passed state
  | some opened =>
    if opened.flat.absorbs description word then
      .claimed { state with active := some ⟨opened.slot, opened.consumed + 1⟩ }.settle
    else .passed state.release

def separate (description : Description) (word : String) (state : TreeState root) :
    TreeVerdict root :=
  if state.positionalOnly || word != description.separator then .passed state
  else .claimed { state with positionalOnly := true }

/-- The name of a subcommand leads to the first subcommand of that name. -/
def descend (word : String) (state : TreeState root) : TreeVerdict root :=
  if state.positionalOnly then .passed state
  else
    match state.place.command.subcommands.findFinIdx? fun child => decide (child.name = word) with
    | some number => .claimed { place := state.place.child number number.isLt }
    | none => .passed state

/-- A flag opens the slot of its option, unless the slot takes nothing. -/
def openOption (word : String) (state : TreeState root) : TreeVerdict root :=
  if state.positionalOnly then .passed state
  else
    match state.place.command.flagSlot? word with
    | some slot =>
      .claimed { state with active := if slot.arity = .exactly 0 then none else some ⟨slot, 0⟩ }
    | none => .passed state

def openPositional (state : TreeState root) : TreeVerdict root :=
  .claimed { state with active := some ⟨.positional state.filled, 1⟩ }.settle

/-- What a rule makes of a word. -/
def apply (description : Description) (word : String) (rule : WalkRule) (state : TreeState root) :
    TreeVerdict root :=
  match rule with
  | .absorb => state.absorb description word
  | .separator => state.separate description word
  | .subcommand => state.descend word
  | .flag => state.openOption word
  | .positional => state.openPositional

/-- Tries rules in order until one claims the word. -/
def applyRules (description : Description) (word : String) :
    List WalkRule → TreeState root → TreeState root
  | [], state => state
  | rule :: rest, state =>
    match state.apply description word rule with
    | .claimed next => next
    | .passed next => applyRules description word rest next

/-- The state after one more word. -/
def next (description : Description) (state : TreeState root) (word : String) : TreeState root :=
  applyRules description word description.rules state

/-- The state after the typed words of a command line. -/
def run (root : Command) (description : Description) (typed : List String) : TreeState root :=
  typed.foldl (next description) (start root)

/-! ## Candidates -/

/-- Whether an open option still needs a value. -/
def optionPending (state : TreeState root) : Bool :=
  state.active.any fun opened => opened.slot.kind = .option && 0 < opened.flat.required

/-- Whether a subcommand may follow. -/
def subcommandsFollow (state : TreeState root) : Bool :=
  state.filled == 0 && state.active.isNone && !state.positionalOnly

/-- What one source gives for the current slot. -/
def sourceValues (registry : Registry) (word : String) (state : TreeState root) :
    CandidateSource → List String
  | .subcommands => if state.subcommandsFollow then state.place.command.subcommandNames else []
  | .choices => (state.currentSlot.declaration?.bind (·.choices)).getD []
  | .provider =>
    match state.currentSlot.declaration?.bind (·.provider) with
    | some name => registry.invoke name word
    | none => []

/-- All flags that the command declares, or all values of the sources, one after the other. -/
def values (description : Description) (registry : Registry) (word : String)
    (state : TreeState root) : List String :=
  if !state.positionalOnly && !state.optionPending && description.looksLikeOption word then
    state.place.command.options.flatMap (·.flags)
  else description.sources.flatMap (state.sourceValues registry word)

/-- The values that are offered for the word, each at its first occurrence. -/
def candidates (description : Description) (registry : Registry) (word : String)
    (state : TreeState root) : List String :=
  ((state.values description registry word).filter (description.offers word)).eraseDups

end TreeState

/-- The candidates for a word after the typed words, found on the tree. -/
def Command.complete (root : Command) (description : Description) (registry : Registry)
    (typed : List String) (word : String) : List String :=
  (TreeState.run root description typed).candidates description registry word

end CommandCompletion
