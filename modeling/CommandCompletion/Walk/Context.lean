import CommandCompletion.Walk

/-!
# What a word is completed as

Once the typed words are read, the word under the cursor is completed either as an
option of the command reached or as a value of its current slot. It is an option when it
begins with the marker, unless the separator was met or an option still waits for a
value. Names of subcommands are offered with the values as long as the command has
nothing filled and nothing open.
-/

set_option autoImplicit false

namespace CommandCompletion

/-- What a word is completed as. -/
inductive Context where
  /-- As a flag of a command. -/
  | options (node word : String)
  /-- As a value of a slot of a command, or as one of its subcommands where those may follow. -/
  | slot (node key : String) (subcommands : Bool) (word : String)
  deriving DecidableEq

namespace Context

/-- The key of the command. -/
def node : Context → String
  | .options node _ => node
  | .slot node _ _ _ => node

/-- The word being completed. -/
def word : Context → String
  | .options _ word => word
  | .slot _ _ _ word => word

end Context

namespace WalkState

/-- Whether an open option still needs a value. -/
def optionPending (state : WalkState) : Bool :=
  state.active.any fun slot => slot.kind = .option && 0 < slot.required

/-- Whether a subcommand may follow. -/
def subcommandsFollow (state : WalkState) : Bool :=
  state.filled == 0 && state.active.isNone && !state.positionalOnly

/-- What the word under the cursor is completed as. -/
def context (index : Index) (description : Description) (state : WalkState) (word : String) :
    Context :=
  let node := index.resolve state.node
  if !state.positionalOnly && !state.optionPending && description.looksLikeOption word then
    .options node word
  else .slot node state.currentSlot state.subcommandsFollow word

end WalkState

end CommandCompletion
