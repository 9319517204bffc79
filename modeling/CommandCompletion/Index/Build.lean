import CommandCompletion.Index

/-!
# Building the index

The tree is read from the root down, each command before its subcommands, and every
command adds one entry under its key. A command is refused when its key is taken, when a
name among its subcommands, flags, choices or providers cannot be held by a script, when
two subcommands have one name, or when a flag is declared twice with different slot
data. A flag that is declared again with the same slot data is passed over.

The first defect met is reported, in the order in which a command is read: its key, the
names of its subcommands, its options flag by flag, its positionals, and then its
subcommands one after the other.
-/

set_option autoImplicit false

namespace CommandCompletion

/-- A flag together with the declaration that lists it. -/
abbrev DeclaredFlag := String × OptionDecl

namespace Command

/-- Refuses a text that is not a word. -/
def checkWord (key word : String) : Except SpecificationFault Unit :=
  if Text.isWord word then .ok () else .error (.invalidName key word)

/-- Refuses the first choice that holds a control character. -/
def checkChoices (key : String) : Option (List String) → Except SpecificationFault Unit
  | none => .ok ()
  | some values =>
    match values.find? (fun value => value.toList.any Text.isControl) with
    | some value => .error (.invalidName key value)
    | none => .ok ()

/-- Refuses a provider whose name is not a word. -/
def checkProvider (key : String) : Option String → Except SpecificationFault Unit
  | none => .ok ()
  | some name => checkWord key name

/-- Refuses the first subcommand name that is not a word, is the separator, or occurred
before. -/
def checkSubcommands (key : String) (before : List String) :
    List String → Except SpecificationFault Unit
  | [] => .ok ()
  | name :: rest =>
    if !Text.isWord name || name == "--" then .error (.invalidName key name)
    else if before.contains name then .error (.duplicateSubcommand key name)
    else checkSubcommands key (name :: before) rest

/-- Every flag of a list of options with its declaration, in order. -/
def listedFlags (options : List OptionDecl) : List DeclaredFlag :=
  options.flatMap fun option => option.flags.map fun flag => (flag, option)

/-- The flags that are new among the listed ones, given those met before, each with its first
declaration. -/
def declareFlags (key : String) (before : List DeclaredFlag) :
    List DeclaredFlag → Except SpecificationFault (List DeclaredFlag)
  | [] => .ok []
  | (flag, option) :: rest =>
    if !Text.isWord flag || isPositionalKey flag then .error (.invalidName key flag)
    else
      match before.lookup flag with
      | some earlier =>
        if earlier.sameSlot option then declareFlags key before rest
        else .error (.conflictingOption key flag)
      | none => do
        checkChoices key option.choices
        checkProvider key option.provider
        let later ← declareFlags key ((flag, option) :: before) rest
        .ok ((flag, option) :: later)

/-- Refuses the first positional whose choices or provider a script cannot hold. -/
def checkPositionals (key : String) : List PositionalDecl → Except SpecificationFault Unit
  | [] => .ok ()
  | positional :: rest => do
    checkChoices key positional.choices
    checkProvider key positional.provider
    checkPositionals key rest

/-! ## The entry of one command -/

/-- What a slot takes: the part that an option and a positional have in common. -/
structure SlotData where
  arity : Arity
  choices : Option (List String)
  provider : Option String
  deriving DecidableEq

/-- The slots of positionals, numbered from the given place on. -/
def positionalSlots (place : Nat) : List PositionalDecl → List (String × SlotData)
  | [] => []
  | positional :: rest =>
    (positionalKey place, ⟨positional.arity, positional.choices, positional.provider⟩) ::
      positionalSlots (place + 1) rest

/-- The slots of flags. -/
def flagSlots (flags : List DeclaredFlag) : List (String × SlotData) :=
  flags.map fun declared =>
    (declared.1, ⟨declared.2.arity, declared.2.choices, declared.2.provider⟩)

/-- The entry of a command with the given flags: the flags' slots and the positionals'. -/
def entryOf (command : Command) (flags : List DeclaredFlag) : IndexEntry :=
  let slots := flagSlots flags ++ positionalSlots 0 command.positionals
  { subcommands := command.subcommands.map (·.name)
    flags := flags.map (·.1)
    choices := Table.ofList (slots.filterMap fun slot => slot.2.choices.map (slot.1, ·))
    providers := Table.ofList (slots.filterMap fun slot => slot.2.provider.map (slot.1, ·))
    arities := Table.ofList (slots.map fun slot => (slot.1, slot.2.arity)) }

/-- The entry of a command under a key, if nothing in the command is refused. -/
def entry (key : String) (command : Command) : Except SpecificationFault IndexEntry := do
  checkSubcommands key [] (command.subcommands.map (·.name))
  let flags ← declareFlags key [] (listedFlags command.options)
  checkPositionals key command.positionals
  .ok (command.entryOf flags)

/-! ## The entries of a tree -/

mutual
/-- Adds the entries of a command and of everything below it. -/
def addEntries (key : String) (entries : Table IndexEntry) :
    Command → Except SpecificationFault (Table IndexEntry)
  | ⟨name, options, positionals, subcommands⟩ =>
    if entries.contains key then .error (.duplicateNode key)
    else do
      let own ← entry key ⟨name, options, positionals, subcommands⟩
      addAllEntries key (entries.insert key own) subcommands

/-- Adds the entries of the subcommands of the command with the given key. -/
def addAllEntries (key : String) (entries : Table IndexEntry) :
    List Command → Except SpecificationFault (Table IndexEntry)
  | [] => .ok entries
  | command :: rest => do
    let extended ← addEntries (childKey key command.name) entries command
    addAllEntries key extended rest
end

/-- The index of a specification. -/
def index (command : Command) : Except SpecificationFault Index := do
  checkWord command.name command.name
  let entries ← addEntries command.name Table.empty command
  .ok ⟨command.name, entries⟩

end Command

end CommandCompletion
