import CommandCompletion.Proofs.Tree.Agreement
import CommandCompletion.Proofs.Walk.LockStep
import CommandCompletion.Proofs.Walk.Options

/-!
# Flags of one option

Which of the flags of an option was typed shows only in the name of the slot that it opens. No
rule looks at that name, so two walks that differ in it go on side by side until the slot is
closed, and are equal from there on (`WalkState.SameButFlag`). While the slot is open, the
index holds the same choices and the same provider under both names, so the same candidates
are offered (`aliases_interchangeable`).
-/

set_option autoImplicit false

namespace CommandCompletion

namespace WalkState

/-- Two states that are equal, or differ in the flag alone under which an option of a command is
open. -/
inductive SameButFlag (node flag other : String) : WalkState → WalkState → Prop where
  | same (state : WalkState) : SameButFlag node flag other state state
  | opened (filled : Nat) (arity : Arity) (consumed : Nat) (positionalOnly : Bool) :
      SameButFlag node flag other
        ⟨node, filled, some ⟨flag, .option, arity, consumed⟩, positionalOnly⟩
        ⟨node, filled, some ⟨other, .option, arity, consumed⟩, positionalOnly⟩

namespace SameButFlag

variable {index : Index} {description : Description} {node flag other : String}
variable {first second : WalkState}

theorem settle (alike : SameButFlag node flag other first second) :
    SameButFlag node flag other first.settle second.settle := by
  cases alike with
  | same state => exact .same _
  | opened filled arity consumed positionalOnly =>
    have exhausted : ActiveSlot.isExhausted ⟨other, .option, arity, consumed⟩ =
        ActiveSlot.isExhausted ⟨flag, .option, arity, consumed⟩ := rfl
    simp only [WalkState.settle, Option.any_some, exhausted]
    split
    · exact .same _
    · exact .opened filled arity consumed positionalOnly

/-- No rule looks at the flag under which an option is open. -/
theorem apply (alike : SameButFlag node flag other first second) (index : Index)
    (description : Description) (word : String) (rule : WalkRule) :
    Verdict.Related (SameButFlag node flag other) (first.apply index description word rule)
      (second.apply index description word rule) := by
  cases alike with
  | same state => exact .refl .same _
  | opened filled arity consumed positionalOnly =>
    cases rule with
    | absorb =>
      have absorbs : ActiveSlot.absorbs ⟨other, .option, arity, consumed⟩ description word =
          ActiveSlot.absorbs ⟨flag, .option, arity, consumed⟩ description word := rfl
      simp only [WalkState.apply, absorb, absorbs]
      split
      · exact .claimed (settle (.opened filled arity (consumed + 1) positionalOnly))
      · exact .passed (.same _)
    | separator =>
      simp only [WalkState.apply, separate]
      split
      · exact .passed (.opened filled arity consumed positionalOnly)
      · exact .claimed (.opened filled arity consumed true)
    | subcommand =>
      simp only [WalkState.apply, descend]
      split
      · exact .passed (.opened filled arity consumed positionalOnly)
      · exact .claimed (.same _)
    | flag =>
      simp only [WalkState.apply, openOption]
      split
      · exact .passed (.opened filled arity consumed positionalOnly)
      · exact .claimed (.same _)
    | positional => exact .claimed (.same _)

theorem next (known : index.hasKey node = true) (description : Description) (word : String)
    (alike : SameButFlag node flag other first second) :
    SameButFlag node flag other (first.next index description word)
      (second.next index description word) := by
  refine applyRules_related (fun rule _ _ related => related.apply index description word rule)
    description.rules ?_
  cases alike with
  | same state => exact .same _
  | opened filled arity consumed positionalOnly =>
    rw [rooted_of_hasKey known, rooted_of_hasKey known]
    exact .opened filled arity consumed positionalOnly

/-- If the index holds the same under both flags, the same is offered. -/
theorem drawsAlike (alike : SameButFlag node flag other first second)
    (choices : index.choices node flag = index.choices node other)
    (provider : index.provider node flag = index.provider node other) :
    DrawsAlike index index first second := by
  cases alike with
  | same state => exact ⟨rfl, rfl, rfl, rfl, rfl, rfl, rfl⟩
  | opened filled arity consumed positionalOnly =>
    exact ⟨rfl, rfl, rfl, rfl, rfl, choices, provider⟩

end SameButFlag

variable {index : Index} {matchCase : MatchCase} {flag other : String} {before : List String}

/-- Flags that open slots of one arity open them alike. -/
theorem sameButFlag_flagSlot? (state : WalkState)
    (arity : index.arity state.node flag = index.arity state.node other) :
    SameButFlag state.node flag other
      { state with active := index.flagSlot? state.node flag }
      { state with active := index.flagSlot? state.node other } := by
  simp only [Index.flagSlot?, arity]
  split
  · exact .same _
  · exact .opened state.filled _ 0 state.positionalOnly

/-- Where the walk is at rest, flags whose slots have one arity lead to states that differ in the
flag alone, whatever words follow. -/
theorem AtRest.run_sameButFlag (closed : index.Closed)
    (rest : (run index (.standard matchCase) before).AtRest)
    (read : ∀ name, name = flag ∨ name = other →
      name ∈ index.flags (run index (.standard matchCase) before).node ∧ name ≠ "--" ∧
        name ∉ index.subcommands (run index (.standard matchCase) before).node)
    (arity : index.arity (run index (.standard matchCase) before).node flag =
      index.arity (run index (.standard matchCase) before).node other) (later : List String) :
    SameButFlag (run index (.standard matchCase) before).node flag other
      (run index (.standard matchCase) (before ++ [flag] ++ later))
      (run index (.standard matchCase) (before ++ [other] ++ later)) := by
  have known := (run_valid closed (.standard matchCase) before).known
  have opens : ∀ name, name = flag ∨ name = other →
      run index (.standard matchCase) (before ++ [name]) =
        { run index (.standard matchCase) before with
          active := index.flagSlot? (run index (.standard matchCase) before).node name } := by
    intro name either
    obtain ⟨listed, notSeparator, notSubcommand⟩ := read name either
    rw [run_concat]
    exact rest.next_flag known matchCase listed notSeparator notSubcommand
  have step : ∀ word first second,
      SameButFlag (run index (.standard matchCase) before).node flag other first second →
        SameButFlag (run index (.standard matchCase) before).node flag other
          (first.next index (.standard matchCase) word)
          (second.next index (.standard matchCase) word) :=
    fun word _ _ alike => alike.next known (.standard matchCase) word
  have walked : ∀ name, run index (.standard matchCase) (before ++ [name] ++ later) =
      (run index (.standard matchCase) (before ++ [name])).walk index (.standard matchCase)
        later := fun name => walk_append _ _ _
  rw [walked, walked, opens flag (.inl rfl), opens other (.inr rfl)]
  exact walk_related step later (sameButFlag_flagSlot? _ arity)

end WalkState

/-- An index holds the slot of an option under each of its flags. -/
theorem Index.Holds.sameSlot {root : Command} {index : Index} (holds : index.Holds root)
    (place : Place root) {option : OptionDecl} (declared : option ∈ place.command.options)
    {flag other : String} (listed : flag ∈ option.flags) (listedToo : other ∈ option.flags) :
    index.arity place.key flag = index.arity place.key other ∧
      index.choices place.key flag = index.choices place.key other ∧
      index.provider place.key flag = index.provider place.key other := by
  have has : ∀ name ∈ option.flags, place.command.SlotHas name (some option.slot) :=
    fun name inside => (TreeSlot.option option name declared inside).slotHas (holds.sound place)
  have hasFlag := has flag listed
  have hasOther := has other listedToo
  refine ⟨?_, ?_, ?_⟩
  · rw [holds.arity_key place hasFlag, holds.arity_key place hasOther]
  · rw [holds.choices_key place hasFlag, holds.choices_key place hasOther]
  · rw [holds.provider_key place hasFlag, holds.provider_key place hasOther]

/-- **Flags of one option are interchangeable.** In an index that is built from a specification,
under the standard rules, and where the walk is at rest at the command that declares the option:
whichever of its flags is typed there, if it is neither the separator nor the name of a subcommand,
and whatever words follow, the states reached differ at most in the flag of an open option, and
the same candidates are offered. -/
theorem aliases_interchangeable {root : Command} {index : Index} (built : root.index = .ok index)
    (matchCase : MatchCase) (place : Place root) {option : OptionDecl}
    (declared : option ∈ place.command.options) {flag other : String}
    (listed : flag ∈ option.flags) (listedToo : other ∈ option.flags)
    (notSeparator : flag ≠ "--" ∧ other ≠ "--")
    (notSubcommand : flag ∉ place.command.subcommandNames ∧ other ∉ place.command.subcommandNames)
    {before : List String}
    (reached : (WalkState.run index (.standard matchCase) before).node = place.key)
    (rest : (WalkState.run index (.standard matchCase) before).AtRest) (later : List String) :
    let description := Description.standard matchCase
    WalkState.SameButFlag place.key flag other
        (WalkState.run index description (before ++ [flag] ++ later))
        (WalkState.run index description (before ++ [other] ++ later)) ∧
      ∀ registry word,
        complete index description registry (before ++ [flag] ++ later) word =
          complete index description registry (before ++ [other] ++ later) word := by
  obtain ⟨_, holds⟩ := Command.index_ok built
  obtain ⟨arity, choices, provider⟩ := holds.sameSlot place declared listed listedToo
  intro description
  have isFlag : ∀ name ∈ option.flags, name ∈ index.flags place.key := by
    intro name inside
    exact List.contains_iff_mem.mp ((holds.isFlag_key_iff place).mpr ⟨option, declared, inside⟩)
  have read : ∀ name, name = flag ∨ name = other → name ∈ index.flags place.key ∧ name ≠ "--" ∧
      name ∉ index.subcommands place.key := by
    rw [holds.subcommands_key place]
    rintro name (rfl | rfl)
    · exact ⟨isFlag name listed, notSeparator.1, notSubcommand.1⟩
    · exact ⟨isFlag name listedToo, notSeparator.2, notSubcommand.2⟩
  rw [← reached] at arity read
  have alike := rest.run_sameButFlag holds.closed read arity later
  rw [reached] at alike
  exact ⟨alike, (alike.drawsAlike choices provider).candidates description⟩

/-- While the option waits for its second word, the states differ in its flag. -/
theorem aliases_interchangeable_pairingProgram : ∃ index, pairingProgram.index = .ok index ∧
    WalkState.run index (.standard .sensitive) ["--pair", "build"] =
      ⟨"prog", 0, some ⟨"--pair", .option, .exactly 2, 1⟩, false⟩ ∧
    WalkState.SameButFlag "prog" "--pair" "-p"
      (WalkState.run index (.standard .sensitive) ["--pair", "build"])
      (WalkState.run index (.standard .sensitive) ["-p", "build"]) ∧
    complete index (.standard .sensitive) Table.empty ["--pair", "build"] "r" = ["right"] ∧
    complete index (.standard .sensitive) Table.empty ["-p", "build"] "r" = ["right"] := by
  obtain ⟨index, built⟩ := pairingProgram_accepted
  have start : WalkState.run index (.standard .sensitive) [] = { node := "prog" } :=
    Command.index_observed built (WalkState.run · (.standard .sensitive) []) (by decide +kernel)
  have waiting : WalkState.run index (.standard .sensitive) ["--pair", "build"] =
      ⟨"prog", 0, some ⟨"--pair", .option, .exactly 2, 1⟩, false⟩ :=
    Command.index_observed built (WalkState.run · (.standard .sensitive) ["--pair", "build"])
      (by decide +kernel)
  have offered : complete index (.standard .sensitive) Table.empty ["--pair", "build"] "r" =
      ["right"] :=
    Command.index_observed built (complete · (.standard .sensitive) Table.empty
      ["--pair", "build"] "r") (by decide +kernel)
  have rest : (WalkState.run index (.standard .sensitive) []).AtRest := by
    rw [start]
    exact ⟨rfl, rfl⟩
  obtain ⟨alike, candidates⟩ := aliases_interchangeable built .sensitive
    (.program pairingProgram) List.mem_cons_self (by decide : "--pair" ∈ _)
    (by decide : "-p" ∈ _) (by decide) (by decide) (congrArg WalkState.node start) rest ["build"]
  exact ⟨index, built, waiting, alike, offered, (candidates Table.empty "r").symm.trans offered⟩

end CommandCompletion
