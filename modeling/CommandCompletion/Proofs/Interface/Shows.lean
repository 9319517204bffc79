import CommandCompletion.Interface
import Mathlib.Data.List.Forall2
import Mathlib.Tactic.SplitIfs

/-!
# Commands that show a declaration

A command shows a declaration (`Interface.Shows`) if it has the name of the declaration, one option
for each argument with a flag, one positional for each argument without one, and one child for each
subcommand, all of them in order and leaving out what is hidden. The children again show the
subcommands that they stand for, so nothing below a hidden subcommand is shown.

This leaves nothing open: only one command shows a declaration (`Interface.Shows.unique`), and the
option or positional that is made of an argument is the one that shows it.
-/

set_option autoImplicit false

namespace CommandCompletion

/-! ## Showing -/

/-- The choices among possible values: the names of those that are not hidden, and no list at all if
every value is hidden. -/
inductive OfferedAmong (values : List PossibleValue) : Option (List String) → Prop where
  | none (allHidden : values.filter (!·.isHidden) = []) : OfferedAmong values none
  | some (shown : values.filter (!·.isHidden) ≠ []) :
      OfferedAmong values (some ((values.filter (!·.isHidden)).map (·.name)))

namespace Argument

/-- The arity of an argument: that of the range of counts if its values are kept. -/
inductive Takes (argument : Argument) : Arity → Prop where
  | nothing (valueless : argument.action.takesValues = false) : Takes argument (.exactly 0)
  | values (kept : argument.action.takesValues = true) : Takes argument argument.range.arity

/-- An option shows an argument. -/
structure ShowsOption (argument : Argument) (option : OptionDecl) : Prop where
  flags : option.flags =
    (argument.long.elim [] fun long => (long :: argument.longAliases).map ("--" ++ ·)) ++
      argument.short.elim [] fun short =>
        (short :: argument.shortAliases).map fun flag => "-" ++ flag.toString
  arity : argument.Takes option.arity
  plain : option.arity = .exactly 0 → option.choices = none ∧ option.provider = none
  choices : option.arity ≠ .exactly 0 → OfferedAmong argument.possibleValues option.choices
  provider : option.arity ≠ .exactly 0 → option.provider = argument.provider

/-- A positional shows an argument. -/
structure ShowsPositional (argument : Argument) (positional : PositionalDecl) : Prop where
  name : positional.name = argument.name
  remainder : argument.isLast ∨ argument.isTrailing → positional.arity = .remainder
  arity : ¬(argument.isLast ∨ argument.isTrailing) → argument.Takes positional.arity
  choices : OfferedAmong argument.possibleValues positional.choices
  provider : positional.provider = argument.provider

/-- Whether an argument is shown, and given by a flag. -/
def isShownOption (argument : Argument) : Bool :=
  !argument.isHidden && !argument.isPositional

/-- Whether an argument is shown, and given by its place. -/
def isShownPositional (argument : Argument) : Bool :=
  !argument.isHidden && argument.isPositional

end Argument

/-- A command shows a declaration. -/
inductive Interface.Shows : Interface → Command → Prop where
  | intro {interface : Interface} {command : Command} (name : command.name = interface.name)
      (options : List.Forall₂ Argument.ShowsOption
        (interface.arguments.filter Argument.isShownOption) command.options)
      (positionals : List.Forall₂ Argument.ShowsPositional
        (interface.arguments.filter Argument.isShownPositional) command.positionals)
      (subcommands : List.Forall₂ Interface.Shows
        (interface.subcommands.filter (!·.isHidden)) command.subcommands) :
      Interface.Shows interface command

/-! ### Only one command shows a declaration -/

theorem OfferedAmong.unique {values : List PossibleValue} {first second : Option (List String)}
    (offered : OfferedAmong values first) (offeredToo : OfferedAmong values second) :
    first = second := by
  cases offered with
  | none allHidden =>
    cases offeredToo with
    | none _ => rfl
    | some shown => exact absurd allHidden shown
  | some shown =>
    cases offeredToo with
    | none allHidden => exact absurd allHidden shown
    | some _ => rfl

namespace Argument

variable {argument : Argument}

theorem Takes.unique {first second : Arity} (takes : argument.Takes first)
    (takesToo : argument.Takes second) : first = second := by
  cases takes with
  | nothing valueless =>
    cases takesToo with
    | nothing _ => rfl
    | values kept => cases valueless.symm.trans kept
  | values kept =>
    cases takesToo with
    | nothing valueless => cases valueless.symm.trans kept
    | values _ => rfl

theorem ShowsOption.unique {first second : OptionDecl} (shows : argument.ShowsOption first)
    (showsToo : argument.ShowsOption second) : first = second := by
  have flags := shows.flags.trans showsToo.flags.symm
  have arity := shows.arity.unique showsToo.arity
  have rest : first.choices = second.choices ∧ first.provider = second.provider := by
    by_cases noWords : first.arity = .exactly 0
    · obtain ⟨choices, provider⟩ := shows.plain noWords
      obtain ⟨choicesToo, providerToo⟩ := showsToo.plain (arity ▸ noWords)
      exact ⟨choices.trans choicesToo.symm, provider.trans providerToo.symm⟩
    · have words : second.arity ≠ .exactly 0 := arity ▸ noWords
      exact ⟨(shows.choices noWords).unique (showsToo.choices words),
        (shows.provider noWords).trans (showsToo.provider words).symm⟩
  cases first
  cases second
  cases flags
  cases arity
  cases rest.1
  cases rest.2
  rfl

theorem ShowsPositional.unique {first second : PositionalDecl}
    (shows : argument.ShowsPositional first) (showsToo : argument.ShowsPositional second) :
    first = second := by
  have name := shows.name.trans showsToo.name.symm
  have arity : first.arity = second.arity := by
    by_cases rest : argument.isLast ∨ argument.isTrailing
    · exact (shows.remainder rest).trans (showsToo.remainder rest).symm
    · exact (shows.arity rest).unique (showsToo.arity rest)
  have choices := shows.choices.unique showsToo.choices
  have provider := shows.provider.trans showsToo.provider.symm
  cases first
  cases second
  cases name
  cases arity
  cases choices
  cases provider
  rfl

end Argument

mutual
theorem Interface.Shows.unique : ∀ (interface : Interface) {first second : Command},
    interface.Shows first → interface.Shows second → first = second
  | ⟨_, _, _, subcommands, _, _, _⟩, first, second, .intro name options positionals children,
      .intro nameToo optionsToo positionalsToo childrenToo => by
    have uniqueOption : Relator.RightUnique Argument.ShowsOption :=
      fun _ _ _ => Argument.ShowsOption.unique
    have uniquePositional : Relator.RightUnique Argument.ShowsPositional :=
      fun _ _ _ => Argument.ShowsPositional.unique
    have sameOptions := uniqueOption.forall₂ options optionsToo
    have samePositionals := uniquePositional.forall₂ positionals positionalsToo
    have sameChildren := uniqueAll subcommands children childrenToo
    cases first
    cases second
    cases name.trans nameToo.symm
    cases sameOptions
    cases samePositionals
    cases sameChildren
    rfl

theorem Interface.Shows.uniqueAll : ∀ (interfaces : List Interface) {first second : List Command},
    List.Forall₂ Interface.Shows (interfaces.filter (!·.isHidden)) first →
    List.Forall₂ Interface.Shows (interfaces.filter (!·.isHidden)) second → first = second
  | [], _, _ => by
    intro none noneToo
    cases none
    cases noneToo
    rfl
  | interface :: rest, _, _ => by
    have here := @Interface.Shows.unique interface
    have later := @Interface.Shows.uniqueAll rest
    rw [List.filter_cons]
    cases interface.isHidden with
    | true => exact later
    | false =>
      intro shows showsToo
      cases shows with
      | cons head tail =>
        cases showsToo with
        | cons headToo tailToo => rw [here head headToo, later tail tailToo]
end

/-! ## Arguments -/

namespace Argument

variable (argument : Argument)

theorem offeredAmong_choices : OfferedAmong argument.possibleValues argument.choices := by
  rw [choices]
  by_cases allHidden : argument.possibleValues.filter (!·.isHidden) = []
  · rw [allHidden]
    exact .none allHidden
  · have listed : ((argument.possibleValues.filter (!·.isHidden)).map (·.name)).isEmpty = false := by
      rw [List.isEmpty_eq_false_iff]
      exact fun empty => allHidden (List.map_eq_nil_iff.mp empty)
    simp only [listed, Bool.false_eq_true, if_false]
    exact .some allHidden

theorem takes_arity : argument.Takes argument.arity := by
  rw [arity]
  cases kept : argument.action.takesValues with
  | false => exact .nothing kept
  | true => exact .values kept

theorem flags_eq : argument.flags =
    (argument.long.elim [] fun long => (long :: argument.longAliases).map ("--" ++ ·)) ++
      argument.short.elim [] fun short =>
        (short :: argument.shortAliases).map fun flag => "-" ++ flag.toString := by
  rw [flags]
  cases argument.long <;> cases argument.short <;> simp

/-- An argument with a flag has an option. -/
theorem exists_option? {argument : Argument} (shown : argument.isShownOption = true) :
    ∃ option, argument.option? = some option := by
  have present : argument.flags.isEmpty = false := by
    rw [flags_eq]
    cases long : argument.long with
    | some long => rfl
    | none =>
      cases short : argument.short with
      | some short => rfl
      | none => simp [isShownOption, isPositional, long, short] at shown
  rw [option?, present]
  split
  · contradiction
  · split <;> exact ⟨_, rfl⟩

theorem showsOption_option? {argument : Argument} {option : OptionDecl}
    (same : argument.option? = some option) : argument.ShowsOption option := by
  rw [option?] at same
  split_ifs at same with noFlags noWords <;> cases same
  · exact ⟨argument.flags_eq, noWords ▸ argument.takes_arity, fun _ => ⟨rfl, rfl⟩,
      fun takes => absurd rfl takes, fun takes => absurd rfl takes⟩
  · exact ⟨argument.flags_eq, argument.takes_arity, fun none => absurd none noWords,
      fun _ => argument.offeredAmong_choices, fun _ => rfl⟩

theorem showsPositional_positional : argument.ShowsPositional argument.positional := by
  refine ⟨rfl, fun rest => ?_, fun bounded => ?_, argument.offeredAmong_choices, rfl⟩
  · rw [positional]
    exact if_pos (Bool.or_eq_true_iff.mpr rest)
  · have usual : argument.positional.arity = argument.arity :=
      if_neg fun rest => bounded (Bool.or_eq_true_iff.mp rest)
    rw [usual]
    exact argument.takes_arity

end Argument

end CommandCompletion
