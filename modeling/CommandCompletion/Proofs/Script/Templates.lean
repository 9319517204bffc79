import CommandCompletion.Proofs.Script.Defined
import Mathlib.Tactic.Tauto

/-!
# The templates of the shells

A shell brings along the templates of its scripts and the functions of the built-in providers.
What is needed to know about these texts is seen by looking at them once, before any hole is
filled (`SoundTemplate`): that nothing in them reads as a mark but the marks, although at signs
stand in them that belong to the shell, that they have no holes but those that are filled, and
what their lines open. It holds of all templates (`sound_templates`), and of the texts without
holes (`sound_texts`), and so of every script that is made of them, whatever the holes are filled
with (`SoundTemplate.opens_filled`, `SoundTemplate.guarded_filled`).
-/

set_option autoImplicit false

namespace CommandCompletion.Script

/-! ## Templates -/

/-- The templates of a shell, before anything is put into them. -/
structure Templates where
  helpers : List Char
  /-- The holes of the helper functions that hold a test. -/
  tests : List Hole
  walk : WalkRule → List Char
  sources : CandidateSource → List Char
  main : List Char
  registration : List Char

/-- The templates of a shell. -/
def templates : Shell → Templates
  | .bash => ⟨Bash.helperTemplate, [.comparison], PosixWalk.block, Bash.sourceBlock,
      Bash.mainTemplate, Bash.emitter.registrationTemplate⟩
  | .zsh => ⟨Zsh.helperTemplate, [.comparison], PosixWalk.block, Zsh.sourceBlock,
      Zsh.mainTemplate, Zsh.registrationTemplate⟩
  | .fish => ⟨Fish.helperTemplate, [.optionTest, .caseFolding], Fish.walkBlock, Fish.sourceBlock,
      Fish.mainTemplate, Fish.emitter.registrationTemplate⟩

/-- The holes of names and quoted texts. -/
def commonNames : List Hole :=
  [.function, .root, .program, .separator, .marker]

/-! ## What they define -/

/-- The names of the helper functions. -/
def helperNames : Shell → List String
  | .bash | .zsh =>
    ["has", "optlike", "match", "release", "exhausted", "pending", "absorbs", "collect"]
  | .fish => ["optlike", "match", "exhausted", "pending", "absorbs"]

/-- The functions of the built-in providers. -/
def builtinHeads : List Head :=
  [(.function, Bindings.filesFunction.toList), (.function, Bindings.directoriesFunction.toList)]

/-- A name behind the stem, as it stands in a template. -/
def suffixed (name : String) : List Piece :=
  .hole .function :: literal ('_' :: name.toList)

/-- The name of the completion function, as it stands in a template. -/
def completionPieces : Shell → List Piece
  | .bash | .zsh => [.hole .function]
  | .fish => suffixed "complete"

/-- The pieces of the template of the registration. -/
def registrationPieces : Shell → List Piece
  | .bash =>
    literal "complete -F ".toList ++ .hole .function :: (literal " ".toList ++
      .hole .program :: literal "\n".toList)
  | .zsh =>
    literal "if [[ $\x7bzsh_eval_context[-1]\x7d == loadautofunc ]]; then\n    ".toList ++
      .hole .function :: (literal " \"$@\"\nelse\n    compdef ".toList ++
        .hole .function :: (literal " ".toList ++ .hole .program :: literal "\nfi\n".toList))
  | .fish =>
    literal "complete -c ".toList ++ .hole .program :: (literal " -e\ncomplete -c ".toList ++
      .hole .program :: (literal " -f -a '(".toList ++
        .hole .function :: literal "_complete)'\n".toList))

/-- The pieces at the beginning of the helper functions of fish, up to the test for options. -/
def optionTestPieces : List Piece :=
  literal "function ".toList ++ .hole .function ::
    (literal "_optlike --argument-names word\n".toList ++
      .hole .optionTest :: literal "\nend\n".toList)

/-! ## Sound templates -/

/-- Whether pieces are legible and have no other holes than some. -/
def fits (holes : List Hole) : List Piece → Bool
  | [] => true
  | .char c :: rest => (c != '@' || endsName rest) && fits holes rest
  | .hole hole :: rest => holes.contains hole && endsName rest && fits holes rest

theorem fits_iff {holes : List Hole} {pieces : List Piece} :
    fits holes pieces = true ↔
      Legible pieces ∧ ∀ hole, .hole hole ∈ pieces → hole ∈ holes := by
  induction pieces with
  | nil => simp [fits, Legible, legible]
  | cons piece rest ih =>
    unfold Legible at ih ⊢
    cases piece with
    | char c => simp [fits, legible, ih, and_assoc]
    | hole hole =>
      simp only [fits, legible, Bool.and_eq_true, ih, List.contains_iff_mem, List.mem_cons,
        Piece.hole.injEq, or_imp, forall_and, forall_eq]
      tauto

/-- Something that is defined under a name without holes. -/
def plainHead (head : Head) : PieceHead :=
  (head.1, literal head.2)

@[simp] theorem filled_plainHead (value : Hole → List Char) (head : Head) :
    (plainHead head).filled value = head := by
  rw [PieceHead.filled, plainHead, assemble_literal]

/-- A template that can be filled: nothing in it reads as a mark but the marks, it has no other
holes than some, and what its lines open can be told before the holes are filled. -/
structure SoundTemplate (shell : Shell) (holes : List Hole) (heads : List PieceHead)
    (template : List Char) : Prop where
  legible : Legible (split template)
  known : ∀ hole, .hole hole ∈ split template → hole ∈ holes
  heads : pieceHeads? shell .between [] (split template) = some heads

instance (shell : Shell) (holes : List Hole) (heads : List PieceHead) (template : List Char) :
    Decidable (SoundTemplate shell holes heads template) :=
  decidable_of_iff (fits holes (split template) = true ∧
      pieceHeads? shell .between [] (split template) = some heads)
    ⟨fun sound => ⟨(fits_iff.mp sound.1).1, (fits_iff.mp sound.1).2, sound.2⟩,
      fun sound => ⟨fits_iff.mpr ⟨sound.legible, sound.known⟩, sound.heads⟩⟩

namespace SoundTemplate

variable {shell : Shell} {holes : List Hole} {heads : List PieceHead} {template : List Char}

/-- With its holes filled a template opens what its pieces do. -/
theorem opens_filled (sound : SoundTemplate shell holes heads template)
    {value : Hole → List Char} (fills : ∀ hole ∈ holes, Fills shell (value hole) hole.part) :
    Opens shell (assemble value (split template)) (heads.map (·.filled value)) :=
  opens_of_pieceHeads sound.heads fun hole member => fills hole (sound.known hole member)

theorem guarded_filled (sound : SoundTemplate shell holes heads template)
    {value : Hole → List Char} (guarded : ∀ hole ∈ holes, Guarded (value hole)) :
    Guarded (assemble value (split template)) :=
  sound.legible.guarded_assemble fun hole member => guarded hole (sound.known hole member)

/-- A template without holes is a text. -/
theorem split_eq (sound : SoundTemplate shell [] heads template) :
    split template = literal template := by
  have free : ∀ hole, .hole hole ∉ split template := fun hole member =>
    List.not_mem_nil (sound.known hole member)
  rw [← literal_spell free, spell_split]

theorem guarded_text (sound : SoundTemplate shell [] heads template) : Guarded template := by
  rw [Guarded, ← sound.split_eq]
  exact sound.legible

theorem opens_text {names : List Head}
    (sound : SoundTemplate shell [] (names.map plainHead) template) :
    Opens shell template names := by
  have opens : Opens shell (assemble (fun _ => []) (split template)) _ := sound.opens_filled nofun
  rw [sound.split_eq, assemble_literal, List.map_map] at opens
  simpa [Function.comp_def] using opens

end SoundTemplate

/-! ## The templates of all shells -/

/-- What is asked of the templates that the shells bring along. -/
structure SoundTemplates : Prop where
  helpers : ∀ shell, SoundTemplate shell (commonNames ++ (templates shell).tests)
    ((helperNames shell).map fun name => (.function, suffixed name)) (templates shell).helpers
  walk : ∀ shell rule, SoundTemplate shell commonNames [] ((templates shell).walk rule)
  sources : ∀ shell source, SoundTemplate shell commonNames [] ((templates shell).sources source)
  main : ∀ shell, SoundTemplate shell (commonNames ++ [.walk, .sources])
    [(.function, completionPieces shell)] (templates shell).main
  registration : ∀ shell, SoundTemplate shell commonNames [] (templates shell).registration
  registrationSplit : ∀ shell, split (templates shell).registration = registrationPieces shell
  optionTest : optionTestPieces <+: split (templates .fish).helpers

-- The literals are taken apart before the kernel evaluates the checks: it is slow at that.
theorem sound_templates : SoundTemplates := by
  refine ⟨fun shell => ?helpers, fun shell rule => ?walk, fun shell source => ?sources,
    fun shell => ?main, fun shell => ?registration, fun shell => ?registrationSplit, ?optionTest⟩
  case' helpers | main | registration | registrationSplit => cases shell
  case' walk => cases shell <;> cases rule
  case' sources => cases shell <;> cases source
  all_goals
    simp only [templates, Bash.emitter, Fish.emitter, Bash.helperTemplate, Zsh.helperTemplate,
      Fish.helperTemplate, PosixWalk.block, PosixWalk.absorbBlock, PosixWalk.separatorBlock,
      PosixWalk.subcommandBlock, PosixWalk.flagBlock, PosixWalk.positionalBlock, Fish.walkBlock,
      Fish.absorbBlock, Fish.separatorBlock, Fish.subcommandBlock, Fish.flagBlock,
      Fish.positionalBlock, Bash.sourceBlock, Bash.subcommandSource, Bash.choiceSource,
      Bash.providerSource, Zsh.sourceBlock, Zsh.subcommandSource, Zsh.choiceSource,
      Zsh.providerSource, Fish.sourceBlock, Fish.subcommandSource, Fish.choiceSource,
      Fish.providerSource, Bash.mainTemplate, Zsh.mainTemplate, Fish.mainTemplate,
      Zsh.registrationTemplate, registrationPieces, optionTestPieces, lines, List.flatMap_cons,
      List.flatMap_nil]
    repeat rw [String.toList_ofList]
    decide +kernel

/-! ## Texts without holes -/

/-- What is asked of the texts of the shells that have no holes. -/
structure SoundTexts : Prop where
  functions : ∀ shell, SoundTemplate shell [] (builtinHeads.map plainHead)
    (emitterFor shell).builtinFunctions
  /-- The end of the tables of fish. -/
  lookUp : SoundTemplate .fish [] [] fishLookUp
  /-- The lines of fish that fold the case. -/
  caseFolding : ∀ matchCase, SoundTemplate .fish [] [] (Fish.caseFolding matchCase)

theorem sound_texts : SoundTexts := by
  refine ⟨fun shell => ?functions, ?lookUp, fun matchCase => ?caseFolding⟩
  case' functions => cases shell
  case' caseFolding => cases matchCase
  all_goals
    simp only [emitterFor, Bash.emitter, Zsh.emitter, Fish.emitter, Bash.builtinFunctions,
      Zsh.builtinFunctions, Fish.builtinFunctions, fishLookUp, Fish.caseFolding, lines,
      List.flatMap_cons, List.flatMap_nil]
    repeat rw [String.toList_ofList]
    decide +kernel

end CommandCompletion.Script
