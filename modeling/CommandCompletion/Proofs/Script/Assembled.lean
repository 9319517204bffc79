import CommandCompletion.Proofs.Script.Templates

/-!
# Scripts assembled from pieces

A script is made in several passes: the tests for case and options are put into the helper
functions by replacing, the names and the quoted texts by filling, and the blocks that were
filled already are filled into the completion function. Here it is written down without
passes (`assembled`). The templates are split into pieces first, each hole has its text, and
the pieces are put together once.

Both give the same script (`render_assembled`), whatever is written in the names, in the
marker, in the separator and in the caller's own code. The templates are legible
(`sound_templates`). Replaced by filling, the texts put in are not looked at again. What is
put in by replacing is looked at again, and of this only the test for options holds text of
the user's; there a backslash stands before every at sign.

So no mark is left in a script, unless a text of the user's brings it along.
-/

set_option autoImplicit false

namespace CommandCompletion.Script

/-! ## The script without passes -/

/-- The test whether a candidate begins with the word; in fish it is not a single one. -/
def comparisonText : Shell → MatchCase → List Char
  | .bash => Bash.comparison
  | .zsh => Zsh.comparison
  | .fish => fun _ => []

section Reference

variable (index : Index) (description : Description) (shell : Shell) (plan : Plan)

/-- The texts of the holes outside the completion function. No block holds blocks. -/
def holeText : Hole → List Char
  | .function => plan.function
  | .root => (emitterFor shell).quote index.root.toList
  | .program => (emitterFor shell).quote plan.program.toList
  | .separator => (emitterFor shell).quote description.separator.toList
  | .marker => (emitterFor shell).quote description.marker.toList
  | .comparison => comparisonText shell description.matchCase
  | .optionTest => Fish.optionTest description.marker
  | .caseFolding => Fish.caseFolding description.matchCase
  | .walk | .sources => []

/-- A template put together from its pieces. -/
def assembleTemplate (template : List Char) : List Char :=
  assemble (holeText index description shell plan) (split template)

/-- The texts of the holes in the completion function. -/
def mainText : Hole → List Char
  | .walk => description.rules.flatMap fun rule =>
      assembleTemplate index description shell plan ((templates shell).walk rule)
  | .sources => description.sources.flatMap fun source =>
      assembleTemplate index description shell plan ((templates shell).sources source)
  | hole => holeText index description shell plan hole

/-- A script put together from the pieces of its templates. -/
def assembledFrom (preamble : Option String) : List Char :=
  (emitterFor shell).header plan.program ++ ['\n'] ++
    (emitterFor shell).builtinFunctions ++ ['\n'] ++
    (emitterFor shell).tables plan ++ ['\n'] ++
    assembleTemplate index description shell plan (templates shell).helpers ++ ['\n'] ++
    assemble (mainText index description shell plan) (split (templates shell).main) ++ ['\n'] ++
    preambleBlock preamble ++
    assembleTemplate index description shell plan (templates shell).registration

end Reference

/-- The completion script of a program for a shell, put together from pieces. -/
def assembled (index : Index) (description : Description) (shell : Shell)
    (options : ScriptOptions) : List Char :=
  assembledFrom index description shell (Plan.of index shell options.program options.bindings)
    options.preamble

/-! ## What is put in by replacing -/

/-- Behind an at sign in a quoted regular expression the capitals end at a backslash, or at the
character that ends them in the text, or at the quote. -/
theorem endsName_regexLiteral (text rest : List Char) :
    endsName (literal (backslashed (regexLiteral text) ++ '\'' :: rest)) = true := by
  induction text with
  | nil => rfl
  | cons c text ih =>
    rw [regexLiteral, List.flatMap_cons]
    by_cases punctuation : Text.isPunctuation c = true
    · rw [if_pos punctuation]
      rfl
    · have special : ¬(c = '\\' ∨ c = '\'') := by
        rintro (rfl | rfl) <;> exact punctuation rfl
      have ordinary : (c != '@') = true := bne_iff_ne.mpr fun same => punctuation (same ▸ rfl)
      have own : backslashed [c] = [c] := by simp [backslashed, special]
      rw [if_neg punctuation, List.singleton_append, backslashed_cons, own]
      simp only [List.cons_append, List.nil_append, literal, List.map_cons, endsName, ordinary,
        Bool.true_and, Bool.or_eq_true]
      exact .inr ih

theorem guarded_backslashed_char {c : Char} {rest : List Char} (guarded : Guarded (c :: rest)) :
    Guarded (backslashed [c] ++ rest) := by
  by_cases special : c = '\\' ∨ c = '\''
  · have own : backslashed [c] = ['\\', c] := by simp [backslashed, special]
    rw [own]
    exact guarded.cons (.inl (by decide))
  · have own : backslashed [c] = [c] := by simp [backslashed, special]
    rw [own]
    exact guarded

theorem guarded_regexLiteral (text : List Char) {rest : List Char} (guarded : Guarded rest) :
    Guarded (backslashed (regexLiteral text) ++ '\'' :: rest) := by
  induction text with
  | nil => exact guarded.cons (.inl (by decide))
  | cons c text ih =>
    have bare : Guarded (c :: (backslashed (regexLiteral text) ++ '\'' :: rest)) :=
      ih.cons (.inr (endsName_regexLiteral text rest))
    have own := guarded_backslashed_char bare
    rw [regexLiteral, List.flatMap_cons]
    split
    · rw [List.cons_append, List.singleton_append, backslashed_cons, backslashed_cons c,
        List.append_assoc, List.append_assoc]
      exact guarded_backslashed_char (own.cons (.inl (by decide)))
    · rw [List.singleton_append, backslashed_cons, List.append_assoc]
      exact own

/-- No part of the test for options reads as a mark, whatever the marker is. -/
theorem guarded_optionTest (marker : String) : Guarded (Fish.optionTest marker) := by
  rw [Fish.optionTest]
  split
  · decide
  · have quoted : fishQuote ('^' :: regexLiteral marker.toList) ++ " \"$word\"".toList =
        '\'' :: '^' :: (backslashed (regexLiteral marker.toList) ++
          '\'' :: " \"$word\"".toList) := by
      simp [fishQuote, backslashed]
    rw [List.append_assoc, quoted]
    refine Guarded.append (by decide) ?_
    refine Guarded.cons (Guarded.cons ?_ (.inl (by decide))) (.inl (by decide))
    exact guarded_regexLiteral _ (by decide)

/-! ## Both make the same script -/

section Same

variable (index : Index) (description : Description) (shell : Shell) (plan : Plan)

theorem isCapital_commonHoles : ∀ entry ∈ commonHoles (emitterFor shell) index description plan,
    ∀ c ∈ entry.1, isCapital c = true := by
  have names : (commonHoles (emitterFor shell) index description plan).map (·.1) =
      commonNames.map Hole.name := rfl
  intro entry member
  have listed : entry.1 ∈ commonNames.map Hole.name := names ▸ List.mem_map_of_mem member
  obtain ⟨hole, _, same⟩ := List.mem_map.mp listed
  rw [← same]
  exact fun c => hole.isCapital_of_mem_name

theorem lookup_commonHoles {hole : Hole} (member : hole ∈ commonNames) :
    hole.tail = [] ∧ (commonHoles (emitterFor shell) index description plan).lookup hole.name =
      some (holeText index description shell plan hole) := by
  simp only [commonNames, List.mem_cons, List.not_mem_nil, or_false] at member
  rcases member with rfl | rfl | rfl | rfl | rfl <;> exact ⟨rfl, rfl⟩

theorem fill_common {pieces : List Piece} (readable : Legible pieces)
    (common : ∀ hole, .hole hole ∈ pieces → hole ∈ commonNames) :
    fill (commonHoles (emitterFor shell) index description plan) (spell pieces) =
      assemble (holeText index description shell plan) pieces :=
  fill_spell (isCapital_commonHoles index description shell plan) readable fun hole member =>
    lookup_commonHoles index description shell plan (common hole member)

/-- Filling a template without tests and blocks assembles it. -/
theorem fill_template {heads : List PieceHead} {template : List Char}
    (sound : SoundTemplate shell commonNames heads template) :
    fill (commonHoles (emitterFor shell) index description plan) template =
      assembleTemplate index description shell plan template := by
  have filled := fill_common index description shell plan sound.legible sound.known
  rwa [spell_split] at filled

/-- Replacing some holes and then filling the others assembles the pieces. -/
theorem fill_replaced {tests : List Hole} {pieces : List Piece} (readable : Legible pieces)
    (guarded : ∀ hole ∈ tests, Guarded (holeText index description shell plan hole))
    (known : ∀ hole, .hole hole ∈ pieces → hole ∈ commonNames ++ tests) :
    fill (commonHoles (emitterFor shell) index description plan)
        (tests.foldl (fun text hole =>
          replaceMark hole.mark (holeText index description shell plan hole) 0 text)
          (spell pieces)) =
      assemble (holeText index description shell plan) pieces := by
  induction tests generalizing pieces with
  | nil =>
    rw [List.append_nil] at known
    exact fill_common index description shell plan readable known
  | cons hole tests ih =>
    obtain ⟨own, others⟩ := List.forall_mem_cons.mp guarded
    rw [List.foldl_cons, replaceMark_spell hole _ readable,
      ih (readable.substitute own hole) others, assemble_substitute, Function.update_eq_self]
    intro other member
    obtain ⟨listed, apart⟩ := hole_mem_substitute hole pieces member
    have inside := known other listed
    simp only [List.mem_append, List.mem_cons] at inside ⊢
    tauto

theorem helperTemplate_eq :
    (emitterFor shell).helperTemplate description =
      (templates shell).tests.foldl (fun text hole =>
        replaceMark hole.mark (holeText index description shell plan hole) 0 text)
        (templates shell).helpers := by
  have comparison : "@MATCHER@".toList = Hole.comparison.mark := rfl
  have optionTest : "@OPTLIKE@".toList = Hole.optionTest.mark := rfl
  have caseFolding : "@LOWER@\n".toList = Hole.caseFolding.mark := rfl
  -- The replacements are written out first: comparing them with the fold evaluates both.
  cases shell with
  | bash =>
    have tests : (templates .bash).tests = [.comparison] := rfl
    rw [tests, List.foldl_cons, List.foldl_nil, ← comparison]
    rfl
  | zsh =>
    have tests : (templates .zsh).tests = [.comparison] := rfl
    rw [tests, List.foldl_cons, List.foldl_nil, ← comparison]
    rfl
  | fish =>
    have tests : (templates .fish).tests = [.optionTest, .caseFolding] := rfl
    rw [tests, List.foldl_cons, List.foldl_cons, List.foldl_nil, ← optionTest, ← caseFolding]
    rfl

theorem guarded_tests :
    ∀ hole ∈ (templates shell).tests, Guarded (holeText index description shell plan hole) := by
  have comparison (shell : Shell) (matchCase : MatchCase) :
      Guarded (comparisonText shell matchCase) := by
    cases shell <;> cases matchCase <;> rfl
  intro hole member
  cases shell with
  | bash =>
    rw [List.mem_singleton.mp member]
    exact comparison .bash description.matchCase
  | zsh =>
    rw [List.mem_singleton.mp member]
    exact comparison .zsh description.matchCase
  | fish =>
    rcases List.mem_pair.mp member with rfl | rfl
    · exact guarded_optionTest description.marker
    · exact (sound_texts.caseFolding description.matchCase).guarded_text

theorem fill_helpers :
    fill (commonHoles (emitterFor shell) index description plan)
        ((emitterFor shell).helperTemplate description) =
      assembleTemplate index description shell plan (templates shell).helpers := by
  have sound := sound_templates.helpers shell
  have filled := fill_replaced index description shell plan sound.legible
    (guarded_tests index description shell plan) sound.known
  rwa [spell_split, ← helperTemplate_eq] at filled

theorem fill_walk : (description.rules.flatMap fun rule =>
      fill (commonHoles (emitterFor shell) index description plan)
        ((emitterFor shell).walkBlock rule)) =
    mainText index description shell plan .walk := by
  have block : (emitterFor shell).walkBlock = (templates shell).walk := by cases shell <;> rfl
  rw [block]
  exact List.flatMap_congr fun rule _ =>
    fill_template index description shell plan (sound_templates.walk shell rule)

theorem fill_sources : (description.sources.flatMap fun source =>
      fill (commonHoles (emitterFor shell) index description plan)
        ((emitterFor shell).sourceBlock source)) =
    mainText index description shell plan .sources := by
  have block : (emitterFor shell).sourceBlock = (templates shell).sources := by cases shell <;> rfl
  rw [block]
  exact List.flatMap_congr fun source _ =>
    fill_template index description shell plan (sound_templates.sources shell source)

theorem mainText_of_common {hole : Hole} (member : hole ∈ commonNames) :
    mainText index description shell plan hole = holeText index description shell plan hole := by
  cases hole with
  | walk | sources => simp [commonNames] at member
  | function | root | program | separator | marker | comparison | optionTest | caseFolding => rfl

/-- The completion function, with the blocks that were filled already. -/
theorem fill_main :
    fill (commonHoles (emitterFor shell) index description plan ++
        [("WALK".toList, mainText index description shell plan .walk),
          ("SOURCES".toList, mainText index description shell plan .sources)])
        (emitterFor shell).mainTemplate =
      assemble (mainText index description shell plan) (split (templates shell).main) := by
  have template : (emitterFor shell).mainTemplate = (templates shell).main := by
    cases shell <;> rfl
  have sound := sound_templates.main shell
  rw [template, ← spell_split (templates shell).main]
  conv => rhs; rw [spell_split]
  refine fill_spell ?_ sound.legible fun hole member => ?_
  · intro entry listed
    rcases List.mem_append.mp listed with common | block
    · exact isCapital_commonHoles index description shell plan entry common
    · rcases List.mem_pair.mp block with rfl | rfl
      · exact fun _ => Hole.walk.isCapital_of_mem_name
      · exact fun _ => Hole.sources.isCapital_of_mem_name
  · rcases List.mem_append.mp (sound.known hole member) with common | block
    · obtain ⟨bare, found⟩ := lookup_commonHoles index description shell plan common
      refine ⟨bare, ?_⟩
      rw [List.lookup_append, found, mainText_of_common index description shell plan common]
      rfl
    · rcases List.mem_pair.mp block with rfl | rfl <;> exact ⟨rfl, rfl⟩

theorem write_eq_assembledFrom (preamble : Option String) :
    write (emitterFor shell) index description plan preamble =
      assembledFrom index description shell plan preamble := by
  have registration : (emitterFor shell).registrationTemplate = (templates shell).registration := by
    cases shell <;> rfl
  rw [write]
  simp only [fill_helpers, fill_walk, fill_sources, fill_main, registration,
    fill_template _ _ _ _ (sound_templates.registration shell)]
  rfl

end Same

end CommandCompletion.Script
