import CommandCompletion.Proofs.Script.Answers
import CommandCompletion.Proofs.Script.Parts

/-!
# The test for options in fish

In fish the marker of options is found with a regular expression, so it stands in the script
under two layers of escapes: every punctuation character of ASCII has a backslash for the
expression, and every backslash and quote of the result has one for the shell. The test reads
back through both layers as the marker itself, whatever the marker is made of
(`readOptionTest_optionTest`).

Regular expressions belong to the shell. Of their engine only this is asked: a caret matches
at the beginning of a text, and an escaped punctuation character and any character that is
none each match themselves and nothing else (`RegexEngine`). A pattern that is literal then
matches at a place if its text stands there (`matchesAt_iff`), so a word passes the test
exactly if it begins like an option (`option_test_denotes_marker`).
-/

set_option autoImplicit false

namespace CommandCompletion.Script

/-! ## Literal patterns -/

/-- The text that a literal pattern stands for: without the backslashes that escape punctuation
characters. In a literal pattern no such character stands without one. -/
def literalText? : List Char → Option (List Char)
  | [] => some []
  | '\\' :: c :: rest =>
    if Text.isPunctuation c then (literalText? rest).map (c :: ·) else none
  | c :: rest =>
    if Text.isPunctuation c then none else (literalText? rest).map (c :: ·)

theorem literalText?_escaped {c : Char} (punctuation : Text.isPunctuation c = true)
    (rest : List Char) : literalText? ('\\' :: c :: rest) = (literalText? rest).map (c :: ·) := by
  rw [literalText?, if_pos punctuation]

theorem ne_backslash_of_not_isPunctuation {c : Char} (ordinary : Text.isPunctuation c = false) :
    c ≠ '\\' := by
  rintro rfl
  cases ordinary

theorem literalText?_plain {c : Char} (ordinary : Text.isPunctuation c = false)
    (rest : List Char) : literalText? (c :: rest) = (literalText? rest).map (c :: ·) := by
  have apart := ne_backslash_of_not_isPunctuation ordinary
  rw [literalText?]
  · simp [ordinary]
  · intro _ _ same
    exact absurd same apart

/-- Escaping makes a literal pattern that stands for the text. -/
theorem literalText?_regexLiteral (text : List Char) :
    literalText? (regexLiteral text) = some text := by
  induction text with
  | nil => rfl
  | cons c text ih =>
    have split : regexLiteral (c :: text) =
        (if Text.isPunctuation c then ['\\', c] else [c]) ++ regexLiteral text := rfl
    rw [split]
    cases punctuation : Text.isPunctuation c with
    | true =>
      rw [if_pos rfl, List.cons_append, List.singleton_append, literalText?_escaped punctuation, ih,
        Option.map_some]
    | false =>
      rw [if_neg Bool.false_ne_true, List.singleton_append, literalText?_plain punctuation, ih,
        Option.map_some]

/-! ## Regular expressions -/

/-- What is relied on of an engine for regular expressions. It is asked whether a pattern has a
match that begins at a place of a text, given what stands before the place and what stands behind
it. The laws are about patterns whose rest is literal: they have no operator but the caret. -/
structure RegexEngine where
  matchesAt : (pattern before behind : List Char) → Prop
  nothing : ∀ before behind, matchesAt [] before behind
  /-- A caret matches at the beginning of the text and takes nothing of it. -/
  caret : ∀ pattern before behind, (literalText? pattern).isSome = true →
    (matchesAt ('^' :: pattern) before behind ↔ before = [] ∧ matchesAt pattern before behind)
  escaped : ∀ c pattern before behind, Text.isPunctuation c = true →
    (literalText? pattern).isSome = true →
      (matchesAt ('\\' :: c :: pattern) before behind ↔
        ∃ further, behind = c :: further ∧ matchesAt pattern (before ++ [c]) further)
  plain : ∀ c pattern before behind, Text.isPunctuation c = false →
    (literalText? pattern).isSome = true →
      (matchesAt (c :: pattern) before behind ↔
        ∃ further, behind = c :: further ∧ matchesAt pattern (before ++ [c]) further)

namespace RegexEngine

variable (engine : RegexEngine)

/-- Whether a pattern has a match somewhere in a text. -/
def Finds (pattern text : List Char) : Prop :=
  ∃ before behind, text = before ++ behind ∧ engine.matchesAt pattern before behind

/-- A literal pattern matches where its text stands. -/
theorem matchesAt_iff {pattern text : List Char} (literal : literalText? pattern = some text)
    (before behind : List Char) : engine.matchesAt pattern before behind ↔ text <+: behind := by
  induction pattern using literalText?.induct generalizing text before behind with
  | case1 =>
    cases literal
    exact ⟨fun _ => List.nil_prefix, fun _ => engine.nothing before behind⟩
  | case2 c rest punctuation ih =>
    rw [literalText?_escaped punctuation] at literal
    obtain ⟨text, read, rfl⟩ := Option.map_eq_some_iff.mp literal
    rw [engine.escaped c rest before behind punctuation (read ▸ rfl)]
    simp only [ih read, List.cons_prefix_iff]
  | case3 c rest ordinary =>
    rw [literalText?, if_neg ordinary] at literal
    cases literal
  | case4 c rest other punctuation =>
    rw [literalText?, if_pos punctuation] at literal
    · cases literal
    · exact other
  | case5 c rest other ordinary ih =>
    rw [literalText?_plain (Bool.not_eq_true _ ▸ ordinary)] at literal
    obtain ⟨text, read, rfl⟩ := Option.map_eq_some_iff.mp literal
    rw [engine.plain c rest before behind (Bool.not_eq_true _ ▸ ordinary) (read ▸ rfl)]
    simp only [ih read, List.cons_prefix_iff]

/-- Behind a caret a literal pattern is found in the texts that begin with its text. -/
theorem finds_caret_iff {pattern text : List Char} (literal : literalText? pattern = some text)
    (word : List Char) : engine.Finds ('^' :: pattern) word ↔ text <+: word := by
  have isLiteral : (literalText? pattern).isSome = true := literal ▸ rfl
  constructor
  · rintro ⟨before, behind, rfl, found⟩
    obtain ⟨rfl, found⟩ := (engine.caret pattern before behind isLiteral).mp found
    exact (engine.matchesAt_iff literal [] behind).mp found
  · intro begins
    exact ⟨[], word, rfl, (engine.caret pattern [] word isLiteral).mpr
      ⟨rfl, (engine.matchesAt_iff literal [] word).mpr begins⟩⟩

/-- An engine that knows no other patterns than literal ones and the caret. -/
def matchesLiterally : (pattern before behind : List Char) → Prop
  | [], _, _ => True
  | '^' :: pattern, before, behind => before = [] ∧ matchesLiterally pattern before behind
  | '\\' :: c :: pattern, before, behind =>
    ∃ further, behind = c :: further ∧ matchesLiterally pattern (before ++ [c]) further
  | c :: pattern, before, behind =>
    ∃ further, behind = c :: further ∧ matchesLiterally pattern (before ++ [c]) further

theorem matchesLiterally_plain {c : Char} (ordinary : Text.isPunctuation c = false)
    (pattern before behind : List Char) :
    matchesLiterally (c :: pattern) before behind ↔
      ∃ further, behind = c :: further ∧ matchesLiterally pattern (before ++ [c]) further := by
  have apart := ne_backslash_of_not_isPunctuation ordinary
  rw [matchesLiterally]
  · rintro rfl
    cases ordinary
  · intro _ _ same
    exact absurd same apart

/-- The engine for literal patterns. -/
def forLiterals : RegexEngine where
  matchesAt := matchesLiterally
  nothing := fun _ _ => trivial
  caret := fun _ _ _ _ => Iff.rfl
  escaped := fun _ _ _ _ _ _ => Iff.rfl
  plain := fun _ pattern before behind ordinary _ =>
    matchesLiterally_plain ordinary pattern before behind

end RegexEngine

/-! ## The test -/

/-- What a test for options does with a word. -/
inductive OptionTest where
  /-- It fails, whatever the word is. -/
  | never
  /-- It looks for a pattern in the word. -/
  | finds (pattern : List Char)
  deriving DecidableEq

/-- The test that the body of a function stands for, the pattern being read as a word of fish. -/
def readOptionTest (body : List Char) : Option OptionTest :=
  if body = "    return 1".toList then some .never
  else do
    let text ← skip "    string match -qr -- ".toList body
    let (pattern, text) ← readWord .fish text
    if text = " \"$word\"".toList then some (.finds pattern) else none

/-- Whether a word passes a test. -/
def OptionTest.Passes (engine : RegexEngine) (word : String) : OptionTest → Prop
  | .never => False
  | .finds pattern => engine.Finds pattern word.toList

/-- The test for a marker: a pattern for its text behind a caret, if there is a marker. -/
def testFor (marker : String) : OptionTest :=
  if marker.isEmpty then .never else .finds ('^' :: regexLiteral marker.toList)

/-- The body that is written for a marker reads back as the test for it. -/
theorem readOptionTest_optionTest (marker : String) :
    readOptionTest (Fish.optionTest marker) = some (testFor marker) := by
  unfold Fish.optionTest testFor
  by_cases empty : marker.isEmpty = true
  · rw [if_pos empty, if_pos empty, readOptionTest, if_pos rfl]
  · have quoted := readFish_fishQuote ('^' :: regexLiteral marker.toList) " \"$word\"".toList
    have ends : readFish .plain " \"$word\"".toList = some ([], " \"$word\"".toList) := rfl
    rw [ends, prepend_some, List.append_nil] at quoted
    rw [if_neg empty, if_neg empty, readOptionTest, List.append_assoc, if_neg]
    · rw [skip_append, Option.bind_eq_bind, Option.bind_some]
      change (readFish .plain _).bind _ = _
      rw [quoted, Option.bind_some]
      exact if_pos rfl
    · intro same
      cases same

/-- The test for a marker passes the words that begin like an option. -/
theorem testFor_passes_iff (engine : RegexEngine) (description : Description) (word : String) :
    (testFor description.marker).Passes engine word ↔ description.looksLikeOption word = true := by
  rw [testFor, Description.looksLikeOption, Text.startsWith]
  by_cases empty : description.marker.isEmpty = true
  · simp [empty, OptionTest.Passes]
  · simp [empty, OptionTest.Passes, engine.finds_caret_iff (literalText?_regexLiteral _)]

/-! ## Where the test stands -/

/-- The helper functions of fish begin with the test for options. -/
theorem exists_behind_test (index : Index) (description : Description) (plan : Plan) :
    ∃ behind, assembleTemplate index description .fish plan (templates .fish).helpers =
      "function ".toList ++ tableName plan.function "optlike" ++
        " --argument-names word\n".toList ++ Fish.optionTest description.marker ++
        "\nend\n".toList ++ behind := by
  obtain ⟨rest, pieces⟩ := sound_templates.optionTest
  refine ⟨assemble (holeText index description .fish plan) rest, ?_⟩
  rw [assembleTemplate, ← pieces]
  simp only [optionTestPieces, assemble_append, assemble_hole, assemble_literal, tableName, List.append_assoc]
  rfl

/-- Right behind the tables of a script for fish stands the function that tests for options. -/
theorem exists_test_in_script (index : Index) (description : Description)
    (options : ScriptOptions) :
    ∃ behind, (render index description .fish options).toList =
      firstPart .fish (options.program.getD index.root) ++ tableSection index .fish options ++
        ['\n'] ++ "function ".toList ++
        tableName (Plan.functionStem .fish (options.program.getD index.root)).toList "optlike" ++
        " --argument-names word\n".toList ++ Fish.optionTest description.marker ++
        "\nend\n".toList ++ behind := by
  obtain ⟨rest, helpers⟩ := exists_behind_test index description
    (Plan.of index .fish options.program options.bindings)
  have script := render_eq_parts index description .fish options
  rw [ownCode, codeBehind, helpers] at script
  simp only [List.append_assoc] at script ⊢
  exact ⟨_, script⟩

/-- **The test for options denotes the marker.** Right behind the tables of a script for fish stands
the function that tests for options. Its body is a test that always fails if there is no marker, and
otherwise looks for a pattern that consists of a caret and of a literal pattern for the marker.
Whatever engine it is that finds patterns, a word passes exactly if it begins like an option. -/
theorem option_test_denotes_marker (index : Index) (description : Description)
    (options : ScriptOptions) :
    ∃ body behind test,
      (render index description .fish options).toList =
        firstPart .fish (options.program.getD index.root) ++ tableSection index .fish options ++
          ['\n'] ++ "function ".toList ++
          tableName (Plan.functionStem .fish (options.program.getD index.root)).toList "optlike" ++
          " --argument-names word\n".toList ++ body ++ "\nend\n".toList ++ behind ∧
        readOptionTest body = some test ∧
        (description.marker = "" → test = .never) ∧
        (description.marker ≠ "" → ∃ pattern, test = .finds ('^' :: pattern) ∧
          literalText? pattern = some description.marker.toList) ∧
        ∀ (engine : RegexEngine) (word : String),
          test.Passes engine word ↔ description.looksLikeOption word = true := by
  obtain ⟨behind, script⟩ := exists_test_in_script index description options
  refine ⟨Fish.optionTest description.marker, behind, testFor description.marker, script,
    readOptionTest_optionTest description.marker, ?_, ?_, ?_⟩
  · intro empty
    rw [testFor, empty]
    rfl
  · intro nonempty
    refine ⟨regexLiteral description.marker.toList, ?_, literalText?_regexLiteral _⟩
    rw [testFor, if_neg (mt String.isEmpty_iff.mp nonempty)]
  · intro engine word
    exact testFor_passes_iff engine description word

/-- A marker of quotes, backslashes, at signs and characters with a meaning in patterns. -/
theorem option_test_denotes_marker_strangeMarker : ∃ test,
    (∃ pattern, test = OptionTest.finds ('^' :: pattern) ∧
      literalText? pattern = some "-'\\@.*é".toList) ∧
      test.Passes .forLiterals "-'\\@.*éx" ∧ ¬test.Passes .forLiterals "-'\\@..é" := by
  obtain ⟨index, built⟩ := sampleProgram_accepted
  obtain ⟨_, _, test, _, _, _, marked, passes⟩ :=
    option_test_denotes_marker index { marker := "-'\\@.*é" } {}
  refine ⟨test, marked (by decide), ?_, ?_⟩
  · exact (passes .forLiterals _).mpr (by decide)
  · intro passed
    have begins := (passes .forLiterals _).mp passed
    revert begins
    decide

end CommandCompletion.Script
