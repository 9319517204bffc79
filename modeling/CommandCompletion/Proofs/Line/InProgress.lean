import CommandCompletion.Proofs.Line.Quoted
import Mathlib.Data.List.Induction

/-!
# The word in progress

Which word of a line is being typed can be seen from what one more letter does: either it
goes on with the last word, or it begins another. The machine that cuts lines into words
decides this by the place where it stands at the end of the line. In a word the letter goes
on with it, between words it begins another, and in a comment it is lost
(`Line.words?_letter`).

A typed line asks only for the last character instead. Where a letter would begin another
word that character is a separator, so this is recognized. Where a letter would go on with
the last word, the word is taken as the one being typed exactly if the line does not end in
a blank (`word_in_progress_iff`): a blank that belongs to the word, because it is escaped or
because it is none of the three separators, is taken for the end of the word.
-/

set_option autoImplicit false

namespace CommandCompletion

namespace Line

/-- The words of a line, unless it ends inside quotes or after a backslash. -/
def split? (line : String) : Option (List String) :=
  (words? line.toList).map fun words => words.map String.ofList

/-! ## Where the machine stands -/

namespace Reading

/-- Between words and in a comment no word is open. -/
def Tidy (reading : Reading) : Prop :=
  reading.place = .between ∨ reading.place = .comment → reading.pending = []

theorem stepWord_tidy (reading : Reading) (c : Char) : (reading.stepWord c).Tidy := by
  unfold stepWord
  intro outside
  split_ifs at outside ⊢ with double single escape separator
  · simp at outside
  · simp at outside
  · simp at outside
  · rfl
  · simp at outside

theorem step_tidy {reading : Reading} (tidy : reading.Tidy) (c : Char) :
    (reading.step c).Tidy := by
  unfold step
  cases place : reading.place with
  | between =>
    have closed : reading.pending = [] := tidy (.inl place)
    simp only
    split_ifs with separator comment
    · exact tidy
    · exact fun _ => closed
    · exact stepWord_tidy reading c
  | comment =>
    have closed : reading.pending = [] := tidy (.inr place)
    simp only
    split_ifs with newline
    · exact fun _ => closed
    · exact tidy
  | word => exact stepWord_tidy reading c
  | escape | single | double | doubleEscape =>
    -- Behind a backslash and inside quotes the machine stays in the word.
    intro outside
    revert outside
    simp only
    split_ifs <;> simp [push, place]

theorem isSeparator_of_stepWord {reading : Reading} {c : Char}
    (between : (reading.stepWord c).place = .between) : isSeparator c = true := by
  unfold stepWord at between
  split_ifs at between with _ _ _ separator
  exact separator

/-- Only behind a separator does the machine stand between words. -/
theorem isSeparator_of_between {reading : Reading} {c : Char}
    (between : (reading.step c).place = .between) : isSeparator c = true := by
  unfold step at between
  cases place : reading.place with
  | between =>
    simp only [place] at between
    split_ifs at between with separator
    · exact separator
    · exact isSeparator_of_stepWord between
  | comment =>
    simp only [place] at between
    split_ifs at between with newline
    · rw [newline]
      rfl
    · cases place.symm.trans between
  | word =>
    simp only [place] at between
    exact isSeparator_of_stepWord between
  | escape | single | double | doubleEscape =>
    simp only [place] at between
    split_ifs at between
    all_goals simp [push, place] at between

end Reading

theorem isBlank_of_isSeparator {c : Char} (separator : Reading.isSeparator c = true) :
    Text.isBlank c = true := by
  simp only [Reading.isSeparator, Bool.or_eq_true, beq_iff_eq] at separator
  rcases separator with (rfl | rfl) | rfl <;> rfl

/-- The machine behind one more character. -/
theorem foldl_step_concat (line : List Char) (c : Char) :
    (line ++ [c]).foldl Reading.step {} = (line.foldl Reading.step {}).step c := by
  rw [List.foldl_append, List.foldl_cons, List.foldl_nil]

theorem tidy_foldl_step (line : List Char) : (line.foldl Reading.step {}).Tidy := by
  induction line using List.reverseRecOn with
  | nil => exact fun _ => rfl
  | append_singleton line c ih =>
    rw [foldl_step_concat]
    exact Reading.step_tidy ih c

/-- A line at whose end the machine stands between words is empty or ends in a blank. -/
theorem endsInBlank_of_between {line : List Char} (nonempty : line ≠ [])
    (between : (line.foldl Reading.step {}).place = .between) : endsInBlank line = true := by
  obtain ⟨before, last, rfl⟩ := (List.eq_nil_or_concat' line).resolve_left nonempty
  rw [foldl_step_concat] at between
  rw [endsInBlank, List.getLast?_concat]
  exact isBlank_of_isSeparator (Reading.isSeparator_of_between between)

/-! ## One more letter -/

/-- What one more letter does to the words of a line. -/
inductive Continued (line : List Char) : List (List Char) → Prop where
  /-- It goes on with the last word. -/
  | goesOn (before : List (List Char)) (last : List Char)
      (letter : words? (line ++ ['x']) = some (before ++ [last ++ ['x']])) :
      Continued line (before ++ [last])
  /-- It begins another word. -/
  | begins {words : List (List Char)} (blank : line ≠ [] → endsInBlank line = true)
      (letter : words? (line ++ ['x']) = some (words ++ [['x']])) : Continued line words
  /-- It is lost in a comment. -/
  | lost {words : List (List Char)} (letter : words? (line ++ ['x']) = some words) :
      Continued line words

theorem words?_letter {line : List Char} {words : List (List Char)}
    (split : words? line = some words) : Continued line words := by
  have tidy := tidy_foldl_step line
  have between : line ≠ [] → (line.foldl Reading.step {}).place = .between →
      endsInBlank line = true := endsInBlank_of_between
  have letter : words? (line ++ ['x']) = ((line.foldl Reading.step {}).step 'x').result := by
    rw [words?, foldl_step_concat]
  rw [words?] at split
  generalize line.foldl Reading.step {} = reading at tidy between letter split
  obtain ⟨place, pending, complete⟩ := reading
  cases place with
  | between =>
    have closed : pending = [] := tidy (.inl rfl)
    cases split
    refine .begins (fun nonempty => between nonempty rfl) (letter.trans ?_)
    rw [closed]
    simp [Reading.step, Reading.stepWord, Reading.push, Reading.result, Reading.finish,
      Reading.isSeparator]
  | comment =>
    cases split
    exact .lost (letter.trans rfl)
  | word =>
    have last : words = complete.reverse ++ [pending.reverse] := by
      simpa [Reading.result, Reading.finish] using split.symm
    rw [last]
    refine .goesOn _ _ (letter.trans ?_)
    simp [Reading.step, Reading.stepWord, Reading.push, Reading.result, Reading.finish,
      Reading.isSeparator]
  | escape | single | double | doubleEscape => cases split

/-- Where a letter makes the words of a line more, the line ends in a blank. -/
theorem endsInBlank_of_begun {line : List Char} {words more : List (List Char)}
    (split : words? line = some words) (nonempty : words ≠ [])
    (letter : words? (line ++ ['x']) = some more) (longer : words.length < more.length) :
    endsInBlank line = true := by
  cases words?_letter split with
  | goesOn before last extended =>
    cases extended.symm.trans letter
    simp at longer
  | begins blank _ =>
    refine blank fun empty => nonempty ?_
    subst empty
    cases split
    rfl
  | lost same =>
    cases same.symm.trans letter
    exact absurd longer (Nat.lt_irrefl _)

theorem split?_eq_some_iff {line : String} {words : List String} :
    split? line = some words ↔ words? line.toList = some (words.map String.toList) := by
  rw [split?, Option.map_eq_some_iff]
  constructor
  · rintro ⟨read, found, rfl⟩
    simpa [Function.comp_def] using found
  · intro found
    exact ⟨_, found, by simp [Function.comp_def]⟩

end Line

/-- What is typed in a line that splits, by its last character. -/
theorem TypedLine.ofLine_of_split {line program last : String} {words : List String}
    (split : Line.split? line = some (program :: (words ++ [last]))) :
    TypedLine.ofLine line line.utf8ByteSize =
      if Line.endsInBlank line.toList then ⟨words ++ [last], ""⟩ else ⟨words, last⟩ := by
  rw [TypedLine.ofLine_utf8ByteSize, TypedLine.ofCharacters, Line.splitWords,
    Line.split?_eq_some_iff.mp split]
  simp [TypedLine.ofWords, Function.comp_def]

/-- **Which word is being typed.** Let a line split into at least two words. If one more letter
would begin another word, all words of the line are complete. If it would go on with the last word,
then that word is the one being typed exactly if the line does not end in a blank; if it does, the
word counts as complete. -/
theorem word_in_progress_iff {line program last : String} {words : List String}
    (split : Line.split? line = some (program :: (words ++ [last]))) :
    (Line.split? (line ++ "x") = some (program :: (words ++ [last ++ "x"])) →
        (TypedLine.ofLine line line.utf8ByteSize = ⟨words, last⟩ ↔
          Line.endsInBlank line.toList = false) ∧
        (Line.endsInBlank line.toList = true →
          TypedLine.ofLine line line.utf8ByteSize = ⟨words ++ [last], ""⟩)) ∧
      (Line.split? (line ++ "x") = some (program :: (words ++ [last, "x"])) →
        TypedLine.ofLine line line.utf8ByteSize = ⟨words ++ [last], ""⟩) := by
  have typed := TypedLine.ofLine_of_split split
  constructor
  · intro _
    cases blank : Line.endsInBlank line.toList with
    | false =>
      rw [blank] at typed
      simp [typed]
    | true =>
      rw [blank] at typed
      simp [typed]
  · intro begins
    -- Where a letter begins a word, the machine stands between words, so behind a separator.
    have letter : Line.words? (line.toList ++ ['x']) =
        some ((program :: (words ++ [last, "x"])).map String.toList) := by
      simpa using Line.split?_eq_some_iff.mp begins
    have blank := Line.endsInBlank_of_begun (Line.split?_eq_some_iff.mp split) (by simp) letter
      (by simp)
    rw [typed, if_pos blank]

theorem word_in_progress_iff_quotedBlanks :
    TypedLine.ofLine "prog build 'two words'" "prog build 'two words'".utf8ByteSize =
        ⟨["build"], "two words"⟩ ∧
      TypedLine.ofLine "prog build " "prog build ".utf8ByteSize = ⟨["build"], ""⟩ := by
  have quoted : Line.split? "prog build 'two words'" = some ["prog", "build", "two words"] := by
    decide +kernel
  have letter : Line.split? ("prog build 'two words'" ++ "x") =
      some ["prog", "build", "two words" ++ "x"] := by
    decide +kernel
  have begun : Line.split? "prog build " = some ["prog", "build"] := by decide +kernel
  have other : Line.split? ("prog build " ++ "x") = some ["prog", "build", "x"] := by decide +kernel
  constructor
  · have extended := (@word_in_progress_iff _ "prog" "two words" ["build"] quoted).1 letter
    exact extended.1.mpr (by decide +kernel)
  · exact (@word_in_progress_iff _ "prog" "build" [] begun).2 other

/-- An escaped blank at the end of a line goes on with the word, and yet the word counts as
complete. -/
theorem escaped_blank_completes_word :
    Line.split? "prog build\\ " = some ["prog", "build "] ∧
      Line.split? ("prog build\\ " ++ "x") = some ["prog", "build " ++ "x"] ∧
      TypedLine.ofLine "prog build\\ " "prog build\\ ".utf8ByteSize = ⟨["build "], ""⟩ ∧
      TypedLine.ofLine "prog build\\ " "prog build\\ ".utf8ByteSize ≠ ⟨[], "build "⟩ := by
  decide +kernel

end CommandCompletion
