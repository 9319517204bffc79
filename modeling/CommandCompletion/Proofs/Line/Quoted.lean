import CommandCompletion.Program
import CommandCompletion.Proofs.Line.Cursor
import CommandCompletion.Script.Quoting
import Mathlib.Data.List.Basic

/-!
# Lines of quoted words

Any list of words can be written as one command line: each word between single quotes, with
single spaces between the words (`Line.quoted`). The machine that cuts lines into words takes
a quoted word as it is, whatever it holds, and stands in that word behind its last quote
(`Line.Reading.foldl_step_posixQuote`). The next space completes it. So a line of quoted words
splits into these words (`Line.words?_quoted`); its last character is a quote, so the last word
is the one being typed, and one more space begins another word.

What is completed on the line is therefore what is completed on the words
(`quoted_line_completes_like_words`).
-/

set_option autoImplicit false

namespace CommandCompletion

namespace Line

/-- The line of some words: each word between single quotes, with single spaces between them. -/
def quoted (words : List String) : List Char :=
  Script.joinWith [' '] (words.map fun word => Script.posixQuote word.toList)

theorem quoted_singleton (word : String) : quoted [word] = Script.posixQuote word.toList := rfl

theorem quoted_cons_cons (first second : String) (rest : List String) :
    quoted (first :: second :: rest) =
      Script.posixQuote first.toList ++ [' '] ++ quoted (second :: rest) := rfl

/-! ## The machine on quoted words -/

namespace Reading

/-- Between single quotes a text is taken as it is, its own quotes being read outside of them. -/
theorem foldl_step_single (text pending : List Char) (complete : List (List Char)) :
    (text.flatMap fun c => if c = '\'' then ['\'', '\\', '\'', '\''] else [c]).foldl step
        ⟨.single, pending, complete⟩ = ⟨.single, text.reverse ++ pending, complete⟩ := by
  induction text generalizing pending with
  | nil => rfl
  | cons c text ih =>
    have char : (if c = '\'' then ['\'', '\\', '\'', '\''] else [c]).foldl step
        ⟨.single, pending, complete⟩ = ⟨.single, c :: pending, complete⟩ := by
      -- A quote closes the quotes, is read escaped outside of them, and opens them again.
      by_cases quote : c = '\''
      · subst quote
        rfl
      · simp [step, push, quote]
    rw [List.flatMap_cons, List.foldl_append, char, ih, List.reverse_cons, List.append_assoc]
    rfl

/-- A quoted text becomes the open word. -/
theorem foldl_step_posixQuote (text : List Char) (complete : List (List Char)) :
    (Script.posixQuote text).foldl step ⟨.between, [], complete⟩ =
      ⟨.word, text.reverse, complete⟩ := by
  have inside := foldl_step_single text [] complete
  rw [List.append_nil] at inside
  rw [Script.posixQuote, List.foldl_append]
  exact congrArg (step · '\'') inside

/-- A space completes the open word. -/
theorem step_space {reading : Reading} (inside : reading.place = .word) :
    reading.step ' ' = reading.finish := by
  simp [step, inside, stepWord, isSeparator]

/-- After a line of quoted words the last one is open, and all are complete as soon as it is. -/
theorem foldl_step_quoted (word : String) (words : List String) (complete : List (List Char)) :
    let reading := (quoted (word :: words)).foldl step ⟨.between, [], complete⟩
    reading.place = .word ∧ reading.finish.complete =
      ((word :: words).map String.toList).reverse ++ complete := by
  induction words generalizing word complete with
  | nil =>
    rw [quoted_singleton, foldl_step_posixQuote]
    simp [finish]
  | cons second words ih =>
    have first := foldl_step_posixQuote word.toList complete
    have finished : finish ⟨.word, word.toList.reverse, complete⟩ =
        ⟨.between, [], word.toList :: complete⟩ := by
      simp [finish]
    rw [quoted_cons_cons, List.foldl_append, List.foldl_append, first, List.foldl_cons,
      List.foldl_nil, step_space rfl, finished]
    obtain ⟨inside, all⟩ := ih second (word.toList :: complete)
    refine ⟨inside, ?_⟩
    rw [all]
    simp

end Reading

/-- A line of quoted words splits into the words, and so does the line with a space behind it. -/
theorem words?_quoted (word : String) (words : List String) :
    words? (quoted (word :: words)) = some ((word :: words).map String.toList) ∧
      words? (quoted (word :: words) ++ [' ']) = some ((word :: words).map String.toList) := by
  obtain ⟨inside, all⟩ := Reading.foldl_step_quoted word words []
  rw [List.append_nil] at all
  constructor
  · rw [words?, Reading.result, inside]
    simp [all]
  · have finished : (Reading.finish ((quoted (word :: words)).foldl Reading.step {})).result =
        some (Reading.finish ((quoted (word :: words)).foldl Reading.step {})).complete.reverse :=
      rfl
    rw [words?, List.foldl_append, List.foldl_cons, List.foldl_nil, Reading.step_space inside,
      finished, all, List.reverse_reverse]

/-- A line of quoted words ends in a quote. -/
theorem getLast?_quoted (word : String) (words : List String) :
    (quoted (word :: words)).getLast? = some '\'' := by
  induction words generalizing word with
  | nil =>
    rw [quoted_singleton, Script.posixQuote, List.getLast?_append]
    rfl
  | cons second words ih => rw [quoted_cons_cons, List.getLast?_append, ih, Option.some_or]

end Line

namespace TypedLine

/-- In a line of quoted words the last word is being typed. -/
theorem ofCharacters_quoted (program : String) (words : List String) :
    ofCharacters (Line.quoted (program :: words)) = ofWords words := by
  have unblank : Line.endsInBlank (Line.quoted (program :: words)) = false := by
    rw [Line.endsInBlank, Line.getLast?_quoted]
    decide
  rw [ofCharacters, Line.splitWords, (Line.words?_quoted program words).1, unblank]
  simp

/-- With a space behind a line of quoted words, another word begins. -/
theorem ofCharacters_quoted_space (program : String) (words : List String) :
    ofCharacters (Line.quoted (program :: words) ++ [' ']) = ⟨words, ""⟩ := by
  have blank : Line.endsInBlank (Line.quoted (program :: words) ++ [' ']) = true := by
    rw [Line.endsInBlank, List.getLast?_append]
    rfl
  rw [ofCharacters, Line.splitWords, (Line.words?_quoted program words).2, blank]
  simp

end TypedLine

/-- **Quoting words into a line changes nothing.** Let a line hold the name of a program and any
words, all quoted and with single spaces between them. With the cursor at its end, the words of the
line are read as these words are by themselves, the last one being typed; with one more space all of
them are complete. So what is completed on the line is what is completed on the words, and the
program prints the same for the one as for the other. -/
theorem quoted_line_completes_like_words (program : String) (words : List String) :
    let line := String.ofList (Line.quoted (program :: words))
    TypedLine.ofLine line line.utf8ByteSize = TypedLine.ofWords words ∧
      TypedLine.ofLine (line ++ " ") (line ++ " ").utf8ByteSize = ⟨words, ""⟩ ∧
      (∀ index description registry,
        (TypedLine.ofLine line line.utf8ByteSize).complete index description registry =
          complete index description registry words.dropLast (words.getLast?.getD "")) ∧
      ∀ (m : Type → Type) [Monad m] [FileStore m] (settings : Settings) (specification : String)
        (ignoreCase : Bool),
        (Program.candidates settings specification (TypedLine.ofWholeLine line) ignoreCase :
            ExceptT Failure m (List String)) =
          Program.candidates settings specification (TypedLine.ofWords words) ignoreCase ∧
        ∀ (request : Request) (ignored : List String),
          (Program.perform settings { request with
              task := .complete specification (some line) ignoreCase ignored } :
                ExceptT Failure m String) =
            Program.perform settings { request with
              task := .complete specification none ignoreCase words } := by
  intro line
  have asWords : TypedLine.ofLine line line.utf8ByteSize = TypedLine.ofWords words := by
    rw [TypedLine.ofLine_utf8ByteSize, String.toList_ofList]
    exact TypedLine.ofCharacters_quoted program words
  have whole : TypedLine.ofWholeLine line = TypedLine.ofWords words := asWords
  refine ⟨asWords, ?_, ?_, ?_⟩
  · rw [TypedLine.ofLine_utf8ByteSize, String.toList_append, String.toList_ofList]
    exact TypedLine.ofCharacters_quoted_space program words
  · intro index description registry
    rw [asWords]
    rfl
  · intro m _ _ settings specification ignoreCase
    refine ⟨by rw [whole], fun request ignored => ?_⟩
    simp only [Program.perform, Option.elim_some, Option.elim_none, whole]

end CommandCompletion
