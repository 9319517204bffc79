import CommandCompletion.Script
import Mathlib.Data.List.Basic

/-!
# Quoted words and their readers

The shells read words by rules of their own, which are written down here apart from the
quoting. In bash and zsh a word is made of texts between single quotes, of quotes with a
backslash outside them, and of texts between a dollar sign with a quote and a quote, in which
a backslash stands before a backslash, a quote or an `n` for the end of a line. In fish a
word is made of texts between single quotes, in which a backslash stands before a backslash
or a quote, and of a backslash with an `n` outside them. What is not part of a word ends it.

A quoted text reads back as that text, and a quoted list as its items on lines of their own,
whatever stands behind the word (`readWord_quote`, `readWord_quoteLines`): reading goes on
there as if the word began behind the quoted text. So no text ends its quotes early.
-/

set_option autoImplicit false

namespace CommandCompletion.Script

/-! ## Readers -/

/-- What was read so far, put before what is read further on. -/
def prepend (text : List Char) (further : Option (List Char × List Char)) :
    Option (List Char × List Char) :=
  further.map fun read => (text ++ read.1, read.2)

@[simp] theorem prepend_some (text word rest : List Char) :
    prepend text (some (word, rest)) = some (text ++ word, rest) := rfl

@[simp] theorem prepend_nil (further : Option (List Char × List Char)) :
    prepend [] further = further := by
  simp [prepend]

theorem prepend_prepend (first second : List Char) (further : Option (List Char × List Char)) :
    prepend first (prepend second further) = prepend (first ++ second) further := by
  simp [prepend, Function.comp_def]

/-- Where a reader stands in a word of bash or zsh. -/
inductive PosixPart where
  /-- Outside quotes. -/
  | plain
  /-- Between single quotes. -/
  | single
  /-- Between a dollar sign with a quote and a quote. -/
  | escaped

/-- The rest of a word of bash or zsh, and what follows the word. -/
def readPosix : PosixPart → List Char → Option (List Char × List Char)
  | .plain, '\'' :: rest => readPosix .single rest
  | .plain, '$' :: '\'' :: rest => readPosix .escaped rest
  | .plain, '\\' :: '\'' :: rest => prepend ['\''] (readPosix .plain rest)
  | .plain, rest => some ([], rest)
  | .single, [] => none
  | .single, '\'' :: rest => readPosix .plain rest
  | .single, c :: rest => prepend [c] (readPosix .single rest)
  | .escaped, [] => none
  | .escaped, '\'' :: rest => readPosix .plain rest
  | .escaped, '\\' :: '\\' :: rest => prepend ['\\'] (readPosix .escaped rest)
  | .escaped, '\\' :: '\'' :: rest => prepend ['\''] (readPosix .escaped rest)
  | .escaped, '\\' :: 'n' :: rest => prepend ['\n'] (readPosix .escaped rest)
  | .escaped, '\\' :: _ => none
  | .escaped, c :: rest => prepend [c] (readPosix .escaped rest)

/-- Where a reader stands in a word of fish. -/
inductive FishPart where
  /-- Outside quotes. -/
  | plain
  /-- Between single quotes. -/
  | single

/-- The rest of a word of fish, and what follows the word. -/
def readFish : FishPart → List Char → Option (List Char × List Char)
  | .plain, '\'' :: rest => readFish .single rest
  | .plain, '\\' :: 'n' :: rest => prepend ['\n'] (readFish .plain rest)
  | .plain, rest => some ([], rest)
  | .single, [] => none
  | .single, '\'' :: rest => readFish .plain rest
  | .single, '\\' :: '\\' :: rest => prepend ['\\'] (readFish .single rest)
  | .single, '\\' :: '\'' :: rest => prepend ['\''] (readFish .single rest)
  | .single, c :: rest => prepend [c] (readFish .single rest)

/-- The word of a shell at the beginning of a text, and what follows it. -/
def readWord : Shell → List Char → Option (List Char × List Char)
  | .bash, text | .zsh, text => readPosix .plain text
  | .fish, text => readFish .plain text

/-! ## Steps of a reader -/

section Steps

variable (rest : List Char)

@[simp] theorem readPosix_plain_quote :
    readPosix .plain ('\'' :: rest) = readPosix .single rest := rfl

@[simp] theorem readPosix_plain_dollar :
    readPosix .plain ('$' :: '\'' :: rest) = readPosix .escaped rest := rfl

@[simp] theorem readPosix_plain_backslash :
    readPosix .plain ('\\' :: '\'' :: rest) = prepend ['\''] (readPosix .plain rest) := rfl

@[simp] theorem readPosix_single_quote :
    readPosix .single ('\'' :: rest) = readPosix .plain rest := rfl

@[simp] theorem readPosix_escaped_quote :
    readPosix .escaped ('\'' :: rest) = readPosix .plain rest := rfl

@[simp] theorem readPosix_escaped_newline :
    readPosix .escaped ('\\' :: 'n' :: rest) = prepend ['\n'] (readPosix .escaped rest) := rfl

@[simp] theorem readFish_plain_quote :
    readFish .plain ('\'' :: rest) = readFish .single rest := rfl

@[simp] theorem readFish_plain_newline :
    readFish .plain ('\\' :: 'n' :: rest) = prepend ['\n'] (readFish .plain rest) := rfl

@[simp] theorem readFish_single_quote :
    readFish .single ('\'' :: rest) = readFish .plain rest := rfl

theorem readPosix_single_cons {c : Char} (notQuote : c ≠ '\'') :
    readPosix .single (c :: rest) = prepend [c] (readPosix .single rest) := by
  rw [readPosix]
  exact notQuote

/-- Between quotes with escapes, a backslash or quote stands behind a backslash. -/
theorem readPosix_escaped_char (c : Char) :
    readPosix .escaped (backslashed [c] ++ rest) = prepend [c] (readPosix .escaped rest) := by
  by_cases special : c = '\\' ∨ c = '\''
  · rcases special with rfl | rfl <;> rfl
  · obtain ⟨notBackslash, notQuote⟩ := not_or.mp special
    have alone : backslashed [c] = [c] := by simp [backslashed, notBackslash, notQuote]
    rw [alone, List.singleton_append, readPosix]
    · exact notQuote
    · exact fun _ same _ => notBackslash same
    · exact fun _ same _ => notBackslash same
    · exact fun _ same _ => notBackslash same
    · exact notBackslash

/-- Between single quotes of fish, a backslash or quote stands behind a backslash. -/
theorem readFish_single_char (c : Char) :
    readFish .single (backslashed [c] ++ rest) = prepend [c] (readFish .single rest) := by
  by_cases special : c = '\\' ∨ c = '\''
  · rcases special with rfl | rfl <;> rfl
  · obtain ⟨notBackslash, notQuote⟩ := not_or.mp special
    have alone : backslashed [c] = [c] := by simp [backslashed, notBackslash, notQuote]
    rw [alone, List.singleton_append, readFish]
    · exact notQuote
    · exact fun _ same _ => notBackslash same
    · exact fun _ same _ => notBackslash same

end Steps

theorem backslashed_cons (c : Char) (text : List Char) :
    backslashed (c :: text) = backslashed [c] ++ backslashed text := by
  simp [backslashed]

/-! ## Single texts -/

/-- Between single quotes of bash and zsh, a quote closes them, is escaped, and opens them. -/
theorem readPosix_single (text rest : List Char) :
    readPosix .single
        (text.flatMap (fun c => if c = '\'' then ['\'', '\\', '\'', '\''] else [c]) ++ rest) =
      prepend text (readPosix .single rest) := by
  induction text with
  | nil => simp
  | cons c text ih =>
    rw [List.flatMap_cons, List.append_assoc]
    by_cases quote : c = '\''
    · rw [if_pos quote, quote]
      simp [ih, prepend_prepend]
    · rw [if_neg quote, List.singleton_append, readPosix_single_cons _ quote, ih, prepend_prepend,
        List.singleton_append]

theorem readPosix_posixQuote (text rest : List Char) :
    readPosix .plain (posixQuote text ++ rest) = prepend text (readPosix .plain rest) := by
  have inside := readPosix_single text ('\'' :: rest)
  rw [readPosix_single_quote] at inside
  rw [posixQuote, List.append_assoc, List.cons_append, readPosix_plain_quote]
  exact inside

theorem readPosix_backslashed (text rest : List Char) :
    readPosix .escaped (backslashed text ++ rest) = prepend text (readPosix .escaped rest) := by
  induction text with
  | nil => simp [backslashed]
  | cons c text ih =>
    rw [backslashed_cons, List.append_assoc, readPosix_escaped_char, ih, prepend_prepend,
      List.singleton_append]

theorem readFish_backslashed (text rest : List Char) :
    readFish .single (backslashed text ++ rest) = prepend text (readFish .single rest) := by
  induction text with
  | nil => simp [backslashed]
  | cons c text ih =>
    rw [backslashed_cons, List.append_assoc, readFish_single_char, ih, prepend_prepend,
      List.singleton_append]

theorem readFish_fishQuote (text rest : List Char) :
    readFish .plain (fishQuote text ++ rest) = prepend text (readFish .plain rest) := by
  have inside := readFish_backslashed text ('\'' :: rest)
  rw [readFish_single_quote] at inside
  rw [fishQuote, List.append_assoc, List.cons_append, readFish_plain_quote]
  exact inside

/-! ## Lists -/

/-- Items that read back one by one, with a newline that reads back between them, read back as
lines. -/
theorem read_joinWith {read : List Char → Option (List Char × List Char)}
    {quote : List Char → List Char}
    (item : ∀ text rest, read (quote text ++ rest) = prepend text (read rest))
    (newline : ∀ rest, read ('\\' :: 'n' :: rest) = prepend ['\n'] (read rest))
    (values : List (List Char)) (rest : List Char) :
    read (joinWith ['\\', 'n'] (values.map quote) ++ rest) =
      prepend (joinWith ['\n'] values) (read rest) := by
  induction values with
  | nil => simp [joinWith]
  | cons first others ih =>
    cases others with
    | nil => exact item first rest
    | cons second others =>
      simp only [List.map_cons, joinWith, List.append_assoc, List.cons_append,
        List.nil_append] at ih ⊢
      rw [item, newline, ih, prepend_prepend, prepend_prepend, List.append_assoc]
      rfl

theorem readPosix_ansiLines (values : List (List Char)) (rest : List Char) :
    readPosix .plain (ansiLines values ++ rest) =
      prepend (joinWith ['\n'] values) (readPosix .plain rest) := by
  cases values with
  | nil => exact (prepend_nil _).symm
  | cons first others =>
    have inside := read_joinWith readPosix_backslashed readPosix_escaped_newline
      (first :: others) ('\'' :: rest)
    rw [readPosix_escaped_quote] at inside
    simpa [ansiLines] using inside

theorem readFish_fishLines (values : List (List Char)) (rest : List Char) :
    readFish .plain (fishLines values ++ rest) =
      prepend (joinWith ['\n'] values) (readFish .plain rest) := by
  cases values with
  | nil => exact (prepend_nil _).symm
  | cons first others =>
    exact read_joinWith readFish_fishQuote readFish_plain_newline (first :: others) rest

/-! ## All shells -/

/-- A list as one word of a shell, its items on lines of their own. -/
def quoteLines : Shell → List (List Char) → List Char
  | .bash, values | .zsh, values => ansiLines values
  | .fish, values => fishLines values

/-- A quoted text reads back as that text, and reading goes on behind it. -/
theorem readWord_quote (shell : Shell) (text rest : List Char) :
    readWord shell ((emitterFor shell).quote text ++ rest) = prepend text (readWord shell rest) := by
  cases shell with
  | bash => exact readPosix_posixQuote text rest
  | zsh => exact readPosix_posixQuote text rest
  | fish => exact readFish_fishQuote text rest

example : readWord .bash "'it'\\''s' next".toList = some ("it's".toList, " next".toList) := by
  decide

/-- A quoted list reads back as its items on lines of their own, and reading goes on behind it. -/
theorem readWord_quoteLines (shell : Shell) (values : List (List Char)) (rest : List Char) :
    readWord shell (quoteLines shell values ++ rest) =
      prepend (joinWith ['\n'] values) (readWord shell rest) := by
  cases shell with
  | bash => exact readPosix_ansiLines values rest
  | zsh => exact readPosix_ansiLines values rest
  | fish => exact readFish_fishLines values rest

end CommandCompletion.Script
