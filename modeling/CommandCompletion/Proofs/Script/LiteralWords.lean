import CommandCompletion.Proofs.Script.Rows

/-!
# Literal words

A word of a shell goes on over quoted parts, escaped characters and characters that stand for
themselves, up to one that ends it. Such words are read here as a whole (`readLiteral`), as long as
they are literal: no shell expands or matches anything in them. A word with an expansion, with a
pattern or with double quotes is not read at all.

A quoted text is read as that text and a quoted list as its items on lines of their own, and
whatever stands behind is read as if the word only began there (`Spells`). So the quotes are closed
where the text was closed and nowhere before, and a quoted form belongs to one text only
(`quoting_inverted`).
-/

set_option autoImplicit false

namespace CommandCompletion.Script

/-! ## Reading -/

/-- A character that ends a word outside quotes, in every shell. -/
def endsLiteral (c : Char) : Bool :=
  [' ', '\t', '\n', ';', '|', '<', '>', ')'].contains c

/-- A character that stands for itself outside quotes, in every shell. -/
def isBare (c : Char) : Bool :=
  Text.isAlphanumeric c || ['_', '-', '.', '/', ':', ',', '+', '@'].contains c

/-- What a character behind a backslash stands for outside quotes. In bash and zsh the end of a line
is left out together with the backslash; in fish the characters with a meaning are escaped, and
letters behind a backslash mean something else. -/
def escaped? : Shell → Char → Option (List Char)
  | .bash, c | .zsh, c => some (if c = '\n' then [] else [c])
  | .fish, c => if Text.isPunctuation c || c == ' ' then some [c] else none

/-- What stands first in a text outside quotes, escaped or not, and what is behind it. -/
def readBare (shell : Shell) : List Char → Option (List Char × List Char)
  | [] => none
  | '\\' :: c :: rest => (escaped? shell c).map fun text => (text, rest)
  | c :: rest => if isBare c then some ([c], rest) else none

/-- Whether no word goes on into a text. -/
def isLiteralEnd (text : List Char) : Bool :=
  text.head?.all endsLiteral

theorem prepend_eq_some_iff {text word rest : List Char}
    {further : Option (List Char × List Char)} :
    prepend text further = some (word, rest) ↔
      ∃ behind, further = some (behind, rest) ∧ text ++ behind = word := by
  simp [prepend, Option.map_eq_some_iff]

theorem length_readPosix_le {part : PosixPart} {text word rest : List Char}
    (read : readPosix part text = some (word, rest)) : rest.length ≤ text.length := by
  fun_induction readPosix part text generalizing word rest <;> grind [prepend_eq_some_iff]

theorem length_readFish_le {part : FishPart} {text word rest : List Char}
    (read : readFish part text = some (word, rest)) : rest.length ≤ text.length := by
  fun_induction readFish part text generalizing word rest <;> grind [prepend_eq_some_iff]

/-- Reading the quoted parts of a word leaves no more than there was. -/
theorem length_readWord_le {shell : Shell} {text word rest : List Char}
    (read : readWord shell text = some (word, rest)) : rest.length ≤ text.length := by
  cases shell with
  | bash => exact length_readPosix_le read
  | zsh => exact length_readPosix_le read
  | fish => exact length_readFish_le read

theorem length_readBare_lt {shell : Shell} {text character rest : List Char}
    (read : readBare shell text = some (character, rest)) : rest.length < text.length := by
  unfold readBare at read
  split at read
  · cases read
  · obtain ⟨_, _, same⟩ := Option.map_eq_some_iff.mp read
    cases same
    simp only [List.length_cons]
    omega
  · split at read
    · cases read
      exact Nat.lt_succ_self _
    · cases read

/-- The literal word at the beginning of a text, and what follows it. -/
def readLiteral (shell : Shell) (text : List Char) : Option (List Char × List Char) :=
  match _quoted : readWord shell text with
  | none => none
  | some (part, rest) =>
    if isLiteralEnd rest then some (part, rest)
    else
      match _bare : readBare shell rest with
      | none => none
      | some (character, behind) => prepend (part ++ character) (readLiteral shell behind)
termination_by text.length
decreasing_by exact Nat.lt_of_lt_of_le (length_readBare_lt _bare) (length_readWord_le _quoted)

theorem readLiteral_eq (shell : Shell) (text : List Char) :
    readLiteral shell text = (readWord shell text).bind fun quoted =>
      if isLiteralEnd quoted.2 then some quoted
      else (readBare shell quoted.2).bind fun bare =>
        prepend (quoted.1 ++ bare.1) (readLiteral shell bare.2) := by
  rw [readLiteral]
  split
  · rename_i unread
    rw [unread, Option.bind_none]
  · rename_i part rest quoted
    rw [quoted, Option.bind_some]
    dsimp only
    split
    · rfl
    · split
      · rename_i unread
        rw [unread, Option.bind_none]
      · rename_i character behind bare
        rw [bare, Option.bind_some]

/-- No word begins where words end. -/
theorem readLiteral_of_isLiteralEnd {rest : List Char} (ends : isLiteralEnd rest = true)
    (shell : Shell) :
    readLiteral shell rest = some ([], rest) := by
  have nothing : readWord shell rest = some ([], rest) := by
    cases rest with
    | nil => cases shell <;> rfl
    | cons c rest =>
      have ending : endsLiteral c = true := ends
      simp only [endsLiteral, List.contains_iff_mem, List.mem_cons, List.not_mem_nil,
        or_false] at ending
      rcases ending with rfl | rfl | rfl | rfl | rfl | rfl | rfl | rfl <;> cases shell <;> rfl
  rw [readLiteral_eq, nothing, Option.bind_some, if_pos ends]

/-! ## Texts that are read as words -/

/-- A text is a way to write a word: it is read as the word where the word ends behind it, and
whatever else stands behind is read as if the word only began there. -/
structure Spells (shell : Shell) (written word : List Char) : Prop where
  ends : ∀ rest, isLiteralEnd rest = true →
    readLiteral shell (written ++ rest) = some (word, rest)
  goesOn : ∀ rest, readLiteral shell (written ++ rest) = prepend word (readLiteral shell rest)

namespace Spells

variable {shell : Shell} {written word other : List Char}

/-- Quoted parts at the beginning of a text come first in the word. -/
theorem of_readWord
    (quoted : ∀ rest, readWord shell (written ++ rest) = prepend word (readWord shell rest)) :
    Spells shell written word := by
  have goesOn (rest : List Char) :
      readLiteral shell (written ++ rest) = prepend word (readLiteral shell rest) := by
    rw [readLiteral_eq, readLiteral_eq shell rest, quoted]
    cases readWord shell rest with
    | none => rfl
    | some read =>
      obtain ⟨part, behind⟩ := read
      simp only [prepend_some, Option.bind_some]
      split
      · rfl
      · cases readBare shell behind with
        | none => rfl
        | some bare => simp only [Option.bind_some, prepend_prepend, List.append_assoc]
  refine ⟨fun rest ends => ?_, goesOn⟩
  rw [goesOn, readLiteral_of_isLiteralEnd ends, prepend_some, List.append_nil]

/-- The whole of a text is read, if nothing stands behind it. -/
theorem whole (spells : Spells shell written word) :
    readLiteral shell written = some (word, []) := by
  have alone := spells.ends [] rfl
  rwa [List.append_nil] at alone

theorem unique (spells : Spells shell written word) (spellsToo : Spells shell written other) :
    word = other := by
  cases spells.whole.symm.trans spellsToo.whole
  rfl

/-- A quoted form that is always read as what was quoted belongs to one text only. -/
theorem injective {quote : List Char → List Char}
    (spells : ∀ text, Spells shell (quote text) text) : Function.Injective quote := by
  intro first second same
  have spellsFirst := spells first
  rw [same] at spellsFirst
  exact spellsFirst.unique (spells second)

end Spells

/-! ## Quoted texts and lists -/

theorem spells_quote (shell : Shell) (text : List Char) :
    Spells shell ((emitterFor shell).quote text) text :=
  .of_readWord (readWord_quote shell text)

theorem spells_quoteLines (shell : Shell) (values : List (List Char)) :
    Spells shell (quoteLines shell values) (joinWith ['\n'] values) :=
  .of_readWord (readWord_quoteLines shell values)

/-- **The shells read quoted texts as what was quoted.** In bash and zsh, and in fish, a quoted text
is a way to write the text, and a quoted list a way to write its items on lines of their own,
whatever stands behind it. These lines, less the empty ones, are the items that are not empty, if no
item holds a newline. Different texts have different quoted forms, and lists with one quoted form
are the same on lines. -/
theorem quoting_inverted :
    (∀ text, Spells .bash (posixQuote text) text ∧ Spells .zsh (posixQuote text) text ∧
      Spells .fish (fishQuote text) text) ∧
    (∀ values, Spells .bash (ansiLines values) (joinWith ['\n'] values) ∧
      Spells .zsh (ansiLines values) (joinWith ['\n'] values) ∧
      Spells .fish (fishLines values) (joinWith ['\n'] values)) ∧
    (∀ values : List String, (∀ value ∈ values, '\n' ∉ value.toList) →
      linesOf (joinWith ['\n'] (values.map String.toList)) = values.filter (· ≠ "")) ∧
    (Function.Injective posixQuote ∧ Function.Injective fishQuote) ∧
    ∀ shell values others, quoteLines shell values = quoteLines shell others →
      joinWith ['\n'] values = joinWith ['\n'] others := by
  refine ⟨fun text => ?_, fun values => ?_, fun values => linesOf_joinWith, ?_, ?_⟩
  · exact ⟨spells_quote .bash text, spells_quote .zsh text, spells_quote .fish text⟩
  · exact ⟨spells_quoteLines .bash values, spells_quoteLines .zsh values,
      spells_quoteLines .fish values⟩
  · exact ⟨Spells.injective (spells_quote .bash), Spells.injective (spells_quote .fish)⟩
  · intro shell values others same
    have spells := spells_quoteLines shell values
    rw [same] at spells
    exact spells.unique (spells_quoteLines shell others)

/-- Quotes, backslashes in front of an `n`, and an empty item. Behind the list the word goes on with
an escaped quote. -/
theorem quoting_inverted_quotesAndBackslashes :
    (∀ value ∈ ["it's", "", "a\\n"], '\n' ∉ value.toList) ∧
      linesOf "it's\n\na\\n".toList = ["it's", "a\\n"] ∧
      readLiteral .zsh "$'it\\'s\\n\\na\\\\n'\\'x y".toList =
        some ("it's\n\na\\n'x".toList, " y".toList) ∧
      readLiteral .fish "'it\\'s'\\n''\\n'a\\\\n';".toList =
        some ("it's\n\na\\n".toList, ";".toList) := by
  have oneLine : ∀ value ∈ ["it's", "", "a\\n"], '\n' ∉ value.toList := by decide
  obtain ⟨_, lists, lines, _, _⟩ := quoting_inverted
  obtain ⟨_, zsh, fish⟩ := lists (["it's", "", "a\\n"].map String.toList)
  refine ⟨oneLine, (lines _ oneLine).trans (by decide), (zsh.goesOn "\\'x y".toList).trans ?_,
    fish.ends ";".toList (by decide)⟩
  decide +kernel

end CommandCompletion.Script
