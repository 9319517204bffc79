import CommandCompletion.Proofs.Toml.Lines
import CommandCompletion.Toml.Print
import Mathlib.Tactic.SplitIfs

/-!
# Values and statements that can be written

The printed form of a text between basic quotes is one way of writing it (`written_basicLine`), so
texts, lists of texts and counts can always be written. Statements that can be written can be
written on lines one below the other (`exists_writtenLines`).
-/

set_option autoImplicit false

namespace CommandCompletion.Toml

/-! ## Texts between basic quotes -/

theorem escaped_control {c : Char} (small : c.toNat < 0x80) :
    Escaped c
      ['u', '0', '0', Text.upperHexDigit (c.toNat / 16), Text.upperHexDigit (c.toNat % 16)] := by
  have every : ∀ value < 0x80,
      (['0', '0', Text.upperHexDigit (value / 16), Text.upperHexDigit (value % 16)].all fun digit =>
        Text.isHexDigit digit == true) = true ∧
      Text.valueOfDigits 16 Text.digitValue
        ['0', '0', Text.upperHexDigit (value / 16), Text.upperHexDigit (value % 16)] = value := by
    decide
  obtain ⟨digits, value⟩ := every c.toNat small
  exact .number rfl (forall_mem_of_all digits) value

theorem spelledChar_escapeControl {c : Char} (small : c.toNat < 0x80) :
    SpelledChar .basic c (escapeControl c) := by
  unfold escapeControl
  split_ifs with tab newLine carriageReturn backspace formFeed
  · exact tab ▸ .escape rfl (.letter rfl)
  · exact newLine ▸ .escape rfl (.letter rfl)
  · exact carriageReturn ▸ .escape rfl (.letter rfl)
  · have named : c = Char.ofNat 8 := by rw [← backspace, Char.ofNat_toNat]
    exact named ▸ .escape rfl (.letter rfl)
  · have named : c = Char.ofNat 12 := by rw [← formFeed, Char.ofNat_toNat]
    exact named ▸ .escape rfl (.letter rfl)
  · exact .escape rfl (escaped_control small)

/-- A character that may not stand as it is, is a control character. -/
theorem toNat_lt_of_not_isPlain {c : Char} (notPlain : isPlain c = false) : c.toNat < 0x80 := by
  simp only [isPlain, Bool.or_eq_false_iff, Bool.and_eq_false_iff, decide_eq_false_iff_not,
    bne_eq_false_iff_eq] at notPlain
  omega

/-- A line end is left as it is between tripled quotes, where it is no character of a line. -/
theorem spelledChar_escapeCharacter {several : Bool} {c : Char} (notQuote : c ≠ '"')
    (sameLine : several = true → c ≠ '\n') :
    SpelledChar .basic c (escapeCharacter several c) := by
  unfold escapeCharacter
  split_ifs with backslash kept special
  · subst backslash
    exact .escape rfl (.letter rfl)
  · rw [Bool.and_eq_true, beq_iff_eq] at kept
    exact absurd kept.2 (sameLine kept.1)
  · refine spelledChar_escapeControl ?_
    simp only [Bool.or_eq_true, decide_eq_true_eq, needsEscape, Bool.and_eq_true,
      Bool.not_eq_true'] at special
    rcases special with (rfl | rfl) | ⟨notPlain, _⟩
    · decide
    · decide
    · exact toNat_lt_of_not_isPlain notPlain
  · simp only [Bool.or_eq_true, decide_eq_true_eq, needsEscape, Bool.and_eq_true,
      Bool.not_eq_true', not_or, not_and, bne_iff_ne] at special
    refine .plain ?_ notQuote fun _ => backslash
    by_contra notPlain
    exact special.2 (Bool.eq_false_iff.mpr notPlain) special.1.2

theorem spelledLine_escapeFrom (text : List Char) (run : Nat) :
    SpelledLine .basic text (escapeFrom false run text) := by
  induction text generalizing run with
  | nil => exact .nil
  | cons c rest ih =>
    rw [escapeFrom]
    split
    · rename_i isQuote
      subst isQuote
      exact .cons (.escape rfl (.letter rfl)) (ih 0)
    · rename_i notQuote
      exact .cons (spelledChar_escapeCharacter notQuote fun several => by cases several) (ih 0)

theorem written_basicLine (room : Nat) (value : String) :
    Written room (.text value) (basicLine value.toList) := by
  have written := Written.line room (spelledLine_escapeFrom value.toList 0)
  rwa [String.ofList_toList] at written

/-! ## Values and statements -/

/-- The items of a list of texts, each with a comma behind it. -/
def textItems (texts : List String) : List Char :=
  texts.flatMap fun value => basicLine value.toList ++ [',']

theorem writtenItems_textItems (room : Nat) (texts : List String) :
    WrittenItems room (texts.map .text) (textItems texts) := by
  induction texts with
  | nil => exact .none .nil
  | cons value rest ih =>
    have item := WrittenItem.item Gap.nil (written_basicLine room value) Gap.nil
    have together := WrittenItems.more item ih
    simpa [textItems] using together

theorem written_texts (room : Nat) (texts : List String) :
    Written (room + 1) (.list (texts.map .text) true) (['['] ++ textItems texts ++ [']']) :=
  .list (writtenItems_textItems room texts)

theorem Blanks.nil : Blanks [] :=
  fun _ member => absurd member List.not_mem_nil

/-- Whether a name needs no quotes. -/
def isBareName (name : String) : Bool :=
  !name.toList.isEmpty && name.toList.all isBareCharacter && !isDateForm name.toList

theorem isBareName_iff {name : String} :
    isBareName name = true ↔ name.toList ≠ [] ∧ (∀ c ∈ name.toList, isBareCharacter c = true) ∧
      isDateForm name.toList = false := by
  simp [isBareName, and_assoc]

theorem spelledName_of_bare {name : String} (bare : isBareName name = true) :
    SpelledName name name.toList := by
  obtain ⟨nonempty, bare, noDate⟩ := isBareName_iff.mp bare
  have spelled := SpelledName.bare nonempty bare noDate
  rwa [String.ofList_toList] at spelled

theorem writtenMember_of_bare {room : Nat} {name : String} {value : Datum} {text : List Char}
    (bare : isBareName name = true) (written : Written room value text) :
    WrittenMember room (name, value) (name.toList ++ '=' :: text) := by
  simpa using
    WrittenMember.member Gap.nil (spelledName_of_bare bare) Blanks.nil Blanks.nil written Gap.nil

theorem spelledStatement_of_bare {name : String} {value : Datum} {text : List Char}
    (bare : isBareName name = true) (written : Written Reading.maximalDepth value text) :
    SpelledStatement (.assignment ⟨[], name⟩ value) (name.toList ++ '=' :: text) := by
  simpa using SpelledStatement.assignment (spelledName_of_bare bare) Blanks.nil Blanks.nil written

/-- A header of names that need no quotes. -/
theorem spelledKey_of_bare {path : List String} {name : String}
    (bare : ∀ part ∈ path ++ [name], isBareName part = true ∧ '-' ∉ part.toList)
    (few : path.length < KeyReading.maximalLength) :
    SpelledKey ⟨path, name⟩ (['.'].intercalate (path.map String.toList ++ [name.toList])) := by
  have parts : ∀ part ∈ path.map String.toList ++ [name.toList], part ≠ [] ∧
      (∀ c ∈ part, isBareCharacter c = true) ∧ '-' ∉ part := by
    intro part member
    have mapped : part ∈ (path ++ [name]).map String.toList := by simpa using member
    obtain ⟨whole, found, rfl⟩ := List.mem_map.mp mapped
    obtain ⟨isBare, noHyphen⟩ := bare whole found
    obtain ⟨nonempty, isBare, _⟩ := isBareName_iff.mp isBare
    exact ⟨nonempty, isBare, noHyphen⟩
  have noHyphen : ∀ c ∈ ['.'].intercalate (path.map String.toList ++ [name.toList]), c ≠ '-' :=
    forall_mem_intercalate (by decide) fun part member c inside same =>
      (parts part member).2.2 (same ▸ inside)
  have spelled := SpelledKey.joined (fun part member => (parts part member).1)
    (fun part member => (parts part member).2.1) (by rwa [List.length_map])
    (Bool.eq_false_iff.mpr fun date => noHyphen '-' (hyphen_mem_of_isDateForm date) rfl)
  have same : (path.map String.toList).map String.ofList = path := by simp
  rwa [same, String.ofList_toList] at spelled

/-- One more statement on a line of its own. -/
theorem WrittenLines.cons {statement : Statement} {rest : List Statement} {text others : List Char}
    (spelled : SpelledStatement statement text) (later : WrittenLines rest others) :
    WrittenLines (statement :: rest) (text ++ '\n' :: others) := by
  simpa using WrittenLines.line Blanks.nil spelled Blanks.nil .none .lineFeed later

/-- Statements on lines of their own. -/
theorem exists_writtenLines {statements : List Statement}
    (each : ∀ statement ∈ statements, ∃ text, SpelledStatement statement text) :
    ∃ text, WrittenLines statements text := by
  induction statements with
  | nil => exact ⟨_, .finish .nil .none⟩
  | cons statement rest ih =>
    obtain ⟨⟨text, spelled⟩, later⟩ := List.forall_mem_cons.mp each
    obtain ⟨others, written⟩ := ih later
    exact ⟨_, .cons spelled written⟩

end CommandCompletion.Toml
