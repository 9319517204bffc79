import CommandCompletion.Proofs.Toml.Printed

/-!
# Texts and names between the quotes that need the fewest escapes

Whatever quotes a text is given, what stands between them is one way of writing the text
(`written_quoted`). Basic quotes hold every text, with escapes where they are needed. Literal quotes
have no escapes, so they are only given to texts without control characters, and without quotes of
their own kind or, between tripled quotes, without three of them in a row.

A name is written as it is if it consists of bare characters, and otherwise between quotes on one
line (`printedName_cases`). Unlike a value it never stands between tripled quotes.
-/

set_option autoImplicit false

namespace CommandCompletion.Toml

/-! ## Runs of quotes -/

theorem le_longestRun (mark : Char) (text : List Char) (run : Nat) :
    run ≤ longestRun mark run text := by
  induction text generalizing run with
  | nil => exact Nat.le_refl run
  | cons c rest ih =>
    rw [longestRun]
    split
    · exact Nat.le_trans (Nat.le_succ run) (ih (run + 1))
    · exact Nat.le_max_left run _

theorem notMem_of_longestRun_eq_zero {mark : Char} {text : List Char}
    (noRun : longestRun mark 0 text = 0) : mark ∉ text := by
  induction text with
  | nil => exact List.not_mem_nil
  | cons c rest ih =>
    rw [longestRun] at noRun
    split at noRun
    · have one := le_longestRun mark rest (0 + 1)
      omega
    · rename_i different
      rw [Nat.zero_max] at noRun
      exact List.not_mem_cons_of_ne_of_not_mem (Ne.symm different) (ih noRun)

/-! ## Characters that stand as they are -/

/-- Without control characters other than line ends, a character is plain or ends a line. -/
theorem isPlain_of_not_needsEscape {c : Char} (kept : needsEscape c = false) (sameLine : c ≠ '\n') :
    isPlain c = true := by
  simpa [needsEscape, sameLine] using kept

theorem spelledChar_literal {c : Char} (kept : needsEscape c = false) (sameLine : c ≠ '\n')
    (notQuote : c ≠ '\'') : SpelledChar .literal c [c] :=
  .plain (isPlain_of_not_needsEscape kept sameLine) notQuote (fun basic => by cases basic)

theorem spelledLine_literal {text : List Char}
    (plain : ∀ c ∈ text, needsEscape c = false ∧ c ≠ '\n') (noQuote : '\'' ∉ text) :
    SpelledLine .literal text text := by
  induction text with
  | nil => exact .nil
  | cons c rest ih =>
    obtain ⟨⟨kept, sameLine⟩, later⟩ := List.forall_mem_cons.mp plain
    obtain ⟨different, others⟩ := List.ne_and_not_mem_of_not_mem_cons noQuote
    exact .cons (spelledChar_literal kept sameLine different.symm) (ih later others)

/-! ## Between tripled quotes -/

/-- A quote behind so many quotes is one quote more. -/
theorem replicate_append_cons (count : Nat) (mark : Char) (rest : List Char) :
    List.replicate count mark ++ mark :: rest = List.replicate (count + 1) mark ++ rest := by
  rw [List.replicate_succ', List.append_assoc]
  rfl

/-- Behind at most two quotes that belong to the string, any text may go on with escapes. -/
theorem spelledLines_escapeFrom (text : List Char) {run : Nat} (few : run ≤ 2) :
    SpelledLines .basic (List.replicate run '"' ++ text)
      (List.replicate run '"' ++ escapeFrom true run text) := by
  induction text generalizing run with
  | nil =>
    rw [escapeFrom, List.append_nil]
    exact .quotes few
  | cons c rest ih =>
    have others := ih (Nat.zero_le 2)
    rw [escapeFrom]
    by_cases isQuote : c = '"'
    · subst isQuote
      rw [if_pos rfl]
      by_cases fewer : run < 2
      · simp only [fewer, decide_true, Bool.and_self, if_true]
        rw [replicate_append_cons, replicate_append_cons]
        exact ih fewer
      · simp only [fewer, decide_false, Bool.and_false, Bool.false_eq_true, if_false]
        have escaped : SpelledChar .basic '"' ['\\', '"'] := .escape rfl (.letter rfl)
        have spelled := SpelledLines.char few escaped others
        simpa [Quote.character] using spelled
    · rw [if_neg isQuote]
      by_cases endsLine : c = '\n'
      · subst endsLine
        have spelled := SpelledLines.line few .lineFeed others
        simpa [escapeCharacter, Quote.character] using spelled
      · have here : SpelledChar .basic c (escapeCharacter true c) :=
          spelledChar_escapeCharacter isQuote fun _ => endsLine
        have spelled := SpelledLines.char few here others
        simpa [Quote.character] using spelled

/-- Behind at most two quotes that belong to the string, a text goes on as it is if no three quotes
stand in a row. -/
theorem spelledLines_literal {text : List Char} (kept : ∀ c ∈ text, needsEscape c = false)
    {run : Nat} (few : longestRun '\'' run text ≤ 2) :
    SpelledLines .literal (List.replicate run '\'' ++ text) (List.replicate run '\'' ++ text) := by
  induction text generalizing run with
  | nil =>
    rw [List.append_nil]
    exact .quotes few
  | cons c rest ih =>
    obtain ⟨here, later⟩ := List.forall_mem_cons.mp kept
    rw [longestRun] at few
    split at few
    · rename_i isQuote
      subst isQuote
      rw [replicate_append_cons]
      exact ih later few
    · rename_i notQuote
      obtain ⟨before, behind⟩ := Nat.max_le.mp few
      have others := ih later behind
      by_cases endsLine : c = '\n'
      · subst endsLine
        have spelled := SpelledLines.line before .lineFeed others
        simpa [Quote.character] using spelled
      · have spelled := SpelledLines.char before (spelledChar_literal here endsLine notQuote) others
        simpa [Quote.character] using spelled

/-! ## The quotes of a value -/

/-- Tripled quotes get a line end if the text holds one, and the text begins with none otherwise. -/
theorem opening_openingLine {text pieces : List Char}
    (first : ∀ c, pieces.head? = some c → c ≠ '\r' ∧ (c = '\n' → '\n' ∈ text)) :
    Opening pieces (openingLine text) := by
  rw [openingLine]
  split
  · exact .line .lineFeed
  · rename_i noLine
    refine .none fun c head => ⟨?_, (first c head).1⟩
    intro endsLine
    exact noLine (List.contains_iff_mem.mpr ((first c head).2 endsLine))

/-- No escaped text begins with a carriage return, or with a line end of its own. -/
theorem head?_escapeFrom {text : List Char} {c : Char}
    (head : (escapeFrom true 0 text).head? = some c) : c ≠ '\r' ∧ (c = '\n' → '\n' ∈ text) := by
  cases text with
  | nil => cases head
  | cons first rest =>
    rw [escapeFrom] at head
    by_cases isQuote : first = '"'
    · subst isQuote
      cases head
      exact ⟨by decide, fun isLine => absurd isLine (by decide)⟩
    · rw [if_neg isQuote, escapeCharacter] at head
      split_ifs at head with backslash endsLine special
      · cases head
        exact ⟨by decide, fun isLine => absurd isLine (by decide)⟩
      · cases head
        simp only [Bool.true_and, beq_iff_eq] at endsLine
        subst endsLine
        exact ⟨by decide, fun _ => List.mem_cons_self⟩
      · have escaped : (escapeControl first).head? = some '\\' := by
          rw [escapeControl]
          split_ifs <;> rfl
        rw [List.head?_append, escaped] at head
        cases head
        exact ⟨by decide, fun isLine => absurd isLine (by decide)⟩
      · cases head
        refine ⟨?_, fun isLine => isLine ▸ List.mem_cons_self⟩
        rintro rfl
        exact special (by decide)

theorem written_basicLines (room : Nat) (value : String) :
    Written room (.text value) (basicLines value.toList) := by
  have spelled := spelledLines_escapeFrom value.toList (Nat.zero_le 2)
  have opened : Opening (escapeFrom true 0 value.toList) (openingLine value.toList) :=
    opening_openingLine fun _ head => head?_escapeFrom head
  have written := Written.lines room spelled opened
  rw [List.replicate_zero, List.nil_append, String.ofList_toList] at written
  rw [basicLines, List.append_assoc, List.append_assoc]
  exact written

theorem written_literalLine (room : Nat) {value : String}
    (plain : ∀ c ∈ value.toList, needsEscape c = false ∧ c ≠ '\n') (noQuote : '\'' ∉ value.toList) :
    Written room (.text value) (literalLine value.toList) := by
  have written := Written.line room (spelledLine_literal plain noQuote)
  rwa [String.ofList_toList] at written

theorem written_literalLines (room : Nat) {value : String}
    (kept : ∀ c ∈ value.toList, needsEscape c = false)
    (few : longestRun '\'' 0 value.toList ≤ 2) :
    Written room (.text value) (literalLines value.toList) := by
  have spelled := spelledLines_literal kept few
  have opened : Opening (value.toList) (openingLine value.toList) := by
    refine opening_openingLine fun c head => ?_
    have member := List.mem_of_head? head
    refine ⟨?_, fun endsLine => endsLine ▸ member⟩
    rintro rfl
    cases kept _ member
  have written := Written.lines room spelled opened
  rw [List.replicate_zero, List.nil_append, String.ofList_toList] at written
  rw [literalLines, List.append_assoc, List.append_assoc]
  exact written

/-- **A quoted text is a way of writing the text**, whichever quotes it is given. -/
theorem written_quoted (room : Nat) (value : String) :
    Written room (.text value) (quoted value.toList) := by
  have noControls : (!value.toList.any needsEscape) = true →
      ∀ c ∈ value.toList, needsEscape c = false := by
    simp
  have oneLine : (!value.toList.contains '\n') = true → ∀ c ∈ value.toList, c ≠ '\n' := by
    intro noLine c member same
    subst same
    simp [member] at noLine
  rw [quoted]
  split_ifs with basicFits literalFits basicRuns literalRuns
  · exact written_basicLine room value
  · simp only [Bool.and_eq_true, beq_iff_eq] at literalFits
    obtain ⟨⟨controls, lines⟩, run⟩ := literalFits
    exact written_literalLine room
      (fun c member => ⟨noControls controls c member, oneLine lines c member⟩)
      (notMem_of_longestRun_eq_zero run)
  · exact written_basicLines room value
  · simp only [Bool.and_eq_true, decide_eq_true_eq] at literalRuns
    exact written_literalLines room (noControls literalRuns.1) literalRuns.2
  · exact written_basicLines room value
  · exact written_basicLine room value

/-! ## Names -/

/-- A name between quotes on one line. -/
def QuotedName (name : String) (text : List Char) : Prop :=
  ∃ quote pieces, SpelledLine quote name.toList pieces ∧
    text = quote.character :: pieces ++ [quote.character]

theorem quotedName_basicLine (name : String) : QuotedName name (basicLine name.toList) :=
  ⟨.basic, _, spelledLine_escapeFrom name.toList 0, rfl⟩

/-- A name is printed as it is, or between quotes. -/
theorem printedName_cases (name : String) :
    (name.toList ≠ [] ∧ (∀ c ∈ name.toList, isBareCharacter c = true) ∧
      printedName name = name.toList) ∨ QuotedName name (printedName name) := by
  rw [printedName]
  split_ifs with bare basicFits literalFits
  · simp only [Bool.and_eq_true, Bool.not_eq_true', List.isEmpty_eq_false_iff,
      List.all_eq_true] at bare
    exact .inl ⟨bare.1, bare.2, rfl⟩
  · exact .inr (quotedName_basicLine name)
  · refine .inr ⟨.literal, name.toList, spelledLine_literal ?_ ?_, rfl⟩
    · intro c member
      simp only [Bool.and_eq_true, Bool.not_eq_true', List.any_eq_false] at literalFits
      have plain := literalFits.1 c member
      simpa using plain
    · simp only [Bool.and_eq_true, Bool.not_eq_true'] at literalFits
      intro member
      have found := List.contains_iff_mem.mpr member
      rw [literalFits.2] at found
      cases found
  · exact .inr (quotedName_basicLine name)

end CommandCompletion.Toml
