import CommandCompletion.Line
import CommandCompletion.Proofs.Text.ByteOrder

/-!
# What stands before the cursor

A cursor counts bytes and may stand anywhere, behind the end of its line or between two bytes
of one character. The search for the last boundary before it looks at one byte after the other.
It never passes the beginning of the line, since the beginning is a boundary
(`Line.exists_boundary`), and the bytes before a boundary are those of a text (`Line.upTo?_append`).

So what is typed before the cursor is what is typed in the longest beginning of the line that
has no more bytes than the cursor counts. Whatever follows, a quote that closes or a character of
which only some bytes stand before the cursor, is ignored (`text_behind_cursor_ignored`).
-/

set_option autoImplicit false

namespace CommandCompletion

namespace Line

/-! ## Boundaries -/

/-- Boundaries are the sizes of the texts that a line begins with. -/
theorem isBoundary_iff {line : String} {offset : Nat} :
    isBoundary line offset = true ↔
      ∃ before rest : String, line = before ++ rest ∧ offset = before.utf8ByteSize := by
  rw [isBoundary, String.Pos.Raw.isValid_eq_true_iff, String.Pos.Raw.isValid_iff_exists_append]
  constructor
  · rintro ⟨before, rest, whole, ends⟩
    exact ⟨before, rest, whole, congrArg String.Pos.Raw.byteIdx ends⟩
  · rintro ⟨before, rest, whole, rfl⟩
    exact ⟨before, rest, whole, rfl⟩

theorem isBoundary_zero (line : String) : isBoundary line 0 = true :=
  isBoundary_iff.mpr ⟨"", line, String.empty_append.symm, rfl⟩

/-- A search that begins at a boundary ends there. -/
theorem boundary?_of_isBoundary {line : String} {offset : Nat}
    (here : isBoundary line offset = true) : boundary? line offset = some offset := by
  cases offset with
  | zero => rw [boundary?, if_pos here]
  | succ offset => rw [boundary?, if_pos here]

/-- From everywhere the search finds a boundary, and no boundary is passed on the way. -/
theorem exists_boundary (line : String) (offset : Nat) :
    ∃ found, boundary? line offset = some found ∧ isBoundary line found = true ∧ found ≤ offset ∧
      ∀ other, isBoundary line other = true → other ≤ offset → other ≤ found := by
  induction offset with
  | zero =>
    refine ⟨0, boundary?_of_isBoundary (isBoundary_zero line), isBoundary_zero line, le_rfl, ?_⟩
    intro other _ before
    exact before
  | succ offset ih =>
    cases here : isBoundary line (offset + 1) with
    | true =>
      refine ⟨offset + 1, boundary?_of_isBoundary here, here, le_rfl, ?_⟩
      intro other _ before
      exact before
    | false =>
      obtain ⟨found, finds, boundary, before, last⟩ := ih
      refine ⟨found, ?_, boundary, Nat.le_succ_of_le before, ?_⟩
      · rw [boundary?, here, if_neg Bool.false_ne_true, finds]
      · intro other isBoundary notBehind
        -- The offset itself is no boundary, so another one stands before it.
        have apart : other ≠ offset + 1 := by
          rintro rfl
          rw [here] at isBoundary
          cases isBoundary
        exact last other isBoundary (by omega)

/-! ## The text before a boundary -/

/-- The bytes before a boundary are those of the text that stands there. -/
theorem upTo?_append (before rest : String) :
    upTo? (before ++ rest) before.utf8ByteSize = some before := by
  have bytes : (before ++ rest).toUTF8.extract 0 before.utf8ByteSize = before.toUTF8 := by
    rw [String.toUTF8_eq_toByteArray, String.toByteArray_append]
    exact ByteArray.extract_append_eq_left String.size_toByteArray.symm
  rw [upTo?, bytes, Text.fromUTF8?_toUTF8]

/-- The longest beginning of a line that has no more bytes than a cursor counts. -/
structure StandsBefore (before line : String) (cursor : Nat) : Prop where
  begins : before.toList <+: line.toList
  fits : before.utf8ByteSize ≤ cursor
  longest : ∀ other : String, other.toList <+: line.toList → other.utf8ByteSize ≤ cursor →
    other.toList <+: before.toList

theorem prefix_iff_exists_append {before line : String} :
    before.toList <+: line.toList ↔ ∃ rest : String, line = before ++ rest := by
  constructor
  · rintro ⟨rest, whole⟩
    refine ⟨String.ofList rest, String.toList_inj.mp ?_⟩
    rw [String.toList_append, String.toList_ofList, whole]
  · rintro ⟨rest, rfl⟩
    rw [String.toList_append]
    exact List.prefix_append _ _

/-- Of two beginnings of a line the one with fewer bytes is a beginning of the other. -/
theorem prefix_of_utf8ByteSize_le {first second line : String}
    (begins : first.toList <+: line.toList) (beginsToo : second.toList <+: line.toList)
    (smaller : first.utf8ByteSize ≤ second.utf8ByteSize) : first.toList <+: second.toList := by
  rcases List.prefix_or_prefix_of_prefix begins beginsToo with shorter | longer
  · exact shorter
  · obtain ⟨rest, rfl⟩ := prefix_iff_exists_append.mp longer
    have none : rest.utf8ByteSize = 0 := by
      rw [String.utf8ByteSize_append] at smaller
      omega
    rw [String.utf8ByteSize_eq_zero_iff.mp none, String.append_empty]

theorem StandsBefore.unique {line before other : String} {cursor : Nat}
    (stands : StandsBefore before line cursor) (standsToo : StandsBefore other line cursor) :
    before = other := by
  have first := standsToo.longest before stands.begins stands.fits
  have second := stands.longest other standsToo.begins standsToo.fits
  exact String.toList_inj.mp (first.eq_of_length_le second.length_le)

/-- What the search finds, and the bytes before it: the longest beginning that fits. -/
theorem exists_standsBefore (line : String) (cursor : Nat) :
    ∃ before, StandsBefore before line cursor ∧
      boundary? line (min cursor line.utf8ByteSize) = some before.utf8ByteSize ∧
      upTo? line before.utf8ByteSize = some before := by
  obtain ⟨found, finds, boundary, notBehind, last⟩ :=
    exists_boundary line (min cursor line.utf8ByteSize)
  obtain ⟨before, rest, rfl, rfl⟩ := isBoundary_iff.mp boundary
  have begins : before.toList <+: (before ++ rest).toList :=
    prefix_iff_exists_append.mpr ⟨rest, rfl⟩
  refine ⟨before, ⟨begins, le_trans notBehind (Nat.min_le_left _ _), ?_⟩, finds,
    upTo?_append before rest⟩
  intro other beginsToo fits
  obtain ⟨others, whole⟩ := prefix_iff_exists_append.mp beginsToo
  have inside : other.utf8ByteSize ≤ (before ++ rest).utf8ByteSize := by
    rw [whole, String.utf8ByteSize_append]
    exact Nat.le_add_right _ _
  refine prefix_of_utf8ByteSize_le beginsToo begins (last _ ?_ (le_min fits inside))
  exact isBoundary_iff.mpr ⟨other, others, whole, rfl⟩

theorem StandsBefore.beforeCursor?_eq {line before : String} {cursor : Nat}
    (stands : StandsBefore before line cursor) : beforeCursor? line cursor = some before := by
  obtain ⟨found, standsToo, finds, text⟩ := exists_standsBefore line cursor
  obtain rfl := stands.unique standsToo
  rw [beforeCursor?, finds, Option.bind_some, text]

/-- Before a cursor at the end of a line stands the whole line. -/
theorem standsBefore_utf8ByteSize (line : String) :
    StandsBefore line line line.utf8ByteSize :=
  ⟨List.prefix_rfl, le_rfl, fun _ begins _ => begins⟩

end Line

namespace TypedLine

theorem ofLine_of_standsBefore {line before : String} {cursor : Nat}
    (stands : Line.StandsBefore before line cursor) :
    ofLine line cursor = ofCharacters before.toList := by
  rw [ofLine, stands.beforeCursor?_eq]

theorem ofLine_utf8ByteSize (line : String) :
    ofLine line line.utf8ByteSize = ofCharacters line.toList :=
  ofLine_of_standsBefore (Line.standsBefore_utf8ByteSize line)

end TypedLine

/-! ## The cursor -/

/-- **Text behind the cursor is ignored.** Let a cursor stand anywhere in a line, behind its end or
inside a character. Of the beginnings of the line that have no more bytes than the cursor counts,
exactly one is the longest. The search for the last boundary finds its end, and never passes the
beginning of the line; the bytes up to there are its bytes. What is typed in the line is what is
typed in this beginning with the cursor at its end, and it is typed in every line with the same
text before the cursor. So all these lines have the same candidates. -/
theorem text_behind_cursor_ignored (line : String) (cursor : Nat) :
    ∃ before, (∀ other, Line.StandsBefore other line cursor ↔ other = before) ∧
      Line.boundary? line (min cursor line.utf8ByteSize) = some before.utf8ByteSize ∧
      Line.upTo? line before.utf8ByteSize = some before ∧
      TypedLine.ofLine line cursor = TypedLine.ofLine before before.utf8ByteSize ∧
      ∀ (other : String) (otherCursor : Nat), Line.StandsBefore before other otherCursor →
        TypedLine.ofLine other otherCursor = TypedLine.ofLine line cursor ∧
        ∀ (index : Index) (description : Description) (registry : Registry),
          (TypedLine.ofLine other otherCursor).complete index description registry =
            (TypedLine.ofLine line cursor).complete index description registry := by
  obtain ⟨before, stands, finds, text⟩ := Line.exists_standsBefore line cursor
  have typed := TypedLine.ofLine_of_standsBefore stands
  refine ⟨before, ?_, finds, text, typed.trans (TypedLine.ofLine_utf8ByteSize before).symm, ?_⟩
  · intro other
    constructor
    · intro standsToo
      exact standsToo.unique stands
    · rintro rfl
      exact stands
  · intro other otherCursor standsToo
    have same : TypedLine.ofLine other otherCursor = TypedLine.ofLine line cursor :=
      (TypedLine.ofLine_of_standsBefore standsToo).trans typed.symm
    refine ⟨same, ?_⟩
    intro index description registry
    rw [same]

theorem text_behind_cursor_ignored_splitCharacter :
    Line.boundary? "prog é'" 6 = some 5 ∧
      Line.StandsBefore "prog " "prog é'" 6 ∧ Line.StandsBefore "prog " "prog \"abc" 5 ∧
      TypedLine.ofLine "prog \"abc" 5 = TypedLine.ofLine "prog é'" 6 := by
  obtain ⟨before, stands, finds, text, _, shared⟩ := text_behind_cursor_ignored "prog é'" 6
  obtain ⟨other, standsToo, findsToo, textToo, _⟩ := text_behind_cursor_ignored "prog \"abc" 5
  have search : Line.boundary? "prog é'" 6 = some 5 := by decide +kernel
  have searchToo : Line.boundary? "prog \"abc" 5 = some 5 := by decide +kernel
  have size : before.utf8ByteSize = 5 := Option.some.inj (finds.symm.trans search)
  have sizeToo : other.utf8ByteSize = 5 := Option.some.inj (findsToo.symm.trans searchToo)
  rw [size] at text
  rw [sizeToo] at textToo
  obtain rfl : before = "prog " := Option.some.inj (text.symm.trans (by decide +kernel))
  obtain rfl : other = "prog " := Option.some.inj (textToo.symm.trans (by decide +kernel))
  have behind : Line.StandsBefore "prog " "prog \"abc" 5 := (standsToo _).mpr rfl
  exact ⟨search, (stands _).mpr rfl, behind, (shared _ 5 behind).1⟩

end CommandCompletion
