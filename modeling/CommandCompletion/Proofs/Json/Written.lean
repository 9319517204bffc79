import CommandCompletion.Json.Read
import CommandCompletion.Proofs.Json.Strings
import CommandCompletion.Proofs.Text.Decimal
import Mathlib.Data.List.TakeWhile

/-!
# Values written in JSON

A value is written as an atom, as a string, or as a list or record whose items or members are
written one after the other with commas between them, and with white space wherever a token may
begin or end (`Written`). Along with the value stands how many lists and records may be open inside
each other.

A text that writes a value is read as this value. The one exception is a text with more lists and
records open than the reader allows, which is not sound for it (`read_written`).
-/

set_option autoImplicit false

namespace CommandCompletion.Json

mutual
/-- The ways of writing a value with at most so many lists and records inside each other. -/
inductive Written : Nat → Datum → List Char → Prop where
  | nothing (room : Nat) : Written room .nothing "null".toList
  | truth (room : Nat) (value : Bool) :
      Written room (.truth value) (if value then "true".toList else "false".toList)
  | count (room : Nat) {value : Nat} (small : value < Text.countBound) :
      Written room (.count value) (Nat.toDigits 10 value)
  /-- A number that is no count. -/
  | other (room : Nat) {atom : List Char} (nonempty : atom ≠ [])
      (inside : ∀ c ∈ atom, Scan.isDelimiter c = false) (number : Token.ofAtom atom = .other) :
      Written room .other atom
  | text (room : Nat) {text pieces : List Char} (spelled : SpelledText text pieces) :
      Written room (.text (String.ofList text)) ('"' :: pieces ++ ['"'])
  | emptyList (room : Nat) {gap : List Char} (blank : Gap gap) :
      Written (room + 1) (.list [] true) (['['] ++ gap ++ [']'])
  | list {room : Nat} {items : List Datum} {inner : List Char}
      (written : WrittenItems room items inner) :
      Written (room + 1) (.list items true) (['['] ++ inner ++ [']'])
  | emptyRecord (room : Nat) {gap : List Char} (blank : Gap gap) :
      Written (room + 1) (.record [] true) (['\x7b'] ++ gap ++ ['\x7d'])
  | record {room : Nat} {members : List (String × Datum)} {inner : List Char}
      (written : WrittenMembers room members inner) :
      Written (room + 1) (.record members true) (['\x7b'] ++ inner ++ ['\x7d'])

/-- The ways of writing the items of a list. -/
inductive WrittenItems : Nat → List Datum → List Char → Prop where
  | last {room : Nat} {item : Datum} {before text after : List Char} (gap : Gap before)
      (written : Written room item text) (gapAfter : Gap after) :
      WrittenItems room [item] (before ++ text ++ after)
  | more {room : Nat} {item : Datum} {rest : List Datum} {before text after others : List Char}
      (gap : Gap before) (written : Written room item text) (gapAfter : Gap after)
      (later : WrittenItems room rest others) :
      WrittenItems room (item :: rest) (before ++ text ++ after ++ ',' :: others)

/-- The ways of writing the members of a record. -/
inductive WrittenMembers : Nat → List (String × Datum) → List Char → Prop where
  | last {room : Nat} {member : String × Datum} {text : List Char}
      (written : WrittenMember room member text) : WrittenMembers room [member] text
  | more {room : Nat} {member : String × Datum} {rest : List (String × Datum)}
      {text others : List Char} (written : WrittenMember room member text)
      (later : WrittenMembers room rest others) :
      WrittenMembers room (member :: rest) (text ++ ',' :: others)

/-- The ways of writing one member. -/
inductive WrittenMember : Nat → String × Datum → List Char → Prop where
  | member {room : Nat} {name pieces : List Char} {value : Datum}
      {before colon start text after : List Char} (gap : Gap before)
      (spelled : SpelledText name pieces) (gapColon : Gap colon) (gapValue : Gap start)
      (written : Written room value text) (gapAfter : Gap after) :
      WrittenMember room (String.ofList name, value)
        (before ++ ('"' :: pieces ++ ['"']) ++ colon ++ [':'] ++ start ++ text ++ after)
end

/-! ## Values without white space -/

theorem Gap.nil : Gap [] :=
  fun _ member => absurd member List.not_mem_nil

theorem written_quoted (room : Nat) (value : String) : Written room (.text value) (quoted value) := by
  have written := Written.text room (spelledText_escaped value.toList)
  rwa [String.ofList_toList] at written

theorem WrittenItems.one {room : Nat} {item : Datum} {text : List Char}
    (written : Written room item text) : WrittenItems room [item] text := by
  simpa using WrittenItems.last Gap.nil written Gap.nil

theorem WrittenItems.cons {room : Nat} {item : Datum} {rest : List Datum} {text others : List Char}
    (written : Written room item text) (later : WrittenItems room rest others) :
    WrittenItems room (item :: rest) (text ++ ',' :: others) := by
  simpa using WrittenItems.more Gap.nil written Gap.nil later

theorem WrittenMember.quoted {room : Nat} {value : Datum} {text : List Char} (name : String)
    (written : Written room value text) :
    WrittenMember room (name, value) (quoted name ++ ':' :: text) := by
  have spelled := spelledText_escaped name.toList
  have member := WrittenMember.member Gap.nil spelled Gap.nil Gap.nil written Gap.nil
  rw [String.ofList_toList] at member
  simpa [Json.quoted] using member

/-- A list can be written if all its items can. -/
theorem exists_written_list {room : Nat} {items : List Datum}
    (each : ∀ item ∈ items, ∃ text, Written room item text) :
    ∃ text, Written (room + 1) (.list items true) text := by
  have more : ∀ (first : Datum) (rest : List Datum),
      (∀ item ∈ first :: rest, ∃ text, Written room item text) →
      ∃ text, WrittenItems room (first :: rest) text := by
    intro first rest each
    induction rest generalizing first with
    | nil =>
      obtain ⟨text, written⟩ := each first List.mem_cons_self
      exact ⟨text, .one written⟩
    | cons next rest ih =>
      obtain ⟨⟨text, written⟩, later⟩ := List.forall_mem_cons.mp each
      obtain ⟨others, writtenLater⟩ := ih next later
      exact ⟨_, .cons written writtenLater⟩
  cases items with
  | nil => exact ⟨_, .emptyList room .nil⟩
  | cons first rest =>
    obtain ⟨inner, written⟩ := more first rest each
    exact ⟨_, .list written⟩

/-- A record can be written if the values of all its members can. -/
theorem exists_written_record {room : Nat} {members : List (String × Datum)}
    (each : ∀ member ∈ members, ∃ text, Written room member.2 text) :
    ∃ text, Written (room + 1) (.record members true) text := by
  have more : ∀ (first : String × Datum) (rest : List (String × Datum)),
      (∀ member ∈ first :: rest, ∃ text, Written room member.2 text) →
      ∃ text, WrittenMembers room (first :: rest) text := by
    intro first rest each
    induction rest generalizing first with
    | nil =>
      obtain ⟨text, written⟩ := each first List.mem_cons_self
      exact ⟨_, .last (.quoted first.1 written)⟩
    | cons next rest ih =>
      obtain ⟨⟨text, written⟩, later⟩ := List.forall_mem_cons.mp each
      obtain ⟨others, writtenLater⟩ := ih next later
      exact ⟨_, .more (.quoted first.1 written) writtenLater⟩
  cases members with
  | nil => exact ⟨_, .emptyRecord room .nil⟩
  | cons first rest =>
    obtain ⟨inner, written⟩ := more first rest each
    exact ⟨_, .record written⟩

/-! ## Reading what is written -/

namespace Building

@[simp] theorem foldl_broken (tokens : List Token) (datum : Datum) :
    tokens.foldl step (.broken datum) = .broken datum := by
  induction tokens with
  | nil => rfl
  | cons token rest ih => exact ih

/-- Tokens lead from one state of the machine to another, unless more lists and records are open
on the way than are allowed. -/
def Leads (depth : Nat) (tokens : List Token) (start finish : Building) : Prop :=
  tokens.foldl step start = finish ∨
    (maximalDepth < depth ∧ ∃ datum, tokens.foldl step start = .broken datum)

theorem Leads.append {depth : Nat} {tokens others : List Token} {start middle finish : Building}
    (leads : Leads depth tokens start middle) (further : Leads depth others middle finish) :
    Leads depth (tokens ++ others) start finish := by
  rw [Leads, List.foldl_append]
  rcases leads with reached | ⟨deep, datum, broken⟩
  · rw [reached]
    exact further
  · rw [broken, foldl_broken]
    exact .inr ⟨deep, datum, rfl⟩

theorem Leads.of_step {depth : Nat} (token : Token) {start finish : Building}
    (reached : start.step token = finish) : Leads depth [token] start finish :=
  .inl reached

/-- Where a value may begin. -/
inductive AwaitsValue : Expected → Prop where
  | value : AwaitsValue .value
  | itemOrEnd : AwaitsValue .itemOrEnd

/-- A list or record is opened unless too many are open. -/
theorem Leads.of_enter {frames : List Frame} {expected inner : Expected} {frame : Frame}
    {token : Token} (room : Nat) (opens : step (.inside frames expected) token =
      enter frames expected frame inner) :
    Leads (frames.length + (room + 1)) [token] (.inside frames expected)
      (.inside (frame :: frames) inner) := by
  have entered : [token].foldl step (.inside frames expected) =
      enter frames expected frame inner := opens
  rw [Leads, entered, enter]
  split
  · exact .inl rfl
  · rename_i full
    exact .inr ⟨by omega, _, rfl⟩

end Building

open Building

/-- A text is scanned as tokens that lead from wherever a value may begin to behind the value. -/
def ReadsValue (room : Nat) (datum : Datum) (text : List Char) : Prop :=
  ∃ tokens, Scanned text tokens ∧ ∀ frames expected, AwaitsValue expected →
    Leads (frames.length + room) tokens (.inside frames expected) (place datum frames)

/-- A text that is scanned as one token, which stands for the value. -/
theorem readsValue_of_token {room : Nat} {datum : Datum} {text : List Char} {token : Token}
    (scanned : Scanned text [token])
    (stands : ∀ frames expected, stepValue frames expected token = place datum frames)
    (notEnd : token ≠ .closeList) : ReadsValue room datum text := by
  refine ⟨[token], scanned, fun frames expected awaits => .of_step _ ?_⟩
  cases awaits with
  | value => exact stands frames .value
  | itemOrEnd =>
    have handedOn : step (.inside frames .itemOrEnd) token = stepValue frames .itemOrEnd token := by
      cases token <;> first | rfl | exact absurd rfl notEnd
    exact handedOn.trans (stands frames .itemOrEnd)

/-- An atom that stands for a value. -/
theorem readsValue_of_atom {room : Nat} {datum : Datum} {atom : List Char} (token : Token)
    (nonempty : atom ≠ []) (undelimited : ∀ c ∈ atom, Scan.isDelimiter c = false)
    (meant : Token.ofAtom atom = token) (sound : token ≠ .stop)
    (stands : ∀ frames expected, stepValue frames expected token = place datum frames)
    (notEnd : token ≠ .closeList) : ReadsValue room datum atom := by
  subst meant
  exact readsValue_of_token (scanned_atom nonempty undelimited sound) stands notEnd

theorem ofAtom_toDigits {value : Nat} (small : value < Text.countBound) :
    Token.ofAtom (Nat.toDigits 10 value) = .count value := by
  have digits : ∀ c ∈ Nat.toDigits 10 value, Text.isDigit c = true :=
    fun _ => Text.isDigit_of_mem_toDigits
  have isNumber : Token.unsignedNumber (Nat.toDigits 10 value) = some (.count value) := by
    have whole : Token.isWhole (Nat.toDigits 10 value) = true := by
      unfold Token.isWhole
      split
      · rfl
      · rename_i rest notZero printed
        exact absurd (Text.toDigits_eq_cons_zero printed) notZero
      · exact Text.isDigits_toDigits value
    have before : (Nat.toDigits 10 value).takeWhile Text.isDigit = Nat.toDigits 10 value :=
      List.takeWhile_eq_self_iff.mpr digits
    have behind : (Nat.toDigits 10 value).dropWhile Text.isDigit = [] :=
      List.dropWhile_eq_nil_iff.mpr digits
    simp only [Token.unsignedNumber, before, behind, whole, Token.isFractionPart,
      Token.isExponentPart, Bool.and_self, if_true, List.isEmpty_nil, Text.valueOfDigits_toDigits,
      small]
  have other : ∀ {word : List Char} (letter : Char), letter ∈ word → Text.isDigit letter = false →
      Nat.toDigits 10 value ≠ word := by
    rintro word letter member notDigit rfl
    rw [digits letter member] at notDigit
    cases notDigit
  rw [Token.ofAtom, if_neg (other 'n' (by decide) (by decide)),
    if_neg (other 't' (by decide) (by decide)), if_neg (other 'f' (by decide) (by decide)),
    isNumber, Option.getD_some]
  exact fun rest => other '-' List.mem_cons_self (by decide)

theorem isDelimiter_digit {c : Char} (digit : Text.isDigit c = true) :
    Scan.isDelimiter c = false := by
  rw [← Bool.not_eq_true]
  intro ends
  simp only [Scan.isDelimiter, Scan.isSpace, Bool.or_eq_true, beq_iff_eq] at ends
  rcases ends with ((((rfl | rfl) | rfl) | rfl) | rfl) | mark
  · cases digit
  · cases digit
  · cases digit
  · cases digit
  · cases digit
  · unfold Scan.mark? at mark
    split at mark <;> first | cases digit | cases mark

/-- A text between brackets is scanned as what is between them and the brackets. -/
theorem scannedWhole_list {inner : List Char} {tokens : List Token} (scanned : Scanned inner tokens) :
    ScannedWhole (['['] ++ inner ++ [']']) ([.openList] ++ tokens ++ [.closeList]) :=
  ((scannedWhole_mark rfl).append_scanned scanned).append_whole rfl (scannedWhole_mark rfl)

theorem scannedWhole_record {inner : List Char} {tokens : List Token}
    (scanned : Scanned inner tokens) :
    ScannedWhole (['\x7b'] ++ inner ++ ['\x7d']) ([.openRecord] ++ tokens ++ [.closeRecord]) :=
  ((scannedWhole_mark rfl).append_scanned scanned).append_whole rfl (scannedWhole_mark rfl)

theorem readsValue_list {room : Nat} {items : List Datum} {inner : List Char} {tokens : List Token}
    (scanned : Scanned inner tokens)
    (leads : ∀ frames, ∃ expected, (expected = .itemOrEnd ∨ expected = .separatorOrEnd) ∧
      Leads (frames.length + (room + 1)) tokens (.inside (.list [] :: frames) .itemOrEnd)
        (.inside (.list items.reverse :: frames) expected)) :
    ReadsValue (room + 1) (.list items true) (['['] ++ inner ++ [']']) := by
  refine ⟨_, (scannedWhole_list scanned).scanned, fun frames expected awaits => ?_⟩
  obtain ⟨last, ends, inside⟩ := leads frames
  have opened : step (.inside frames expected) .openList =
      enter frames expected (.list []) .itemOrEnd := by
    cases awaits <;> rfl
  have closed : step (.inside (.list items.reverse :: frames) last) .closeList =
      place (.list items true) frames := by
    rcases ends with rfl | rfl <;> simp [step]
  exact ((Leads.of_enter room opened).append inside).append (.of_step _ closed)

theorem readsValue_record {room : Nat} {members : List (String × Datum)} {inner : List Char}
    {tokens : List Token} (scanned : Scanned inner tokens)
    (leads : ∀ frames, ∃ name expected, (expected = .nameOrEnd ∨ expected = .separatorOrEnd) ∧
      Leads (frames.length + (room + 1)) tokens (.inside (.record [] "" :: frames) .nameOrEnd)
        (.inside (.record members.reverse name :: frames) expected)) :
    ReadsValue (room + 1) (.record members true) (['\x7b'] ++ inner ++ ['\x7d']) := by
  refine ⟨_, (scannedWhole_record scanned).scanned, fun frames expected awaits => ?_⟩
  obtain ⟨name, last, ends, inside⟩ := leads frames
  have opened : step (.inside frames expected) .openRecord =
      enter frames expected (.record [] "") .nameOrEnd := by
    cases awaits <;> rfl
  have closed : step (.inside (.record members.reverse name :: frames) last) .closeRecord =
      place (.record members true) frames := by
    rcases ends with rfl | rfl <;> simp [step]
  exact ((Leads.of_enter room opened).append inside).append (.of_step _ closed)

/-- A comma and what stands behind it, behind a piece that may leave an atom open. -/
theorem scanned_append_comma {text others : List Char} {tokens more : List Token}
    (scanned : Scanned text tokens) (later : Scanned others more) :
    Scanned (text ++ ',' :: others) (tokens ++ .comma :: more) := by
  have comma : ScannedWhole [','] [.comma] := scannedWhole_mark rfl
  simpa using (scanned.append_whole rfl comma).append_scanned later

mutual
theorem Written.reads : ∀ {room : Nat} {datum : Datum} {text : List Char},
    Written room datum text → ReadsValue room datum text
  | _, _, _, .nothing room =>
    readsValue_of_atom .nothing (by decide) (forall_mem_of_all (by decide)) rfl (by decide)
      (fun _ _ => rfl) (by decide)
  | _, _, _, .truth room value => by
    refine readsValue_of_atom (.truth value) ?_ ?_ ?_ (by simp) (fun _ _ => rfl) (by simp)
    · cases value <;> decide
    · cases value <;> exact forall_mem_of_all (by decide)
    · cases value <;> rfl
  | _, _, _, .count room small =>
    readsValue_of_atom (.count _) Nat.toDigits_ne_nil
      (fun _ member => isDelimiter_digit (Text.isDigit_of_mem_toDigits member))
      (ofAtom_toDigits small) (by simp) (fun _ _ => rfl) (by simp)
  | _, _, _, .other room nonempty undelimited number =>
    readsValue_of_atom .other nonempty undelimited number (by simp) (fun _ _ => rfl) (by simp)
  | _, _, _, .text room spelled =>
    readsValue_of_token (scannedWhole_string spelled).scanned (fun _ _ => rfl) (by simp)
  | _, _, _, .emptyList room blank =>
    readsValue_list blank.scannedWhole.scanned fun frames => ⟨.itemOrEnd, .inl rfl, .inl rfl⟩
  | _, _, _, .list written => by
    obtain ⟨tokens, scanned, leads⟩ := WrittenItems.reads written
    refine readsValue_list scanned fun frames => ⟨.separatorOrEnd, .inr rfl, ?_⟩
    have inside := leads frames [] .itemOrEnd .itemOrEnd
    rwa [List.append_nil] at inside
  | _, _, _, .emptyRecord room blank =>
    readsValue_record blank.scannedWhole.scanned fun frames => ⟨"", .nameOrEnd, .inl rfl, .inl rfl⟩
  | _, _, _, .record written => by
    obtain ⟨tokens, scanned, leads⟩ := WrittenMembers.reads written
    refine readsValue_record scanned fun frames => ?_
    obtain ⟨name, inside⟩ := leads frames [] "" .nameOrEnd (.inl rfl)
    rw [List.append_nil] at inside
    exact ⟨name, .separatorOrEnd, .inr rfl, inside⟩

theorem WrittenItems.reads : ∀ {room : Nat} {items : List Datum} {text : List Char},
    WrittenItems room items text → ∃ tokens, Scanned text tokens ∧
      ∀ frames done expected, AwaitsValue expected →
        Leads (frames.length + (room + 1)) tokens (.inside (.list done :: frames) expected)
          (.inside (.list (items.reverse ++ done) :: frames) .separatorOrEnd)
  | room, _, _, .last gap written gapAfter => by
    obtain ⟨tokens, scanned, leads⟩ := Written.reads written
    refine ⟨tokens, scanned_append_gap (gap.scannedWhole.append_scanned scanned) gapAfter, ?_⟩
    intro frames done expected awaits
    have inside := leads (.list done :: frames) expected awaits
    rwa [List.length_cons, Nat.add_assoc, Nat.add_comm 1] at inside
  | room, item :: _, _, .more gap written gapAfter later => by
    obtain ⟨tokens, scanned, leads⟩ := Written.reads written
    obtain ⟨others, scannedLater, leadsLater⟩ := WrittenItems.reads later
    have first := scanned_append_gap (gap.scannedWhole.append_scanned scanned) gapAfter
    refine ⟨_, scanned_append_comma first scannedLater, fun frames done expected awaits => ?_⟩
    have inside := leads (.list done :: frames) expected awaits
    rw [List.length_cons, Nat.add_assoc, Nat.add_comm 1] at inside
    have others := leadsLater frames (item :: done) .value .value
    have together := inside.append ((Leads.of_step .comma rfl).append others)
    simpa using together

theorem WrittenMembers.reads : ∀ {room : Nat} {members : List (String × Datum)} {text : List Char},
    WrittenMembers room members text → ∃ tokens, Scanned text tokens ∧
      ∀ frames done before expected, expected = .nameOrEnd ∨ expected = .name → ∃ last,
        Leads (frames.length + (room + 1)) tokens (.inside (.record done before :: frames) expected)
          (.inside (.record (members.reverse ++ done) last :: frames) .separatorOrEnd)
  | _, _, _, .last written => by
    obtain ⟨tokens, scanned, leads⟩ := WrittenMember.reads written
    exact ⟨tokens, scanned, fun frames done before expected awaits =>
      ⟨_, leads frames done before expected awaits⟩⟩
  | _, member :: _, _, .more written later => by
    obtain ⟨tokens, scanned, leads⟩ := WrittenMember.reads written
    obtain ⟨others, scannedLater, leadsLater⟩ := WrittenMembers.reads later
    refine ⟨_, scanned_append_comma scanned scannedLater, fun frames done before expected awaits => ?_⟩
    have inside := leads frames done before expected awaits
    obtain ⟨last, others⟩ := leadsLater frames (member :: done) _ .name (.inr rfl)
    refine ⟨last, ?_⟩
    rw [List.reverse_cons, List.append_assoc, List.singleton_append]
    exact inside.append ((Leads.of_step .comma rfl).append others)

theorem WrittenMember.reads : ∀ {room : Nat} {member : String × Datum} {text : List Char},
    WrittenMember room member text → ∃ tokens, Scanned text tokens ∧
      ∀ frames done before expected, expected = .nameOrEnd ∨ expected = .name →
        Leads (frames.length + (room + 1)) tokens (.inside (.record done before :: frames) expected)
          (.inside (.record (member :: done) member.1 :: frames) .separatorOrEnd)
  | room, _, _, .member gap spelled gapColon gapValue written gapAfter => by
    rename_i name pieces value before colon start text after
    obtain ⟨tokens, scanned, leads⟩ := Written.reads written
    have named := (gap.scannedWhole.append (scannedWhole_string spelled)).append
      gapColon.scannedWhole
    have mark : ScannedWhole [':'] [.colon] := scannedWhole_mark rfl
    have before := (named.append mark).append gapValue.scannedWhole
    refine ⟨_, scanned_append_gap (before.append_scanned scanned) gapAfter, ?_⟩
    intro frames done before expected awaits
    have inside := leads (.record done (String.ofList name) :: frames) .value .value
    rw [List.length_cons, Nat.add_assoc, Nat.add_comm 1] at inside
    have nameStep : Leads (frames.length + (room + 1)) [.text name]
        (.inside (.record done before :: frames) expected)
        (.inside (.record done (String.ofList name) :: frames) .colon) := by
      refine .of_step _ ?_
      rcases awaits with rfl | rfl <;> rfl
    have colonStep : Leads (frames.length + (room + 1)) [.colon]
        (.inside (.record done (String.ofList name) :: frames) .colon)
        (.inside (.record done (String.ofList name) :: frames) .value) := .of_step _ rfl
    have together := (nameStep.append colonStep).append inside
    simpa [place] using together
end

/-- A text that writes a value, with white space around it. -/
structure WrittenText (room : Nat) (datum : Datum) (text : List Char) : Prop where
  exists_gaps : ∃ before inner after, Gap before ∧ Written room datum inner ∧ Gap after ∧
    text = before ++ inner ++ after

/-- A text that writes a value is read as the value, or it is unsound for the reader because too
many lists and records are open in it. -/
theorem read_written {room : Nat} {datum : Datum} {text : List Char}
    (writes : WrittenText room datum text) :
    read text = (datum, true) ∨ (maximalDepth < room ∧ (read text).2 = false) := by
  obtain ⟨before, inner, after, gap, written, gapAfter, rfl⟩ := writes.exists_gaps
  obtain ⟨tokens, scanned, leads⟩ := written.reads
  have whole := scanned_append_gap (gap.scannedWhole.append_scanned scanned) gapAfter
  rw [List.nil_append] at whole
  have reached := leads [] .value .value
  rw [List.length_nil, Nat.zero_add] at reached
  rw [read, tokens_eq_of_scanned whole]
  rcases reached with finished | ⟨deep, _, broken⟩
  · rw [finished]
    exact .inl rfl
  · rw [broken]
    exact .inr ⟨deep, rfl⟩

end CommandCompletion.Json
