import CommandCompletion.Proofs.Toml.Atoms
import CommandCompletion.Proofs.Toml.Tables

/-!
# Values written in TOML

A truth value or a count is written as an atom, a text between quotes on one line or on several, and
a list or a record with its items or members between commas, of which the last may have one behind
it (`Written`). Line ends and comments may stand in a gap, but not within a member. Along with the
value stands how many lists and records may be open inside each other.

The members of a record have different names, and the record says them in the order of their names.
A text that writes a value is read as this value wherever the value may begin, as long as not too
many lists and records are open there (`Written.reads`).
-/

set_option autoImplicit false

namespace CommandCompletion.Toml

/-! ## Values -/

mutual
/-- The ways of writing a value with at most so many lists and records inside each other. -/
inductive Written : Nat → Datum → List Char → Prop where
  | truth (room : Nat) (value : Bool) :
      Written room (.truth value) (if value then "true".toList else "false".toList)
  | count (room : Nat) {value : Nat} (small : value < Text.countBound) :
      Written room (.count value) (Nat.toDigits 10 value)
  | line (room : Nat) {quote : Quote} {text pieces : List Char}
      (spelled : SpelledLine quote text pieces) :
      Written room (.text (String.ofList text)) (quote.character :: pieces ++ [quote.character])
  | lines (room : Nat) {quote : Quote} {text pieces opening : List Char}
      (spelled : SpelledLines quote text pieces) (opened : Opening pieces opening) :
      Written room (.text (String.ofList text)) (List.replicate 3 quote.character ++
        (opening ++ (pieces ++ List.replicate 3 quote.character)))
  | list {room : Nat} {items : List Datum} {inner : List Char}
      (written : WrittenItems room items inner) :
      Written (room + 1) (.list items true) (['['] ++ inner ++ [']'])
  | record {room : Nat} {members : List (String × Datum)} {inner : List Char}
      (distinct : (members.map (·.1)).Nodup) (written : WrittenMembers room members inner) :
      Written (room + 1) (tableDatum members) (['\x7b'] ++ inner ++ ['\x7d'])

/-- The ways of writing the items of a list. The last one may have a comma behind it. -/
inductive WrittenItems : Nat → List Datum → List Char → Prop where
  | none {room : Nat} {gap : List Char} (isGap : Gap gap) : WrittenItems room [] gap
  | last {room : Nat} {item : Datum} {text : List Char} (written : WrittenItem room item text) :
      WrittenItems room [item] text
  | more {room : Nat} {item : Datum} {rest : List Datum} {text others : List Char}
      (written : WrittenItem room item text) (later : WrittenItems room rest others) :
      WrittenItems room (item :: rest) (text ++ ',' :: others)

/-- The ways of writing one item. -/
inductive WrittenItem : Nat → Datum → List Char → Prop where
  | item {room : Nat} {item : Datum} {before text after : List Char} (gap : Gap before)
      (written : Written room item text) (gapAfter : Gap after) :
      WrittenItem room item (before ++ text ++ after)

/-- The ways of writing the members of a record. The last one may have a comma behind it. -/
inductive WrittenMembers : Nat → List (String × Datum) → List Char → Prop where
  | none {room : Nat} {gap : List Char} (isGap : Gap gap) : WrittenMembers room [] gap
  | last {room : Nat} {member : String × Datum} {text : List Char}
      (written : WrittenMember room member text) : WrittenMembers room [member] text
  | more {room : Nat} {member : String × Datum} {rest : List (String × Datum)}
      {text others : List Char} (written : WrittenMember room member text)
      (later : WrittenMembers room rest others) :
      WrittenMembers room (member :: rest) (text ++ ',' :: others)

/-- The ways of writing one member. -/
inductive WrittenMember : Nat → String × Datum → List Char → Prop where
  | member {room : Nat} {name : String} {value : Datum}
      {before key blanks start text after : List Char} (gap : Gap before)
      (spelled : SpelledName name key) (blanksKey : Blanks blanks) (blanksValue : Blanks start)
      (written : Written room value text) (gapAfter : Gap after) :
      WrittenMember room (name, value)
        (before ++ (key ++ blanks ++ ['='] ++ start ++ text) ++ after)
end

/-! ## Reading what is written -/

namespace Reading

/-- Where a complete value is put does not depend on where the machine was. -/
theorem complete_place (place other : Place) (statements : List Statement) (key : Key)
    (datum : Datum) (frames : List Frame) :
    complete ⟨place, statements⟩ key datum frames = complete ⟨other, statements⟩ key datum frames := by
  cases frames with
  | nil => rfl
  | cons frame rest => cases frame <;> rfl

/-- The state behind a value. -/
def behind (statements : List Statement) (key : Key) (datum : Datum) (frames : List Frame) :
    Reading :=
  complete { statements } key datum frames

/-- Where a value may begin. -/
inductive AwaitsValue : Expected → Prop where
  | value : AwaitsValue .value
  | itemOrEnd : AwaitsValue .itemOrEnd

/-- Tokens lead from one state of the machine to another. -/
def Leads (tokens : List Token) (start finish : Reading) : Prop :=
  tokens.foldl step start = finish

theorem Leads.append {tokens others : List Token} {start middle finish : Reading}
    (leads : Leads tokens start middle) (further : Leads others middle finish) :
    Leads (tokens ++ others) start finish := by
  rw [Leads, List.foldl_append, leads]
  exact further

theorem Leads.of_step (token : Token) {start finish : Reading} (reached : start.step token = finish) :
    Leads [token] start finish :=
  reached

/-- Tokens that change nothing. -/
theorem Leads.of_forall {tokens : List Token} {reading : Reading}
    (passed : ∀ token ∈ tokens, reading.step token = reading) : Leads tokens reading reading := by
  induction tokens with
  | nil => rfl
  | cons token rest ih =>
    obtain ⟨here, later⟩ := List.forall_mem_cons.mp passed
    rw [Leads, List.foldl_cons, here]
    exact ih later

theorem leads_blanks (text : List Char) {reading : Reading}
    (passed : reading.step .blank = reading) :
    Leads (List.replicate text.length .blank) reading reading :=
  .of_forall fun token member => by rw [List.eq_of_mem_replicate member, passed]

theorem leads_gap {tokens : List Token} (gaps : AllGaps tokens) {reading : Reading}
    (blank : reading.step .blank = reading) (newLine : reading.step .newLine = reading) :
    Leads tokens reading reading := by
  refine .of_forall fun token member => ?_
  rcases gaps token member with rfl | rfl
  · exact blank
  · exact newLine

end Reading

open Reading

/-- A text is scanned as tokens that lead from wherever a value may begin to behind the value. -/
def ReadsValue (room : Nat) (datum : Datum) (text : List Char) : Prop :=
  ∃ tokens, Scanned text tokens ∧ ∀ statements key frames expected, AwaitsValue expected →
    frames.length + room ≤ maximalDepth →
    Leads tokens ⟨.value key frames expected, statements⟩ (behind statements key datum frames)

/-- A text that is scanned as one token, which stands for the value. -/
theorem readsValue_of_token {room : Nat} {datum : Datum} {text : List Char} {token : Token}
    (scanned : Scanned text [token])
    (stands : ∀ reading key frames, stepValue reading key frames token =
      complete reading key datum frames)
    (notGap : token ≠ .blank ∧ token ≠ .newLine ∧ token ≠ .closeList) :
    ReadsValue room datum text := by
  refine ⟨[token], scanned, fun statements key frames expected awaits _ => .of_step _ ?_⟩
  have handedOn : step ⟨.value key frames expected, statements⟩ token =
      stepValue ⟨.value key frames expected, statements⟩ key frames token := by
    obtain ⟨notBlank, notLine, notEnd⟩ := notGap
    cases awaits <;> cases token <;>
      first | rfl | exact absurd rfl notBlank | exact absurd rfl notLine | exact absurd rfl notEnd
  rw [handedOn, stands]
  exact complete_place _ _ _ _ _ _

theorem readsValue_of_atom {room : Nat} {datum : Datum} {atom : List Char} (nonempty : atom ≠ [])
    (bare : ∀ c ∈ atom, isBareCharacter c = true) (noHyphen : '-' ∉ atom)
    (meant : Scalar.ofAtom atom = some datum) : ReadsValue room datum atom := by
  have noDate : isDateForm atom = false :=
    Bool.eq_false_iff.mpr fun date => noHyphen (hyphen_mem_of_isDateForm date)
  have scanned := scanned_atom nonempty (fun c member => isAtomic_of_bare (bare c member)) noDate
  refine readsValue_of_token scanned (fun reading key frames => ?_) (by simp)
  simp [stepValue, meant]

/-- A text between brackets. -/
theorem readsValue_list {room : Nat} {items : List Datum} {inner : List Char} {tokens : List Token}
    (scanned : Scanned inner tokens)
    (leads : ∀ statements key frames, frames.length + (room + 1) ≤ maximalDepth →
      ∃ expected, (expected = .itemOrEnd ∨ expected = .commaOrListEnd) ∧
        Leads tokens ⟨.value key (.list [] :: frames) .itemOrEnd, statements⟩
          ⟨.value key (.list items.reverse :: frames) expected, statements⟩) :
    ReadsValue (room + 1) (.list items true) (['['] ++ inner ++ [']']) := by
  have opened : ScannedWhole ['['] [.openList] := scannedWhole_mark rfl
  have closed : ScannedWhole [']'] [.closeList] := scannedWhole_mark rfl
  refine ⟨_, ((opened.append_scanned scanned).append_whole rfl closed).scanned, ?_⟩
  intro statements key frames expected awaits shallow
  obtain ⟨last, ends, inside⟩ := leads statements key frames shallow
  have shallower : frames.length < maximalDepth := by omega
  have opens : step ⟨.value key frames expected, statements⟩ .openList =
      ⟨.value key (.list [] :: frames) .itemOrEnd, statements⟩ := by
    cases awaits <;> simp [step, stepInside, stepValue, enter, shallower]
  have closes : step ⟨.value key (.list items.reverse :: frames) last, statements⟩ .closeList =
      behind statements key (.list items true) frames := by
    rw [behind, complete_place .start (.value key (.list items.reverse :: frames) last)]
    rcases ends with rfl | rfl <;> simp [step, stepInside]
  exact ((Leads.of_step _ opens).append inside).append (.of_step _ closes)

/-- A text between braces. -/
theorem readsValue_record {room : Nat} {members : List (String × Datum)} {inner : List Char}
    {tokens : List Token} (scanned : Scanned inner tokens)
    (leads : ∀ statements key frames, frames.length + (room + 1) ≤ maximalDepth →
      ∃ last expected, (expected = .key {} ∨ expected = .commaOrRecordEnd) ∧
        Leads tokens ⟨.value key (.record [] key :: frames) (.key {}), statements⟩
          ⟨.value key (.record (Members.ofValues members) last :: frames) expected, statements⟩) :
    ReadsValue (room + 1) (tableDatum members) (['\x7b'] ++ inner ++ ['\x7d']) := by
  have opened : ScannedWhole ['\x7b'] [.openRecord] := scannedWhole_mark rfl
  have closed : ScannedWhole ['\x7d'] [.closeRecord] := scannedWhole_mark rfl
  refine ⟨_, ((opened.append_scanned scanned).append_whole rfl closed).scanned, ?_⟩
  intro statements key frames expected awaits shallow
  obtain ⟨last, place, ends, inside⟩ := leads statements key frames shallow
  have shallower : frames.length < maximalDepth := by omega
  have opens : step ⟨.value key frames expected, statements⟩ .openRecord =
      ⟨.value key (.record [] key :: frames) (.key {}), statements⟩ := by
    cases awaits <;> simp [step, stepInside, stepValue, enter, shallower]
  have closes : step ⟨.value key (.record (Members.ofValues members) last :: frames) place,
      statements⟩ .closeRecord = behind statements key (tableDatum members) frames := by
    rw [behind, ← Members.datum_ofValues, complete_place .start
      (.value key (.record (Members.ofValues members) last :: frames) place)]
    rcases ends with rfl | rfl <;> simp [step, stepInside, stepMember]
  exact ((Leads.of_step _ opens).append inside).append (.of_step _ closes)

/-- A gap around a piece. -/
theorem scanned_between_gaps {before text after : List Char} {tokens : List Token}
    (gap : Gap before) (scanned : Scanned text tokens) (gapAfter : Gap after) :
    ∃ front back, AllGaps front ∧ AllGaps back ∧
      Scanned (before ++ text ++ after) (front ++ tokens ++ back) := by
  obtain ⟨front, frontWhole, frontGaps⟩ := gap.scannedWhole
  obtain ⟨back, backWhole, backGaps⟩ := gapAfter.scannedWhole
  exact ⟨front, back, frontGaps, backGaps,
    (frontWhole.append_scanned scanned).append_gap backWhole fun _ => gapAfter.isDelimiter_head⟩

/-- A comma and what stands behind it, behind a piece that may leave something open. -/
theorem scanned_append_comma {text others : List Char} {tokens more : List Token}
    (scanned : Scanned text tokens) (later : Scanned others more) :
    Scanned (text ++ ',' :: others) (tokens ++ ([.comma] ++ more)) := by
  have comma : ScannedWhole [','] [.comma] := scannedWhole_mark rfl
  have together := (scanned.append_whole rfl comma).append_scanned later
  rwa [List.append_assoc, List.append_assoc, List.singleton_append] at together

/-- One more item of a list. -/
def ReadsItem (room : Nat) (item : Datum) (text : List Char) : Prop :=
  ∃ tokens, Scanned text tokens ∧ ∀ statements key frames done,
    frames.length + (room + 1) ≤ maximalDepth →
    Leads tokens ⟨.value key (.list done :: frames) .itemOrEnd, statements⟩
      ⟨.value key (.list (item :: done) :: frames) .commaOrListEnd, statements⟩

theorem readsItem_of_value {room : Nat} {item : Datum} {before text after : List Char}
    (gap : Gap before) (reads : ReadsValue room item text) (gapAfter : Gap after) :
    ReadsItem room item (before ++ text ++ after) := by
  obtain ⟨tokens, scanned, leads⟩ := reads
  obtain ⟨front, back, frontGaps, backGaps, together⟩ := scanned_between_gaps gap scanned gapAfter
  refine ⟨_, together, fun statements key frames done shallow => ?_⟩
  have value := leads statements key (.list done :: frames) .itemOrEnd .itemOrEnd
    (by rw [List.length_cons]; omega)
  exact ((leads_gap frontGaps rfl rfl).append value).append (leads_gap backGaps rfl rfl)

/-- Some more items of a list, with a comma behind them or not. -/
def ReadsItems (room : Nat) (items : List Datum) (text : List Char) : Prop :=
  ∃ tokens, Scanned text tokens ∧ ∀ statements key frames done,
    frames.length + (room + 1) ≤ maximalDepth →
    ∃ expected, (expected = .itemOrEnd ∨ expected = .commaOrListEnd) ∧
      Leads tokens ⟨.value key (.list done :: frames) .itemOrEnd, statements⟩
        ⟨.value key (.list (items.reverse ++ done) :: frames) expected, statements⟩

theorem readsItems_cons {room : Nat} {item : Datum} {rest : List Datum} {text others : List Char}
    (first : ReadsItem room item text) (later : ReadsItems room rest others) :
    ReadsItems room (item :: rest) (text ++ ',' :: others) := by
  obtain ⟨tokens, scanned, leads⟩ := first
  obtain ⟨more, scannedLater, leadsLater⟩ := later
  refine ⟨_, scanned_append_comma scanned scannedLater, fun statements key frames done shallow => ?_⟩
  obtain ⟨expected, ends, behind⟩ := leadsLater statements key frames (item :: done) shallow
  refine ⟨expected, ends, ?_⟩
  rw [List.reverse_cons, List.append_assoc, List.singleton_append]
  exact (leads statements key frames done shallow).append ((Leads.of_step .comma rfl).append behind)

/-- A gap where an item may come. -/
theorem readsItems_nil {room : Nat} {gap : List Char} (isGap : Gap gap) :
    ReadsItems room [] gap := by
  obtain ⟨tokens, whole, gaps⟩ := isGap.scannedWhole
  exact ⟨tokens, whole.scanned, fun statements key frames done _ =>
    ⟨.itemOrEnd, .inl rfl, leads_gap gaps rfl rfl⟩⟩

theorem ReadsItem.items {room : Nat} {item : Datum} {text : List Char}
    (reads : ReadsItem room item text) : ReadsItems room [item] text := by
  obtain ⟨tokens, scanned, leads⟩ := reads
  exact ⟨tokens, scanned, fun statements key frames done shallow =>
    ⟨.commaOrListEnd, .inr rfl, leads statements key frames done shallow⟩⟩

theorem ReadsItems.list {room : Nat} {items : List Datum} {inner : List Char}
    (reads : ReadsItems room items inner) :
    ReadsValue (room + 1) (.list items true) (['['] ++ inner ++ [']']) := by
  obtain ⟨tokens, scanned, leads⟩ := reads
  refine readsValue_list scanned fun statements key frames shallow => ?_
  obtain ⟨expected, ends, inside⟩ := leads statements key frames [] shallow
  rw [List.append_nil] at inside
  exact ⟨expected, ends, inside⟩

/-- One more member of a record. -/
def ReadsMember (room : Nat) (member : String × Datum) (text : List Char) : Prop :=
  ∃ tokens, Scanned text tokens ∧ ∀ statements key frames before done,
    ((done ++ [member]).map (·.1)).Nodup → frames.length + (room + 1) ≤ maximalDepth →
    ∃ last, Leads tokens
      ⟨.value key (.record (Members.ofValues done) before :: frames) (.key {}), statements⟩
      ⟨.value key (.record (Members.ofValues (done ++ [member])) last :: frames) .commaOrRecordEnd,
        statements⟩

theorem readsMember_of_value {room : Nat} {name : String} {value : Datum}
    {before key blanks start text after : List Char} (gap : Gap before)
    (spelled : SpelledName name key) (blanksKey : Blanks blanks) (blanksValue : Blanks start)
    (reads : ReadsValue room value text) (gapAfter : Gap after) :
    ReadsMember room (name, value) (before ++ (key ++ blanks ++ ['='] ++ start ++ text) ++ after) := by
  obtain ⟨tokens, scanned, leads⟩ := reads
  obtain ⟨token, named, isName, reading⟩ := spelled.scanned
  have equals : ScannedWhole ['='] [.equals] := scannedWhole_mark rfl
  have front := (named.append_gap blanksKey.scannedWhole
    fun _ => blanksKey.isDelimiter_head).append_whole rfl equals
  have inner := (front.append blanksValue.scannedWhole).append_scanned scanned
  obtain ⟨gaps, gapsAfter, isGaps, isGapsAfter, together⟩ := scanned_between_gaps gap inner gapAfter
  refine ⟨_, together, fun statements outer frames frameKey done distinct shallow => ?_⟩
  refine ⟨⟨[], name⟩, ?_⟩
  have keyStep : step ⟨.value outer (.record (Members.ofValues done) frameKey :: frames) (.key {}),
      statements⟩ token = ⟨.value outer (.record (Members.ofValues done) outer :: frames)
        (.key ⟨[name], true⟩), statements⟩ := by
    have read := reading [] (by decide)
    obtain ⟨characters, rfl | rfl⟩ := isName <;>
      simp [step, stepInside, stepMember, read]
  have equalsStep : step ⟨.value outer (.record (Members.ofValues done) outer :: frames)
      (.key ⟨[name], true⟩), statements⟩ .equals =
      ⟨.value outer (.record (Members.ofValues done) ⟨[], name⟩ :: frames) .value, statements⟩ := by
    simp [step, stepInside, stepMember, KeyReading.key?]
  have valueStep := leads statements outer (.record (Members.ofValues done) ⟨[], name⟩ :: frames)
    .value .value (by rw [List.length_cons]; omega)
  have placed : behind statements outer value (.record (Members.ofValues done) ⟨[], name⟩ :: frames) =
      ⟨.value outer (.record (Members.ofValues (done ++ [(name, value)])) ⟨[], name⟩ :: frames)
        .commaOrRecordEnd, statements⟩ := by
    simp [behind, complete, Members.assign_ofValues distinct]
  rw [placed] at valueStep
  have keyed := (Leads.of_step token keyStep).append (leads_blanks blanks rfl)
  have assigned := (keyed.append (.of_step .equals equalsStep)).append (leads_blanks start rfl)
  have inside := assigned.append valueStep
  exact ((leads_gap isGaps rfl rfl).append inside).append (leads_gap isGapsAfter rfl rfl)

/-- Some more members of a record, with a comma behind them or not. -/
def ReadsMembers (room : Nat) (members : List (String × Datum)) (text : List Char) : Prop :=
  ∃ tokens, Scanned text tokens ∧ ∀ statements key frames before done,
    ((done ++ members).map (·.1)).Nodup → frames.length + (room + 1) ≤ maximalDepth →
    ∃ last expected, (expected = .key {} ∨ expected = .commaOrRecordEnd) ∧ Leads tokens
      ⟨.value key (.record (Members.ofValues done) before :: frames) (.key {}), statements⟩
      ⟨.value key (.record (Members.ofValues (done ++ members)) last :: frames) expected, statements⟩

theorem readsMembers_cons {room : Nat} {member : String × Datum} {rest : List (String × Datum)}
    {text others : List Char} (first : ReadsMember room member text)
    (later : ReadsMembers room rest others) :
    ReadsMembers room (member :: rest) (text ++ ',' :: others) := by
  obtain ⟨tokens, scanned, leads⟩ := first
  obtain ⟨more, scannedLater, leadsLater⟩ := later
  refine ⟨_, scanned_append_comma scanned scannedLater, ?_⟩
  intro statements key frames before done distinct shallow
  have split : done ++ member :: rest = done ++ [member] ++ rest := by simp
  rw [split] at distinct ⊢
  obtain ⟨middle, here⟩ := leads statements key frames before done
    (List.map_append ▸ distinct).of_append_left shallow
  obtain ⟨last, expected, ends, behind⟩ := leadsLater statements key frames middle _ distinct shallow
  exact ⟨last, expected, ends, here.append ((Leads.of_step .comma rfl).append behind)⟩

/-- A gap where a member may come. -/
theorem readsMembers_nil {room : Nat} {gap : List Char} (isGap : Gap gap) :
    ReadsMembers room [] gap := by
  obtain ⟨tokens, whole, gaps⟩ := isGap.scannedWhole
  refine ⟨tokens, whole.scanned, fun statements key frames before done _ _ =>
    ⟨before, .key {}, .inl rfl, ?_⟩⟩
  rw [List.append_nil]
  exact leads_gap gaps rfl rfl

theorem ReadsMember.members {room : Nat} {member : String × Datum} {text : List Char}
    (reads : ReadsMember room member text) : ReadsMembers room [member] text := by
  obtain ⟨tokens, scanned, leads⟩ := reads
  refine ⟨tokens, scanned, fun statements key frames before done distinct shallow => ?_⟩
  obtain ⟨last, here⟩ := leads statements key frames before done distinct shallow
  exact ⟨last, .commaOrRecordEnd, .inr rfl, here⟩

theorem ReadsMembers.record {room : Nat} {members : List (String × Datum)} {inner : List Char}
    (distinct : (members.map (·.1)).Nodup) (reads : ReadsMembers room members inner) :
    ReadsValue (room + 1) (tableDatum members) (['\x7b'] ++ inner ++ ['\x7d']) := by
  obtain ⟨tokens, scanned, leads⟩ := reads
  refine readsValue_record scanned fun statements key frames shallow => ?_
  obtain ⟨last, expected, ends, inside⟩ := leads statements key frames key [] distinct shallow
  exact ⟨last, expected, ends, inside⟩

mutual
theorem Written.reads : ∀ {room : Nat} {datum : Datum} {text : List Char},
    Written room datum text → ReadsValue room datum text
  | _, _, _, .truth room true =>
    readsValue_of_atom (by decide) (forall_mem_of_all (by decide)) (by decide) rfl
  | _, _, _, .truth room false =>
    readsValue_of_atom (by decide) (forall_mem_of_all (by decide)) (by decide) rfl
  | _, _, _, .count room small =>
    readsValue_of_atom Nat.toDigits_ne_nil
      (fun _ member => isBareCharacter_of_isDigit (Text.isDigit_of_mem_toDigits member))
      (fun member => Bool.noConfusion (Text.isDigit_of_mem_toDigits member))
      (Scalar.ofAtom_toDigits small)
  | _, _, _, .line room spelled =>
    readsValue_of_token (scanned_line spelled) (fun _ _ _ => rfl) (by simp)
  | _, _, _, .lines room spelled opened =>
    readsValue_of_token (scanned_lines spelled opened) (fun _ _ _ => rfl) (by simp)
  | _, _, _, .list written => (WrittenItems.reads written).list
  | _, _, _, .record distinct written => (WrittenMembers.reads written).record distinct

theorem WrittenItems.reads : ∀ {room : Nat} {items : List Datum} {text : List Char},
    WrittenItems room items text → ReadsItems room items text
  | _, _, _, .none isGap => readsItems_nil isGap
  | _, _, _, .last written => (WrittenItem.reads written).items
  | _, _, _, .more written later =>
    readsItems_cons (WrittenItem.reads written) (WrittenItems.reads later)

theorem WrittenItem.reads : ∀ {room : Nat} {item : Datum} {text : List Char},
    WrittenItem room item text → ReadsItem room item text
  | _, _, _, .item gap written gapAfter => readsItem_of_value gap (Written.reads written) gapAfter

theorem WrittenMembers.reads : ∀ {room : Nat} {members : List (String × Datum)} {text : List Char},
    WrittenMembers room members text → ReadsMembers room members text
  | _, _, _, .none isGap => readsMembers_nil isGap
  | _, _, _, .last written => (WrittenMember.reads written).members
  | _, _, _, .more written later =>
    readsMembers_cons (WrittenMember.reads written) (WrittenMembers.reads later)

theorem WrittenMember.reads : ∀ {room : Nat} {member : String × Datum} {text : List Char},
    WrittenMember room member text → ReadsMember room member text
  | _, _, _, .member gap spelled blanksKey blanksValue written gapAfter =>
    readsMember_of_value gap spelled blanksKey blanksValue (Written.reads written) gapAfter
end

end CommandCompletion.Toml
