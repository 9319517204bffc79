import CommandCompletion.Proofs.Toml.Written

/-!
# Documents written in TOML

A statement is an assignment to a name, a header in brackets, or a header in double brackets
(`SpelledStatement`). A document has at most one statement on a line, with blanks around it and a
comment behind it, and the last line need not end (`WrittenLines`). The statements that are read are
the ones that are written, and the document says what they make up (`read_of_lines`).
-/

set_option autoImplicit false

namespace CommandCompletion.Toml

open Reading

/-! ## Statements -/

/-- The ways of writing a statement. -/
inductive SpelledStatement : Statement → List Char → Prop where
  | assignment {name : String} {value : Datum} {key blanks start text : List Char}
      (spelled : SpelledName name key) (blanksKey : Blanks blanks) (blanksValue : Blanks start)
      (written : Written maximalDepth value text) :
      SpelledStatement (.assignment ⟨[], name⟩ value) (key ++ blanks ++ ['='] ++ start ++ text)
  | table {key : Key} {text before after : List Char} (spelled : SpelledKey key text)
      (blanks : Blanks before) (blanksAfter : Blanks after) :
      SpelledStatement (.table key) (['['] ++ before ++ text ++ after ++ [']'])
  | oneMore {key : Key} {text before after : List Char} (spelled : SpelledKey key text)
      (blanks : Blanks before) (blanksAfter : Blanks after) :
      SpelledStatement (.oneMore key) (['[', '['] ++ before ++ text ++ after ++ [']', ']'])

/-- A text is scanned as tokens that lead from the start of a line to the end of the statement. -/
def ReadsStatement (statement : Statement) (text : List Char) : Prop :=
  ∃ tokens, Scanned text tokens ∧ ∀ statements,
    Leads tokens ⟨.start, statements⟩ ⟨.finished, statement :: statements⟩

theorem readsStatement_assignment {name : String} {value : Datum}
    {key blanks start text : List Char} (spelled : SpelledName name key)
    (blanksKey : Blanks blanks) (blanksValue : Blanks start)
    (reads : ReadsValue maximalDepth value text) :
    ReadsStatement (.assignment ⟨[], name⟩ value) (key ++ blanks ++ ['='] ++ start ++ text) := by
  obtain ⟨tokens, scanned, leads⟩ := reads
  obtain ⟨token, named, isName, reading⟩ := spelled.scanned
  have equals : ScannedWhole ['='] [.equals] := scannedWhole_mark rfl
  have front := (named.append_gap blanksKey.scannedWhole
    fun _ => blanksKey.isDelimiter_head).append_whole rfl equals
  refine ⟨_, (front.append blanksValue.scannedWhole).append_scanned scanned, fun statements => ?_⟩
  have keyStep : step ⟨.start, statements⟩ token = ⟨.key ⟨[name], true⟩, statements⟩ := by
    have read := reading [] (by decide)
    obtain ⟨characters, rfl | rfl⟩ := isName <;> simp [step, read]
  have equalsStep : step ⟨.key ⟨[name], true⟩, statements⟩ .equals =
      ⟨.value ⟨[], name⟩ [] .value, statements⟩ := rfl
  have keyed := (Leads.of_step token keyStep).append (leads_blanks blanks rfl)
  have assigned := (keyed.append (.of_step .equals equalsStep)).append (leads_blanks start rfl)
  exact assigned.append (leads statements ⟨[], name⟩ [] .value .value (by rw [List.length_nil]; omega))

theorem step_header {key : Key} {text : List Char} (spelled : SpelledKey key text)
    (several : Bool) (statements : List Statement) :
    step ⟨.header several {}, statements⟩ (.atom text) =
      ⟨.header several ⟨key.name :: key.path.reverse, true⟩, statements⟩ := by
  simp [step, stepHeader, spelled.scanned.2]

theorem key?_eq (key : Key) : KeyReading.key? ⟨key.name :: key.path.reverse, true⟩ = some key := by
  simp [KeyReading.key?]

theorem readsStatement_table {key : Key} {text before after : List Char}
    (spelled : SpelledKey key text) (blanks : Blanks before) (blanksAfter : Blanks after) :
    ReadsStatement (.table key) (['['] ++ before ++ text ++ after ++ [']']) := by
  have opened : ScannedWhole ['['] [.openList] := scannedWhole_mark rfl
  have closed : ScannedWhole [']'] [.closeList] := scannedWhole_mark rfl
  have front := ((opened.append blanks.scannedWhole).append_scanned spelled.scanned.1).append_gap
    blanksAfter.scannedWhole fun _ => blanksAfter.isDelimiter_head
  refine ⟨_, (front.append_whole rfl closed).scanned, fun statements => ?_⟩
  -- A blank right behind the bracket shows that no second one follows.
  have opens : Leads ([.openList] ++ List.replicate before.length .blank ++ [.atom text])
      ⟨.start, statements⟩ ⟨.header false ⟨key.name :: key.path.reverse, true⟩, statements⟩ := by
    have bracket : Leads [.openList] ⟨.start, statements⟩ ⟨.bracket, statements⟩ := rfl
    cases before with
    | nil =>
      refine bracket.append (.of_step _ ?_)
      simp [step, stepHeader, spelled.scanned.2]
    | cons c rest =>
      have blank : Leads [.blank] ⟨.bracket, statements⟩ ⟨.header false {}, statements⟩ := rfl
      exact (bracket.append (blank.append (leads_blanks rest rfl))).append
        (.of_step _ (step_header spelled false statements))
  refine (opens.append (leads_blanks after rfl)).append (.of_step _ ?_)
  simp [step, stepHeader, key?_eq, finish]

theorem readsStatement_oneMore {key : Key} {text before after : List Char}
    (spelled : SpelledKey key text) (blanks : Blanks before) (blanksAfter : Blanks after) :
    ReadsStatement (.oneMore key) (['[', '['] ++ before ++ text ++ after ++ [']', ']']) := by
  have opened : ScannedWhole ['['] [.openList] := scannedWhole_mark rfl
  have closed : ScannedWhole [']'] [.closeList] := scannedWhole_mark rfl
  have front := (((opened.append opened).append blanks.scannedWhole).append_scanned
    spelled.scanned.1).append_gap blanksAfter.scannedWhole fun _ => blanksAfter.isDelimiter_head
  refine ⟨_, (front.append_whole rfl (closed.append closed)).scanned, fun statements => ?_⟩
  have opens : Leads ([.openList] ++ [.openList]) ⟨.start, statements⟩
      ⟨.header true {}, statements⟩ := rfl
  have closes : Leads ([.closeList] ++ [.closeList])
      ⟨.header true ⟨key.name :: key.path.reverse, true⟩, statements⟩
      ⟨.finished, .oneMore key :: statements⟩ := by
    have first : step ⟨.header true ⟨key.name :: key.path.reverse, true⟩, statements⟩ .closeList =
        ⟨.closing key, statements⟩ := by
      simp [step, stepHeader, key?_eq]
    exact (Leads.of_step _ first).append rfl
  exact (((opens.append (leads_blanks before rfl)).append
    (.of_step _ (step_header spelled true statements))).append (leads_blanks after rfl)).append closes

theorem SpelledStatement.reads {statement : Statement} {text : List Char}
    (spelled : SpelledStatement statement text) : ReadsStatement statement text := by
  cases spelled with
  | assignment spelled blanksKey blanksValue written =>
    exact readsStatement_assignment spelled blanksKey blanksValue written.reads
  | table spelled blanks blanksAfter => exact readsStatement_table spelled blanks blanksAfter
  | oneMore spelled blanks blanksAfter => exact readsStatement_oneMore spelled blanks blanksAfter

/-! ## Lines -/

/-- The ways of writing statements on lines. -/
inductive WrittenLines : List Statement → List Char → Prop where
  | finish {blanks comment : List Char} (isBlank : Blanks blanks) (remark : Comment comment) :
      WrittenLines [] (blanks ++ comment)
  | last {statement : Statement} {before text after comment : List Char} (blanks : Blanks before)
      (spelled : SpelledStatement statement text) (blanksAfter : Blanks after)
      (remark : Comment comment) : WrittenLines [statement] (before ++ text ++ after ++ comment)
  | empty {statements : List Statement} {blanks comment lineEnd others : List Char}
      (isBlank : Blanks blanks) (remark : Comment comment) (ends : LineEnd lineEnd)
      (later : WrittenLines statements others) :
      WrittenLines statements (blanks ++ (comment ++ lineEnd) ++ others)
  | line {statement : Statement} {rest : List Statement}
      {before text after comment lineEnd others : List Char} (blanks : Blanks before)
      (spelled : SpelledStatement statement text) (blanksAfter : Blanks after)
      (remark : Comment comment) (ends : LineEnd lineEnd) (later : WrittenLines rest others) :
      WrittenLines (statement :: rest) (before ++ text ++ after ++ (comment ++ lineEnd) ++ others)

/-- A statement with blanks around it. -/
theorem readsStatement_between {statement : Statement} {before text after : List Char}
    (blanks : Blanks before) (spelled : SpelledStatement statement text)
    (blanksAfter : Blanks after) : ReadsStatement statement (before ++ text ++ after) := by
  obtain ⟨tokens, scanned, leads⟩ := spelled.reads
  refine ⟨_, (blanks.scannedWhole.append_scanned scanned).append_gap blanksAfter.scannedWhole
    fun _ => blanksAfter.isDelimiter_head, fun statements => ?_⟩
  exact ((leads_blanks before rfl).append (leads statements)).append (leads_blanks after rfl)

theorem head?_comment_lineEnd {comment lineEnd : List Char} (remark : Comment comment)
    (ends : LineEnd lineEnd) :
    ∃ c rest, comment ++ lineEnd = c :: rest ∧ Scan.isDelimiter c = true := by
  cases remark with
  | none => cases ends <;> exact ⟨_, _, rfl, rfl⟩
  | some plain => exact ⟨_, _, rfl, rfl⟩

/-- A text whose tokens, those of a comment at its end left out, lead through the given statements. -/
def ReadsLines (statements : List Statement) (text : List Char) : Prop :=
  ∃ body comment tokens, text = body ++ comment ∧ Comment comment ∧ Scanned body tokens ∧
    ∀ before, ∃ place, (place = .start ∨ place = .finished) ∧
      Leads tokens ⟨.start, before⟩ ⟨place, statements.reverse ++ before⟩

/-- A line on which nothing is stated. -/
theorem readsLines_empty {statements : List Statement} {blanks comment lineEnd others : List Char}
    (isBlank : Blanks blanks) (remark : Comment comment) (ends : LineEnd lineEnd)
    (later : ReadsLines statements others) :
    ReadsLines statements (blanks ++ (comment ++ lineEnd) ++ others) := by
  obtain ⟨body, last, tokens, rfl, remarkLast, scanned, leads⟩ := later
  have first := isBlank.scannedWhole.append (remark.scannedWhole ends)
  refine ⟨_, last, _, (List.append_assoc _ _ _).symm, remarkLast, first.append_scanned scanned, ?_⟩
  intro before
  obtain ⟨place, ended, reached⟩ := leads before
  exact ⟨place, ended, ((leads_blanks blanks rfl).append (Leads.of_step .newLine rfl)).append reached⟩

/-- A statement on a line of its own. -/
theorem readsLines_line {statement : Statement} {rest : List Statement}
    {text comment lineEnd others : List Char} (reads : ReadsStatement statement text)
    (remark : Comment comment) (ends : LineEnd lineEnd) (later : ReadsLines rest others) :
    ReadsLines (statement :: rest) (text ++ (comment ++ lineEnd) ++ others) := by
  obtain ⟨body, last, more, rfl, remarkLast, scannedLater, leadsLater⟩ := later
  obtain ⟨tokens, scanned, leads⟩ := reads
  obtain ⟨c, line, isLine, delimits⟩ := head?_comment_lineEnd remark ends
  have lineWhole := remark.scannedWhole ends
  rw [isLine] at lineWhole ⊢
  have first := scanned.append_whole delimits lineWhole
  refine ⟨_, last, _, (List.append_assoc _ _ _).symm, remarkLast,
    first.append_scanned scannedLater, fun before => ?_⟩
  obtain ⟨place, ended, reached⟩ := leadsLater (statement :: before)
  refine ⟨place, ended, ?_⟩
  have listed : (statement :: rest).reverse ++ before = rest.reverse ++ statement :: before := by
    simp
  rw [listed]
  exact ((leads before).append (Leads.of_step .newLine rfl)).append reached

theorem WrittenLines.reads {statements : List Statement} {text : List Char}
    (written : WrittenLines statements text) : ReadsLines statements text := by
  induction written with
  | @finish blanks comment isBlank remark =>
    exact ⟨blanks, comment, _, rfl, remark, isBlank.scannedWhole.scanned, fun before =>
      ⟨.start, .inl rfl, leads_blanks blanks rfl⟩⟩
  | @last statement before text after comment blanks spelled blanksAfter remark =>
    obtain ⟨tokens, scanned, leads⟩ := readsStatement_between blanks spelled blanksAfter
    exact ⟨_, comment, tokens, rfl, remark, scanned, fun before => ⟨.finished, .inr rfl, leads before⟩⟩
  | empty isBlank remark ends _ ih => exact readsLines_empty isBlank remark ends ih
  | line blanks spelled blanksAfter remark ends _ ih =>
    exact readsLines_line (readsStatement_between blanks spelled blanksAfter) remark ends ih

/-- A comment at the end of the text gives no token. -/
theorem tokens_append_comment {body comment : List Char} {tokens : List Token}
    (scanned : Scanned body tokens) (remark : Comment comment) :
    Toml.tokens (body ++ comment) = tokens := by
  cases remark with
  | none => rw [List.append_nil, tokens_eq_of_scanned scanned]
  | @some inside plain =>
    have complete : Scan.settled (body.foldl Scan.step {}) = ⟨.between, tokens.reverse ++ []⟩ :=
      scanned []
    have opened : Scan.step ⟨.between, tokens.reverse ++ []⟩ '#' =
        ⟨.comment, tokens.reverse ++ []⟩ := rfl
    rw [Toml.tokens, List.foldl_append, List.foldl_cons, Scan.step_delimiter complete rfl, opened,
      foldl_step_comment plain]
    simp [Scan.result]

/-- The statements that are read are the ones that are written. -/
theorem ReadsLines.statements_eq {written : List Statement} {text : List Char}
    (lines : ReadsLines written text) : statements (Toml.tokens text) = some written := by
  obtain ⟨body, comment, tokens, rfl, remark, scanned, leads⟩ := lines
  obtain ⟨place, ended, reached⟩ := leads []
  rw [tokens_append_comment scanned remark, statements]
  have read : tokens.foldl step {} = ⟨place, written.reverse ++ []⟩ := reached
  rw [read, List.append_nil]
  rcases ended with rfl | rfl <;> simp [result]

/-! ## Documents -/

/-- The statements of assignments, and those of groups behind them. -/
def statementsOf (assignments : List (Key × Datum)) (parts : List Section) : List Statement :=
  assignments.map (fun assignment => .assignment assignment.1 assignment.2) ++
    parts.flatMap fun part =>
      (if part.several then .oneMore part.key else .table part.key) ::
        part.assignments.map fun assignment => .assignment assignment.1 assignment.2

theorem sections_map_append (assignments : List (Key × Datum)) (statements : List Statement) :
    sections (assignments.map (fun assignment => .assignment assignment.1 assignment.2) ++
      statements) = (assignments ++ (sections statements).1, (sections statements).2) := by
  induction assignments with
  | nil => rfl
  | cons assignment rest ih =>
    rw [List.map_cons, List.cons_append, sections, ih]
    rfl

/-- The statements of assignments and groups are grouped as they were. -/
theorem sections_statementsOf (assignments : List (Key × Datum)) (parts : List Section) :
    sections (statementsOf assignments parts) = (assignments, parts) := by
  induction parts generalizing assignments with
  | nil =>
    rw [statementsOf, List.flatMap_nil, sections_map_append]
    simp [sections]
  | cons part rest ih =>
    obtain ⟨several, key, own⟩ := part
    have grouped := ih own
    rw [statementsOf] at grouped
    rw [statementsOf, List.flatMap_cons, sections_map_append, List.cons_append]
    cases several <;> simp [sections, grouped]

/-- A document says the table that its assignments and groups make up. -/
theorem read_of_lines {assignments : List (Key × Datum)} {parts : List Section} {text : List Char}
    (lines : ReadsLines (statementsOf assignments parts) (withoutMark text)) {root built : Members}
    (assigned : Members.assignAll assignments [] = some root)
    (applied : parts.foldlM (fun root part => part.apply root) root = some built) :
    read text = some built.datum := by
  have assembled : assemble (statementsOf assignments parts) = some built := by
    rw [assemble, sections_statementsOf]
    simp only [assigned]
    exact applied
  simp [read, lines.statements_eq, assembled]

end CommandCompletion.Toml
