import CommandCompletion.Proofs.Toml.Quoting
import CommandCompletion.Toml.Read

/-!
# Documents as they are printed

A printed document is read as the groups of statements of its tables, one group for each table in
the order of the tables (`PrintedTable.read_document`). This asks two things of a table
(`PrintedTable.IsReadable`). Its members have names that need no quotes, and its header has one such
name or two names, of which only the first one has to need no quotes.

A bare second name is part of the same atom as the first one. A quoted second name is a token of its
own behind an atom that ends in a dot, so nothing may come in between and a date at this place would
not be mistaken for the beginning of a date with its time.
-/

set_option autoImplicit false

namespace CommandCompletion.Toml

open Reading

/-! ## Headers -/

/-- Nothing with a dot in it has the form of a date. -/
theorem isDateForm_eq_false_of_dot {text : List Char} (dotted : '.' ∈ text) :
    isDateForm text = false := by
  rw [Bool.eq_false_iff]
  intro date
  rw [isDateForm, Bool.and_eq_true, beq_iff_eq] at date
  obtain ⟨length, fits⟩ := date
  have paired : (text.zip "0000-00-00".toList).map Prod.fst = text :=
    List.map_fst_zip (Nat.le_of_eq length)
  rw [← paired] at dotted
  obtain ⟨⟨c, form⟩, member, rfl⟩ := List.mem_map.mp dotted
  have fit := List.all_eq_true.mp fits _ member
  dsimp only at fit
  split at fit <;> cases fit

/-- An atom may stand right in front of a string. -/
theorem scanned_atom_append_line {atom : List Char} (nonempty : atom ≠ [])
    (inside : ∀ c ∈ atom, isAtomic c = true) {quote : Quote} {text pieces : List Char}
    (spelled : SpelledLine quote text pieces) :
    Scanned (atom ++ (quote.character :: pieces ++ [quote.character])) [.atom atom, .text text] := by
  intro before
  cases atom with
  | nil => exact absurd rfl nonempty
  | cons c rest =>
    obtain ⟨here, later⟩ := List.forall_mem_cons.mp inside
    have opens : Scan.step ⟨.between, before⟩ c = ⟨.atom [c], before⟩ := by
      simp only [isAtomic, Bool.and_eq_true, Option.isNone_iff_eq_none] at here
      simp [Scan.step, Scan.stepBetween, here.1, here.2]
    -- The quote ends the atom, whether this has the form of a date or not.
    have ends : Scan.step ⟨.atom (rest.reverse ++ [c]), before⟩ quote.character =
        Scan.step ⟨.between, .atom (c :: rest) :: before⟩ quote.character := by
      have notBlank : quote.character ≠ ' ' := by
        cases quote <;> decide
      have delimits : ((Scan.mark? quote.character).isSome ||
          (Scan.opening? quote.character).isSome) = true := by
        cases quote <;> rfl
      simp only [Scan.step, Scan.stepAtom, notBlank, false_and, if_false, delimits, if_true]
      simp [Scan.emit]
    have string := scanned_line spelled (.atom (c :: rest) :: before)
    rw [List.cons_append, List.foldl_cons, scanner_step, scanner_between] at string
    rw [List.cons_append, List.foldl_cons, List.foldl_append, scanner_step, scanner_between, opens,
      foldl_step_atom later, List.cons_append, List.foldl_cons, ends, string]
    rfl

/-- A name that needs no quotes is printed without them. -/
theorem printedName_of_bare {name : String} (bare : isBareName name = true) :
    printedName name = name.toList := by
  obtain ⟨nonempty, characters, _⟩ := isBareName_iff.mp bare
  have fits : (!name.toList.isEmpty && name.toList.all isBareCharacter) = true := by
    rw [Bool.and_eq_true, Bool.not_eq_true', List.isEmpty_eq_false_iff, List.all_eq_true]
    exact ⟨nonempty, characters⟩
  exact if_pos fits

/-- A text is scanned as tokens that lead from the bracket of a header to the end of its key. -/
def ReadsKey (key : Key) (text : List Char) : Prop :=
  ∃ tokens, Scanned text tokens ∧ ∀ statements,
    Leads tokens ⟨.bracket, statements⟩
      ⟨.header false ⟨key.name :: key.path.reverse, true⟩, statements⟩

theorem SpelledKey.readsKey {key : Key} {text : List Char} (spelled : SpelledKey key text) :
    ReadsKey key text := by
  obtain ⟨scanned, read⟩ := spelled.scanned
  refine ⟨_, scanned, fun statements => .of_step _ ?_⟩
  simp [step, stepHeader, read]

/-- A header without blanks. -/
theorem ReadsKey.readsStatement {key : Key} {text : List Char} (reads : ReadsKey key text) :
    ReadsStatement (.table key) (['['] ++ text ++ [']']) := by
  obtain ⟨tokens, scanned, leads⟩ := reads
  have opened : ScannedWhole ['['] [.openList] := scannedWhole_mark rfl
  have closed : ScannedWhole [']'] [.closeList] := scannedWhole_mark rfl
  have whole := (opened.append_scanned scanned).append_whole rfl closed
  refine ⟨_, whole.scanned, fun statements => ?_⟩
  have bracket : Leads [.openList] ⟨.start, statements⟩ ⟨.bracket, statements⟩ := rfl
  refine (bracket.append (leads statements)).append (.of_step _ ?_)
  simp [step, stepHeader, key?_eq, finish]

/-- A single name that needs no quotes. -/
theorem readsKey_printedPath_single {name : String} (bare : isBareName name = true)
    (noHyphen : '-' ∉ name.toList) : ReadsKey ⟨[], name⟩ (printedPath [name]) := by
  have each : ∀ part ∈ [] ++ [name], isBareName part = true ∧ '-' ∉ part.toList :=
    List.forall_mem_singleton.mpr ⟨bare, noHyphen⟩
  have spelled : SpelledKey ⟨[], name⟩ name.toList := by
    simpa using spelledKey_of_bare each (by decide)
  rw [printedPath, printedName_of_bare bare]
  exact spelled.readsKey

/-- A name that needs no quotes, and any name behind it. -/
theorem readsKey_printedPath_pair {first : String} (bare : isBareName first = true)
    (second : String) : ReadsKey ⟨[first], second⟩ (printedPath [first, second]) := by
  obtain ⟨nonempty, characters, _⟩ := isBareName_iff.mp bare
  have printed : printedPath [first, second] = first.toList ++ ['.'] ++ printedName second := by
    rw [printedPath, printedPath, printedName_of_bare bare]
    exact fun impossible => List.cons_ne_nil _ _ impossible
  rw [printed]
  rcases printedName_cases second with ⟨present, bareSecond, same⟩ | ⟨quote, pieces, spelled, same⟩
  · have spelled : SpelledKey ⟨[first], second⟩ (first.toList ++ ['.'] ++ second.toList) := by
      have parts : ∀ part ∈ [first.toList] ++ [second.toList], part ≠ [] ∧
          ∀ c ∈ part, isBareCharacter c = true := by
        intro part member
        rcases List.mem_pair.mp member with rfl | rfl
        · exact ⟨nonempty, characters⟩
        · exact ⟨present, bareSecond⟩
      have joined := SpelledKey.joined (fun part member => (parts part member).1)
        (fun part member => (parts part member).2) (by simp [KeyReading.maximalLength])
        (isDateForm_eq_false_of_dot (by simp))
      simpa using joined
    rw [same]
    exact spelled.readsKey
  · rw [same]
    have atomic : ∀ c ∈ first.toList ++ ['.'], isAtomic c = true := by
      intro c member
      rcases List.mem_append.mp member with inName | dot
      · exact isAtomic_of_bare (characters c inName)
      · rw [List.mem_singleton.mp dot]
        rfl
    refine ⟨_, scanned_atom_append_line (by simp) atomic spelled, fun statements => ?_⟩
    have dotted : KeyReading.atom {} (first.toList ++ ['.']) = some ⟨[first], false⟩ := by
      have pieces : Path.splitFrom '.' [] (first.toList ++ ['.']) = [first.toList, []] :=
        KeyReading.splitFrom_append (KeyReading.dot_notMem_of_bare characters) [] []
      have named : KeyReading.bareName {} first.toList = some ⟨[first], true⟩ := by
        rw [KeyReading.bareName_eq nonempty characters, KeyReading.name_eq (by decide),
          String.ofList_toList]
      rw [KeyReading.atom, pieces]
      simp only [named]
      rfl
    have behindDot : Leads [.atom (first.toList ++ ['.'])] ⟨.bracket, statements⟩
        ⟨.header false ⟨[first], false⟩, statements⟩ := by
      refine .of_step _ ?_
      simp [step, stepHeader, KeyReading.token?, dotted]
    refine behindDot.append (.of_step _ ?_)
    simp [step, stepHeader, KeyReading.token?, KeyReading.name, KeyReading.maximalLength]

/-! ## Tables -/

/-- What a printed value says. -/
def PrintedValue.datum : PrintedValue → Datum
  | .text value => .text value
  | .truth value => .truth value

theorem written_characters (room : Nat) (value : PrintedValue) :
    Written room value.datum value.characters := by
  cases value with
  | text value => exact written_quoted room value
  | truth value => cases value <;> exact .truth room _

namespace PrintedTable

/-- What the members of a table say. -/
def memberData (table : PrintedTable) : List (String × Datum) :=
  table.members.map fun member => (member.1, member.2.datum)

/-- The key of the header of a table. -/
def key (table : PrintedTable) : Key :=
  ⟨table.path.dropLast, table.path.getLastD ""⟩

/-- The group of statements that a table is printed as. -/
def group (table : PrintedTable) : Section :=
  ⟨false, table.key, Members.simple table.memberData⟩

/-- The header can be read, and the members need no quotes. -/
structure IsReadable (table : PrintedTable) : Prop where
  header : ReadsKey table.key (printedPath table.path)
  bare : ∀ member ∈ table.members, isBareName member.1 = true

/-- The statements of the members. -/
def memberStatements (members : List (String × PrintedValue)) : List Statement :=
  members.map fun member => .assignment ⟨[], member.1⟩ member.2.datum

theorem readsLines_memberLine {member : String × PrintedValue} {statements : List Statement}
    {others : List Char} (bare : isBareName member.1 = true)
    (later : ReadsLines statements others) :
    ReadsLines (.assignment ⟨[], member.1⟩ member.2.datum :: statements)
      (memberLine member ++ others) := by
  have blank : Blanks [' '] := forall_mem_of_all (by decide)
  have assigned := (SpelledStatement.assignment (spelledName_of_bare bare) blank blank
    (written_characters _ member.2)).reads
  have line := readsLines_line assigned .none .lineFeed later
  rw [memberLine, printedName_of_bare bare]
  simpa using line

theorem readsLines_members {members : List (String × PrintedValue)} {statements : List Statement}
    {others : List Char} (bare : ∀ member ∈ members, isBareName member.1 = true)
    (later : ReadsLines statements others) :
    ReadsLines (memberStatements members ++ statements) (members.flatMap memberLine ++ others) := by
  induction members with
  | nil => exact later
  | cons member rest ih =>
    obtain ⟨here, behind⟩ := List.forall_mem_cons.mp bare
    rw [List.flatMap_cons, List.append_assoc]
    exact readsLines_memberLine here (ih behind)

/-- The statements of a table. -/
theorem statementsOf_group (table : PrintedTable) (parts : List Section) :
    statementsOf [] (table.group :: parts) =
      .table table.key :: (memberStatements table.members ++ statementsOf [] parts) := by
  simp [statementsOf, group, memberStatements, memberData, Members.simple]

theorem readsLines_characters {table : PrintedTable} {parts : List Section} {others : List Char}
    (readable : table.IsReadable) (later : ReadsLines (statementsOf [] parts) others) :
    ReadsLines (statementsOf [] (table.group :: parts)) (table.characters ++ others) := by
  have members := readsLines_members readable.bare later
  have header := readsLines_line readable.header.readsStatement .none .lineFeed members
  rw [statementsOf_group, characters]
  simpa using header

theorem readsLines_nil : ReadsLines [] [] :=
  (WrittenLines.finish Blanks.nil .none).reads

/-- **A document is read as the groups of its tables.** -/
theorem readsLines_document {tables : List PrintedTable}
    (readable : ∀ table ∈ tables, table.IsReadable) :
    ReadsLines (statementsOf [] (tables.map group)) (document tables) := by
  induction tables with
  | nil => exact readsLines_nil
  | cons table rest ih =>
    obtain ⟨here, behind⟩ := List.forall_mem_cons.mp readable
    have later := ih behind
    cases rest with
    | nil =>
      have last : ReadsLines (statementsOf [] [table.group]) (table.characters ++ []) :=
        readsLines_characters here readsLines_nil
      rwa [List.append_nil] at last
    | cons next others =>
      have apart := readsLines_empty Blanks.nil .none .lineFeed later
      rw [document, List.append_assoc]
      · exact readsLines_characters here apart
      · exact fun impossible => List.cons_ne_nil _ _ impossible

/-- A document does not begin with a byte order mark. -/
theorem withoutMark_document (tables : List PrintedTable) :
    withoutMark (document tables) = document tables := by
  match tables with
  | [] => rfl
  | [_] => rfl
  | _ :: _ :: _ => rfl

/-- A document says the table that the groups of its tables make up. -/
theorem read_document {tables : List PrintedTable} (readable : ∀ table ∈ tables, table.IsReadable)
    {built : Members}
    (applied : (tables.map group).foldlM (fun root part => part.apply root) [] = some built) :
    read (document tables) = some built.datum := by
  have lines := readsLines_document readable
  rw [← withoutMark_document] at lines
  exact read_of_lines lines rfl applied

end PrintedTable

end CommandCompletion.Toml
