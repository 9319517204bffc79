import CommandCompletion.Toml.Read
import Mathlib.Data.List.Induction
import Mathlib.Data.List.Nodup

/-!
# Tables made by statements

Assignments to different names without dots make a table of values, in whatever order they stand
(`Members.assignAll_simple`). A group of statements behind a header changes only one member of the
root table, the first name of its key, and what becomes of the member depends on nothing but the
member (`Section.change`). Groups for different members may therefore be mixed: the root table
afterwards holds what each member has become by its own groups (`foldlM_apply`).

A header in double brackets adds one more table to a list, and groups under the same name go on with
the last table of the list. Headers in brackets that have all but their last name in common declare
the members of one table, which has no header of its own (`changeAll_under_new`).
-/

set_option autoImplicit false

namespace CommandCompletion.Toml

/-! ## Tables of values -/

/-- What a table with the given members says, which are listed in the order of their names. -/
def tableDatum (members : List (String × Datum)) : Datum :=
  .record (Table.ofList members).entries true

namespace Members

/-- The table of the given values. -/
def ofValues (members : List (String × Datum)) : Members :=
  ((Table.ofList members).map Draft.value).entries

theorem membersData_map_value (entries : List (String × Datum)) :
    membersData (entries.map fun entry => (entry.1, Draft.value entry.2)) = entries := by
  induction entries with
  | nil => rfl
  | cons entry rest ih =>
    rw [List.map_cons, membersData, ih, Draft.datum]

theorem map_fst_membersData (members : Members) :
    (membersData members).map (·.1) = members.map (·.1) := by
  induction members with
  | nil => rfl
  | cons member rest ih =>
    obtain ⟨name, draft⟩ := member
    rw [membersData, List.map_cons, List.map_cons, ih]

theorem lookup_membersData (members : Members) (name : String) :
    (membersData members).lookup name = (members.lookup name).map Draft.datum := by
  induction members with
  | nil => rfl
  | cons member rest ih =>
    obtain ⟨first, draft⟩ := member
    rw [membersData, List.lookup_cons, List.lookup_cons, ih]
    cases name == first <;> rfl

theorem datum_ofValues (members : List (String × Datum)) :
    (ofValues members).datum = tableDatum members :=
  congrArg (Datum.record · true) (membersData_map_value _)

theorem lookup_ofValues {members : List (String × Datum)} (distinct : (members.map (·.1)).Nodup)
    (name : String) : (ofValues members).lookup name = (members.lookup name).map .value := by
  have listed : (Table.ofList members).get? name = members.lookup name := by
    refine Option.ext fun value => ?_
    rw [Table.get?_ofList_eq_some_iff distinct, Table.lookup_eq_some_iff_mem distinct]
  have mapped := Table.get?_map Draft.value (Table.ofList members) name
  rw [listed] at mapped
  exact mapped

theorem insertEntry_map {α β : Type} (image : α → β) (key : String) (value : α)
    (entries : List (String × α)) :
    Table.insertEntry key (image value) (entries.map fun entry => (entry.1, image entry.2)) =
      (Table.insertEntry key value entries).map fun entry => (entry.1, image entry.2) := by
  induction entries with
  | nil => rfl
  | cons entry rest ih =>
    simp only [List.map_cons, Table.insertEntry, ih]
    split
    · rfl
    · split <;> rfl

/-- One more value. -/
theorem insertEntry_ofValues (members : List (String × Datum)) (name : String) (value : Datum) :
    Table.insertEntry name (.value value) (ofValues members) =
      ofValues (members ++ [(name, value)]) := by
  have grown : Table.ofList (members ++ [(name, value)]) = (Table.ofList members).insert name value := by
    rw [Table.ofList, List.foldl_append]
    rfl
  rw [ofValues, ofValues, grown]
  exact insertEntry_map Draft.value name value _

theorem increasing_ofValues (members : List (String × Datum)) :
    (ofValues members).Pairwise fun earlier later => earlier.1 < later.1 :=
  ((Table.ofList members).map Draft.value).increasing

theorem assign_ofValues {members : List (String × Datum)} {name : String} {value : Datum}
    (distinct : ((members ++ [(name, value)]).map (·.1)).Nodup) :
    assign [] name value (ofValues members) = some (ofValues (members ++ [(name, value)])) := by
  rw [List.map_append, List.nodup_append] at distinct
  have missing : members.lookup name = none := by
    rw [List.lookup_eq_none_iff]
    intro member found
    rw [bne_iff_ne]
    rintro rfl
    exact distinct.2.2 _ (List.mem_map.mpr ⟨_, found, rfl⟩) _ (List.mem_singleton.mpr rfl) rfl
  rw [assign, lookup_ofValues distinct.1, missing, ← insertEntry_ofValues]
  rfl

/-- The assignment of values to names without dots. -/
def simple (members : List (String × Datum)) : List (Key × Datum) :=
  members.map fun member => (⟨[], member.1⟩, member.2)

/-- Different names may be assigned values in any order. -/
theorem assignAll_simple {members : List (String × Datum)}
    (distinct : (members.map (·.1)).Nodup) :
    assignAll (simple members) [] = some (ofValues members) := by
  induction members using List.reverseRecOn with
  | nil => rfl
  | append_singleton members member ih =>
    have before := ih (List.Nodup.of_append_left (List.map_append ▸ distinct))
    rw [assignAll] at before
    rw [assignAll, simple, List.map_append, List.foldlM_append, ← simple, before]
    exact (bind_pure _).trans (assign_ofValues distinct)

end Members

/-! ## Groups of statements -/

namespace Section

/-- The member of the root table that a group changes. -/
def head (part : Section) : String :=
  part.key.path.headD part.key.name

/-- The group one table further down. -/
def under (name : String) (part : Section) : Section :=
  { part with key := ⟨name :: part.key.path, part.key.name⟩ }

/-- What the member that a group changes becomes. -/
def change (part : Section) (before : Option Draft) : Option Draft :=
  (part.apply (before.toList.map (part.head, ·))).bind (·.lookup part.head)

/-- What a header in double brackets makes of the member that it names. -/
def addTable (assignments : List (Key × Datum)) : Option Draft → Option Draft
  | none => (Members.assignAll assignments []).map (.tables · [])
  | some (.tables last before) =>
    (Members.assignAll assignments []).map (.tables · (last :: before))
  | some _ => none

/-- What a header in brackets makes of the member that it names. -/
def openTable (assignments : List (Key × Datum)) : Option Draft → Option Draft
  | none => (Members.assignAll assignments []).map (.table .declared ·)
  | some (.table .passed inner) => (Members.assignAll assignments inner).map (.table .declared ·)
  | some _ => none

/-- What a header that leads further down makes of the member that it goes through. -/
def passTable (apply : Members → Option Members) : Option Draft → Option Draft
  | none => (apply []).map (.table .passed ·)
  | some (.table origin inner) => (apply inner).map (.table origin ·)
  | some (.tables last before) => (apply last).map (.tables · before)
  | some (.value _) => none

/-- A group looks at one member and puts another one in its place. -/
theorem exists_local (part : Section) : ∃ change : Option Draft → Option Draft, ∀ root : Members,
    part.apply root = (change (root.lookup part.head)).map fun draft =>
      Table.insertEntry part.head draft root := by
  obtain ⟨several, ⟨path, name⟩, assignments⟩ := part
  cases path with
  | nil =>
    cases several with
    | true =>
      refine ⟨addTable assignments, fun root => ?_⟩
      simp only [apply, Members.changeAt, head, List.headD_nil, Members.declareOneMore, if_true]
      cases List.lookup name root with
      | none => simp [addTable, Option.map_map, Function.comp_def]
      | some draft => cases draft <;> simp [addTable, Option.map_map, Function.comp_def]
    | false =>
      refine ⟨openTable assignments, fun root => ?_⟩
      simp only [apply, Members.changeAt, head, List.headD_nil, Members.declareTable,
        Bool.false_eq_true, if_false]
      cases List.lookup name root with
      | none => simp [openTable, Option.map_map, Function.comp_def]
      | some draft =>
        cases draft with
        | table origin inner =>
          cases origin <;> simp [openTable, Option.map_map, Function.comp_def]
        | _ => simp [openTable]
  | cons first rest =>
    refine ⟨passTable (⟨several, ⟨rest, name⟩, assignments⟩ : Section).apply, fun root => ?_⟩
    simp only [apply, Members.changeAt, head, List.headD_cons]
    cases List.lookup first root with
    | none => simp [passTable, apply, Option.map_map, Function.comp_def]
    | some draft => cases draft <;> simp [passTable, apply, Option.map_map, Function.comp_def]

/-- A group changes its own member, and what this becomes depends on nothing else. -/
theorem apply_eq (part : Section) (root : Members) :
    part.apply root = (part.change (root.lookup part.head)).map fun draft =>
      Table.insertEntry part.head draft root := by
  obtain ⟨local', applies⟩ := part.exists_local
  have same : part.change (root.lookup part.head) = local' (root.lookup part.head) := by
    have alone : (((root.lookup part.head).toList.map (part.head, ·)).lookup part.head) =
        root.lookup part.head := by
      cases root.lookup part.head <;> simp
    rw [change, applies, alone]
    cases local' (root.lookup part.head) with
    | none => rfl
    | some draft => simp [Table.lookup_insertEntry]
  rw [same, applies]

/-- The groups of one member. -/
def ofMember (name : String) (parts : List Section) : List Section :=
  parts.filter (·.head = name)

/-- What a member becomes by groups that are all its own. -/
def changeAll (parts : List Section) (before : Option Draft) : Option (Option Draft) :=
  parts.foldlM (fun before part => (part.change before).map some) before

theorem changeAll_cons {part : Section} {before : Option Draft} {draft : Draft}
    (changed : part.change before = some draft) (rest : List Section) :
    changeAll (part :: rest) before = changeAll rest (some draft) := by
  rw [changeAll, List.foldlM_cons, changed]
  rfl

theorem changeAll_append (first second : List Section) (before : Option Draft) :
    changeAll (first ++ second) before = (changeAll first before).bind (changeAll second) :=
  List.foldlM_append ..

end Section

/-- **Groups for different members may be mixed.** If every member gets what its own groups make of
it, the root table holds all of this in the end. -/
theorem foldlM_apply {parts : List Section} {root : Members} {final : String → Option Draft}
    (increasing : root.Pairwise fun earlier later => earlier.1 < later.1)
    (changes : ∀ name, Section.changeAll (Section.ofMember name parts) (root.lookup name) =
      some (final name)) :
    ∃ built, parts.foldlM (fun root part => part.apply root) root = some built ∧
      (built.Pairwise fun earlier later => earlier.1 < later.1) ∧
      ∀ name, built.lookup name = final name := by
  induction parts generalizing root with
  | nil => exact ⟨root, rfl, increasing, fun name => Option.some.inj (changes name)⟩
  | cons part rest ih =>
    have own := changes part.head
    rw [Section.ofMember, List.filter_cons_of_pos (by simp), Section.changeAll, List.foldlM_cons] at own
    obtain ⟨after, first, later⟩ := Option.bind_eq_some_iff.mp own
    obtain ⟨draft, changed, rfl⟩ := Option.map_eq_some_iff.mp first
    have applied := part.apply_eq root
    rw [changed, Option.map_some] at applied
    rw [List.foldlM_cons, applied]
    refine ih (Table.increasing_insertEntry _ _ increasing) fun name => ?_
    rw [Table.lookup_insertEntry]
    split
    · rename_i same
      subst same
      exact later
    · rename_i other
      have elsewhere := changes name
      rwa [Section.ofMember, List.filter_cons_of_neg (by simpa using Ne.symm other)] at elsewhere

/-- Names that head no group have no groups. -/
theorem Section.ofMember_eq_nil {parts : List Section} {names : List String}
    (heads : ∀ part ∈ parts, part.head ∈ names) {name : String} (unlisted : name ∉ names) :
    Section.ofMember name parts = [] := by
  rw [Section.ofMember, List.filter_eq_nil_iff]
  intro part member same
  exact unlisted (of_decide_eq_true same ▸ heads part member)

/-- A table of values with groups for the members of some names. The other members stay as they
are. -/
theorem foldlM_apply_ofValues {members : List (String × Datum)} {parts : List Section}
    {names : List String} (distinct : (members.map (·.1)).Nodup)
    (heads : ∀ part ∈ parts, part.head ∈ names)
    (total : ∀ name ∈ names, ∃ after, Section.changeAll (Section.ofMember name parts)
      ((Members.ofValues members).lookup name) = some after) :
    ∃ built, parts.foldlM (fun root part => part.apply root) (Members.ofValues members) =
        some built ∧
      ((membersData built).map (·.1)).Nodup ∧
      (∀ name after, Section.changeAll (Section.ofMember name parts)
        ((Members.ofValues members).lookup name) = some after → built.lookup name = after) ∧
      ∀ name, name ∉ names → built.lookup name = (members.lookup name).map .value := by
  have unlisted : ∀ name, name ∉ names → Section.changeAll (Section.ofMember name parts)
      ((Members.ofValues members).lookup name) = some ((members.lookup name).map .value) := by
    intro name unlisted
    rw [Section.ofMember_eq_nil heads unlisted, Members.lookup_ofValues distinct]
    rfl
  have all : ∀ name, ∃ after, Section.changeAll (Section.ofMember name parts)
      ((Members.ofValues members).lookup name) = some after := by
    intro name
    by_cases listed : name ∈ names
    · exact total name listed
    · exact ⟨_, unlisted name listed⟩
  choose final changes using all
  obtain ⟨built, applied, increasing, holds⟩ :=
    foldlM_apply (Members.increasing_ofValues members) changes
  have becomes : ∀ name after, Section.changeAll (Section.ofMember name parts)
      ((Members.ofValues members).lookup name) = some after → built.lookup name = after := by
    intro name after changed
    exact (holds name).trans (Option.some.inj ((changes name).symm.trans changed))
  refine ⟨built, applied, ?_, becomes, fun name other => becomes name _ (unlisted name other)⟩
  rw [Members.map_fst_membersData]
  exact List.pairwise_map.mpr (increasing.imp String.ne_of_lt)

/-! ## Lists of tables -/

/-- A list of tables, the latest first, which is missing as long as it has none. -/
def Draft.ofTables : List Members → Option Draft
  | [] => none
  | last :: before => some (.tables last before)

theorem tablesData_eq (before : List Members) (later : List Datum) :
    tablesData before later = before.reverse.map Members.datum ++ later := by
  induction before generalizing later with
  | nil => rfl
  | cons members rest ih =>
    rw [tablesData, ih, List.reverse_cons, List.map_append, List.append_assoc]
    rfl

/-- What a list of tables says. -/
theorem datum_tables (last : Members) (before : List Members) :
    (Draft.tables last before).datum =
      .list ((last :: before).reverse.map Members.datum) true := by
  rw [Draft.datum, tablesData_eq, List.reverse_cons, List.map_append]
  rfl

/-- One more table of the list of a name, with values assigned to names without dots. -/
def Section.oneMore (name : String) (members : List (String × Datum)) : Section :=
  ⟨true, ⟨[], name⟩, Members.simple members⟩

theorem change_oneMore {name : String} {members : List (String × Datum)}
    (distinct : (members.map (·.1)).Nodup) (tables : List Members) :
    (Section.oneMore name members).change (Draft.ofTables tables) =
      Draft.ofTables (Members.ofValues members :: tables) := by
  cases tables <;>
    simp [Section.oneMore, Section.change, Section.apply, Section.head, Members.changeAt,
      Members.declareOneMore, Members.assignAll_simple distinct, Draft.ofTables,
      Table.lookup_insertEntry]

theorem change_under {name : String} {part : Section} {last changed : Members}
    (applied : part.apply last = some changed) (before : List Members) :
    (part.under name).change (Draft.ofTables (last :: before)) =
      Draft.ofTables (changed :: before) := by
  have alone : (part.under name).apply [(name, .tables last before)] =
      (part.apply last).map fun built =>
        Table.insertEntry name (.tables built before) [(name, .tables last before)] := by
    simp only [Section.under, Section.apply, Members.changeAt, List.lookup_cons, beq_self_eq_true]
    rfl
  have lookedUp : (part.under name).change (Draft.ofTables (last :: before)) =
      ((part.under name).apply [(name, .tables last before)]).bind (·.lookup name) := rfl
  rw [lookedUp, alone, applied, Option.map_some, Option.bind_some, Table.lookup_insertEntry,
    if_pos rfl]
  rfl

/-- Groups under the name of a list go on with its last table. -/
theorem changeAll_under (name : String) {parts : List Section} {last built : Members}
    (applied : parts.foldlM (fun root part => part.apply root) last = some built)
    (before : List Members) :
    Section.changeAll (parts.map (Section.under name)) (Draft.ofTables (last :: before)) =
      some (Draft.ofTables (built :: before)) := by
  induction parts generalizing last with
  | nil =>
    cases applied
    rfl
  | cons part rest ih =>
    rw [List.foldlM_cons] at applied
    obtain ⟨next, here, later⟩ := Option.bind_eq_some_iff.mp applied
    rw [List.map_cons, Section.changeAll_cons (change_under here before)]
    exact ih later

/-! ## Tables that headers pass through -/

/-- The table of a name, with values assigned to names without dots. -/
def Section.declared (name : String) (members : List (String × Datum)) : Section :=
  ⟨false, ⟨[], name⟩, Members.simple members⟩

/-- The table that has a table of values for each name, every one with a header of its own. -/
def Members.ofDeclared (tables : List (String × List (String × Datum))) : Members :=
  ((Table.ofList tables).map fun members => .table .declared (Members.ofValues members)).entries

/-- Tables of different names may be declared one after the other. -/
theorem foldlM_declared {tables : List (String × List (String × Datum))}
    (distinct : (tables.map (·.1)).Nodup)
    (inner : ∀ table ∈ tables, (table.2.map (·.1)).Nodup) :
    (tables.map fun table => Section.declared table.1 table.2).foldlM
      (fun root part => part.apply root) [] = some (Members.ofDeclared tables) := by
  induction tables using List.reverseRecOn with
  | nil => rfl
  | append_singleton tables table ih =>
    rw [List.map_append, List.nodup_append] at distinct
    obtain ⟨earlier, _, apart⟩ := distinct
    have before := ih earlier fun other member => inner other (List.mem_append_left _ member)
    have own := inner table (List.mem_append_right _ (List.mem_singleton.mpr rfl))
    have missing : (Members.ofDeclared tables).lookup table.1 = none := by
      have notKey : (Table.ofList tables).get? table.1 = none := by
        rw [Option.eq_none_iff_forall_ne_some]
        intro members found
        have listed := (Table.get?_ofList_eq_some_iff earlier).mp found
        exact apart _ (List.mem_map.mpr ⟨_, listed, rfl⟩) _ (List.mem_singleton.mpr rfl) rfl
      have mapped := Table.get?_map
        (fun members => Draft.table .declared (Members.ofValues members)) (Table.ofList tables) table.1
      rw [notKey] at mapped
      exact mapped
    have grown : Table.ofList (tables ++ [table]) =
        (Table.ofList tables).insert table.1 table.2 := by
      rw [Table.ofList, List.foldl_append]
      rfl
    have declares : (Section.declared table.1 table.2).apply (Members.ofDeclared tables) =
        some (Members.ofDeclared (tables ++ [table])) := by
      simp only [Section.apply, Section.declared, Members.changeAt, Members.declareTable,
        Members.assignAll_simple own, missing, Bool.false_eq_true, if_false, Option.map_some]
      rw [Members.ofDeclared, Members.ofDeclared, grown]
      exact congrArg some (Members.insertEntry_map
        (fun members => Draft.table .declared (Members.ofValues members)) table.1 table.2 _)
    rw [List.map_append, List.foldlM_append, before]
    exact (bind_pure _).trans declares

/-- A group under a name goes on with the table of this name. -/
theorem change_under_passed {name : String} {part : Section} {inner changed : Members}
    (applied : part.apply inner = some changed) :
    (part.under name).change (some (.table .passed inner)) = some (.table .passed changed) := by
  have alone : (part.under name).apply [(name, .table .passed inner)] =
      (part.apply inner).map fun built =>
        Table.insertEntry name (.table .passed built) [(name, .table .passed inner)] := by
    simp only [Section.under, Section.apply, Members.changeAt, List.lookup_cons, beq_self_eq_true]
    rfl
  have lookedUp : (part.under name).change (some (.table .passed inner)) =
      ((part.under name).apply [(name, .table .passed inner)]).bind (·.lookup name) := rfl
  rw [lookedUp, alone, applied, Option.map_some, Option.bind_some, Table.lookup_insertEntry,
    if_pos rfl]

/-- The first group under a name makes the table of this name. -/
theorem change_under_none {name : String} {part : Section} {changed : Members}
    (applied : part.apply [] = some changed) :
    (part.under name).change none = some (.table .passed changed) := by
  have alone : (part.under name).apply [] =
      (part.apply []).map fun built => Table.insertEntry name (.table .passed built) [] := rfl
  have lookedUp : (part.under name).change none =
      ((part.under name).apply []).bind (·.lookup name) := rfl
  rw [lookedUp, alone, applied, Option.map_some, Option.bind_some, Table.lookup_insertEntry,
    if_pos rfl]

/-- Groups under the name of a table that only headers pass through go on with this table. -/
theorem changeAll_under_passed (name : String) {parts : List Section} {inner built : Members}
    (applied : parts.foldlM (fun root part => part.apply root) inner = some built) :
    Section.changeAll (parts.map (Section.under name)) (some (.table .passed inner)) =
      some (some (.table .passed built)) := by
  induction parts generalizing inner with
  | nil =>
    cases applied
    rfl
  | cons part rest ih =>
    rw [List.foldlM_cons] at applied
    obtain ⟨next, here, later⟩ := Option.bind_eq_some_iff.mp applied
    rw [List.map_cons, Section.changeAll_cons (change_under_passed here)]
    exact ih later

/-- The first of some groups under a name makes the table that they pass through. -/
theorem changeAll_under_new (name : String) {part : Section} {rest : List Section} {built : Members}
    (applied : (part :: rest).foldlM (fun root part => part.apply root) [] = some built) :
    Section.changeAll ((part :: rest).map (Section.under name)) none =
      some (some (.table .passed built)) := by
  rw [List.foldlM_cons] at applied
  obtain ⟨next, here, later⟩ := Option.bind_eq_some_iff.mp applied
  rw [List.map_cons, Section.changeAll_cons (change_under_none here)]
  exact changeAll_under_passed name later

end CommandCompletion.Toml
