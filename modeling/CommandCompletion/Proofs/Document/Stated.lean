import CommandCompletion.Proofs.Document.Said
import CommandCompletion.Proofs.Toml.Tables

/-!
# Documents stated by tables

In TOML a document may be stated by assignments and by groups of statements behind headers. A list
of options, positionals or subcommands is assigned as a value, or it has one group for each item, and
none if it is empty (`Toml.StatesList`). The group of a subcommand is followed by the groups of the
lists in it, whose headers lead through the subcommand. Groups of different lists may be mixed.

However a document is stated, the root table that the groups make up says the document
(`CommandDocument.built_of_statedBy`).
-/

set_option autoImplicit false

namespace CommandCompletion

variable {α : Type}

namespace Toml

/-- A list in a table with the given members and groups: the value of a member, or stated by groups
of its own. -/
inductive StatesList (members : List (String × Datum)) (parts : List Section) (name : String)
    (said : Datum → Prop) (stated : List Section → Prop) : Prop where
  | value {value : Datum} (member : (name, value) ∈ members) (isSaid : said value)
      (noGroups : Section.ofMember name parts = [])
  | tables (absent : ∀ value, (name, value) ∉ members)
      (isStated : stated (Section.ofMember name parts))

/-- One more table of a list, which says an item. -/
def StatesItem (name : String) (said : α → Datum → Prop) (item : α) (part : Section) : Prop :=
  ∃ members, part = Section.oneMore name members ∧ (members.map (·.1)).Nodup ∧
    said item (tableDatum members)

/-- What a member has become: it is missing, which is allowed, or it is said. -/
def SaidAfter (omissible : Prop) (said : Datum → Prop) (after : Option Draft) : Prop :=
  (after = none ∧ omissible) ∨ ∃ draft, after = some draft ∧ said draft.datum

/-- Groups with one table for each item. -/
theorem changeAll_items {name : String} {said : α → Datum → Prop} {items : List α}
    {parts : List Section} (stated : List.Forall₂ (StatesItem name said) items parts)
    (before : List Members) :
    ∃ tables : List Members, Section.changeAll parts (Draft.ofTables before) =
        some (Draft.ofTables (tables.reverse ++ before)) ∧
      List.Forall₂ said items (tables.map Members.datum) := by
  induction stated generalizing before with
  | nil => exact ⟨[], rfl, .nil⟩
  | cons here _ ih =>
    obtain ⟨members, rfl, distinct, isSaid⟩ := here
    obtain ⟨tables, changed, said⟩ := ih (Members.ofValues members :: before)
    refine ⟨Members.ofValues members :: tables, ?_, .cons ?_ said⟩
    · rw [Section.changeAll_cons (change_oneMore distinct before), List.reverse_cons,
        List.append_assoc]
      exact changed
    · rwa [Members.datum_ofValues]

/-- A list of tables says what its tables say. -/
theorem saidAfter_tables {omissible : Prop} {all : List Datum → Prop} {tables : List Members}
    (said : all (tables.map Members.datum)) (empty : all [] → omissible) :
    SaidAfter omissible (fun value => ∃ items, value = .list items true ∧ all items)
      (Draft.ofTables tables.reverse) := by
  cases split : tables.reverse with
  | nil =>
    cases List.reverse_eq_nil_iff.mp split
    exact .inl ⟨rfl, empty said⟩
  | cons last before =>
    refine .inr ⟨.tables last before, rfl, _, datum_tables last before, ?_⟩
    rwa [← split, List.reverse_reverse]

/-- A list that is stated is said by what its member becomes. -/
theorem StatesList.changeAll (omissible : Prop) {members : List (String × Datum)}
    {parts : List Section} {name : String} {all : List Datum → Prop} {stated : List Section → Prop}
    (list : StatesList members parts name (fun value => ∃ items, value = .list items true ∧ all items)
      stated) (distinct : (members.map (·.1)).Nodup) (empty : all [] → omissible)
    (built : ∀ parts, stated parts → ∃ tables : List Members,
      Section.changeAll parts (Draft.ofTables []) = some (Draft.ofTables (tables.reverse ++ [])) ∧
        all (tables.map Members.datum)) :
    ∃ after, Section.changeAll (Section.ofMember name parts)
        ((Members.ofValues members).lookup name) = some after ∧
      SaidAfter omissible (fun value => ∃ items, value = .list items true ∧ all items) after := by
  rw [Members.lookup_ofValues distinct]
  cases list with
  | value member isSaid noGroups =>
    rw [noGroups, (Table.lookup_eq_some_iff_mem distinct).mpr member]
    exact ⟨_, rfl, .inr ⟨_, rfl, isSaid⟩⟩
  | tables absent isStated =>
    obtain ⟨tables, changed, said⟩ := built _ isStated
    rw [List.append_nil] at changed
    rw [Datum.lookup_of_absent absent]
    exact ⟨_, changed, saidAfter_tables said empty⟩

end Toml

/-! ## Commands -/

/-- Members and groups of a table that state the fields of a command. -/
structure CommandDocument.StatesFields (document : CommandDocument)
    (saysSubcommands : Datum → Prop) (statesSubcommands : List Toml.Section → Prop)
    (members : List (String × Datum)) (parts : List Toml.Section) : Prop where
  fields : Datum.Fields CommandFields.names members
  heads : ∀ part ∈ parts, part.head ∈ ["options", "positionals", "subcommands"]
  name : Datum.Given members "name" False (· = .text document.name)
  options : Toml.StatesList members parts "options"
    (Datum.SaysList (OptionDocument.SaidBy .toml) document.options)
    (List.Forall₂ (Toml.StatesItem "options" (OptionDocument.SaidBy .toml)) document.options)
  positionals : Toml.StatesList members parts "positionals"
    (Datum.SaysList (PositionalDocument.SaidBy .toml) document.positionals)
    (List.Forall₂ (Toml.StatesItem "positionals" (PositionalDocument.SaidBy .toml))
      document.positionals)
  subcommands : Toml.StatesList members parts "subcommands" saysSubcommands statesSubcommands

namespace Toml

/-- What a table has of a member whose groups are worked off. -/
theorem given_of_saidAfter {built : Members} (distinct : ((membersData built).map (·.1)).Nodup)
    {name : String} {omissible : Prop} {said : Datum → Prop} {after : Option Draft}
    (found : built.lookup name = after) (saidAfter : SaidAfter omissible said after) :
    Datum.Given (membersData built) name omissible said := by
  have data := Members.lookup_membersData built name
  rcases saidAfter with ⟨rfl, allowed⟩ | ⟨draft, rfl, isSaid⟩
  · refine .leftOut allowed fun value member => ?_
    rw [found, (Table.lookup_eq_some_iff_mem distinct).mpr member] at data
    cases data
  · rw [found, Option.map_some, Table.lookup_eq_some_iff_mem distinct] at data
    exact .given data isSaid

end Toml

open Toml in
/-- However the fields of a command are stated, the members of the table that is built say them. -/
theorem CommandDocument.StatesFields.built {document : CommandDocument} {all : List Datum → Prop}
    {statesSubcommands : List Section → Prop} {members : List (String × Datum)}
    {parts : List Section}
    (stated : document.StatesFields (fun value => ∃ items, value = .list items true ∧ all items)
      statesSubcommands members parts)
    (empty : all [] → document.subcommands = [])
    (builds : ∀ parts, statesSubcommands parts → ∃ tables : List Members,
      Section.changeAll parts (Draft.ofTables []) = some (Draft.ofTables (tables.reverse ++ [])) ∧
        all (tables.map Members.datum)) :
    ∃ built, parts.foldlM (fun root part => part.apply root) (Members.ofValues members) =
        some built ∧
      SaysFields .toml document (fun value => ∃ items, value = .list items true ∧ all items)
        (membersData built) := by
  have distinct := stated.fields.distinct
  obtain ⟨options, optionsChanged, optionsSaid⟩ :=
    stated.options.changeAll (document.options = []) distinct List.forall₂_nil_right_iff.mp
      fun _ each => changeAll_items each []
  obtain ⟨positionals, positionalsChanged, positionalsSaid⟩ :=
    stated.positionals.changeAll (document.positionals = []) distinct
      List.forall₂_nil_right_iff.mp fun _ each => changeAll_items each []
  obtain ⟨subcommands, subcommandsChanged, subcommandsSaid⟩ :=
    stated.subcommands.changeAll (document.subcommands = []) distinct empty builds
  have total : ∀ name ∈ ["options", "positionals", "subcommands"], ∃ after,
      Section.changeAll (Section.ofMember name parts) ((Members.ofValues members).lookup name) =
        some after := by
    simp only [List.forall_mem_cons, List.not_mem_nil, false_implies, implies_true, and_true]
    exact ⟨⟨_, optionsChanged⟩, ⟨_, positionalsChanged⟩, ⟨_, subcommandsChanged⟩⟩
  obtain ⟨built, applied, builtDistinct, becomes, unchanged⟩ :=
    foldlM_apply_ofValues distinct stated.heads total
  refine ⟨built, applied, ⟨builtDistinct, ?known⟩, ?name,
    given_of_saidAfter builtDistinct (becomes _ _ optionsChanged) optionsSaid,
    given_of_saidAfter builtDistinct (becomes _ _ positionalsChanged) positionalsSaid,
    given_of_saidAfter builtDistinct (becomes _ _ subcommandsChanged) subcommandsSaid⟩
  case known =>
    rintro ⟨name, value⟩ member
    have found := (Table.lookup_eq_some_iff_mem builtDistinct).mpr member
    rw [Members.lookup_membersData] at found
    by_cases listed : name ∈ ["options", "positionals", "subcommands"]
    · exact List.mem_cons_of_mem _ listed
    · rw [unchanged name listed, Option.map_map, Option.map_eq_some_iff] at found
      obtain ⟨assigned, found, _⟩ := found
      exact stated.fields.known (name, assigned) ((Table.lookup_eq_some_iff_mem distinct).mp found)
  case name =>
    cases stated.name with
    | given member isSaid =>
      have found := unchanged "name" (by decide)
      rw [(Table.lookup_eq_some_iff_mem distinct).mpr member] at found
      exact given_of_saidAfter builtDistinct found (.inr ⟨_, rfl, isSaid⟩)
    | leftOut allowed => exact allowed.elim

namespace CommandDocument

open Toml

mutual
/-- A table with members and groups that state a command, and the subcommands in the same way. -/
def StatedBy : CommandDocument → List (String × Datum) → List Section → Prop
  | ⟨name, options, positionals, subcommands⟩, members, parts =>
    StatesFields ⟨name, options, positionals, subcommands⟩
      (fun value => ∃ items, value = .list items true ∧ AllSaidBy .toml subcommands items)
      (fun parts => AllStatedBy subcommands parts) members parts

/-- Groups that state subcommands one by one, each with a group of its own and those of the lists in
it. -/
def AllStatedBy : List CommandDocument → List Section → Prop
  | [], parts => parts = []
  | document :: rest, parts =>
    ∃ members inner others,
      parts = .oneMore "subcommands" members :: inner.map (.under "subcommands") ++ others ∧
        document.StatedBy members inner ∧ AllStatedBy rest others
end

theorem StatedBy.fields {document : CommandDocument} {members : List (String × Datum)}
    {parts : List Section} (stated : document.StatedBy members parts) :
    Datum.Fields CommandFields.names members := by
  obtain ⟨name, options, positionals, subcommands⟩ := document
  rw [StatedBy] at stated
  exact StatesFields.fields stated

/-- No data say no commands. -/
theorem nil_of_allSaidBy {format : DocumentFormat} {documents : List CommandDocument}
    (said : AllSaidBy format documents []) : documents = [] := by
  cases documents with
  | nil => rfl
  | cons document rest =>
    rw [AllSaidBy] at said
    obtain ⟨_, _, none, _⟩ := said
    cases none

mutual
/-- **However a document is stated, the table that is built says it.** -/
theorem built_of_statedBy : ∀ (document : CommandDocument) {members : List (String × Datum)}
    {parts : List Section}, document.StatedBy members parts →
    ∃ built, parts.foldlM (fun root part => part.apply root) (Members.ofValues members) =
      some built ∧ document.SaidBy .toml built.datum
  | ⟨name, options, positionals, subcommands⟩, members, parts, stated => by
    rw [StatedBy] at stated
    obtain ⟨built, applied, said⟩ := stated.built nil_of_allSaidBy
      fun _ each => tables_of_allStatedBy subcommands each []
    refine ⟨built, applied, ?_⟩
    rw [SaidBy]
    exact ⟨_, rfl, said⟩

theorem tables_of_allStatedBy : ∀ (documents : List CommandDocument) {parts : List Section},
    AllStatedBy documents parts → ∀ before : List Members,
    ∃ tables : List Members, Section.changeAll parts (Draft.ofTables before) =
        some (Draft.ofTables (tables.reverse ++ before)) ∧
      AllSaidBy .toml documents (tables.map Members.datum)
  | [], _, stated, before => by
    rw [AllStatedBy] at stated
    subst stated
    exact ⟨[], rfl, by rw [AllSaidBy]; rfl⟩
  | document :: rest, _, stated, before => by
    rw [AllStatedBy] at stated
    obtain ⟨members, inner, others, rfl, here, later⟩ := stated
    obtain ⟨built, applied, said⟩ := built_of_statedBy document here
    obtain ⟨tables, changed, saidLater⟩ := tables_of_allStatedBy rest later (built :: before)
    refine ⟨built :: tables, ?_, ?_⟩
    · have inside := changeAll_under "subcommands" applied before
      rw [Draft.ofTables] at inside
      rw [List.cons_append, Section.changeAll_cons (change_oneMore here.fields.distinct before),
        Section.changeAll_append, inside, Option.bind_some, changed, List.reverse_cons,
        List.append_assoc]
      rfl
    · rw [List.map_cons, AllSaidBy]
      exact ⟨_, _, rfl, said, saidLater⟩
end

end CommandDocument

end CommandCompletion
