import CommandCompletion.Proofs.Index.Entry

/-!
# Building the index of a tree

Adding the entries of a tree is one pass over its commands in depth-first preorder
(`Command.addEntries_eq_foldlM`). What the pass keeps true is that the table holds exactly
the entries of the commands read so far, whose keys differ (`EntriesOf`); one more command
keeps it true (`EntriesOf.concat`), and so does a whole pass (`EntriesOf.append`). A pass that
is refused is refused at one command, after a pass over those before it (`pass_error`).

An index holds a tree when every place has its own key, and under it stands an entry that
describes the command there (`Index.Holds`). Every index that is built holds the tree it was
built from (`Command.index_ok`).
-/

set_option autoImplicit false

namespace CommandCompletion

open Command

/-! ## One pass over the commands -/

/-- Adds the entry of a command that was met. -/
def addVisit (entries : Table IndexEntry) (visit : Visit) :
    Except SpecificationFault (Table IndexEntry) :=
  if entries.contains visit.key then .error (.duplicateNode visit.key)
  else do
    let own ← entry visit.key visit.command
    .ok (entries.insert visit.key own)

namespace Command

theorem addAllEntries_eq_foldlM {commands : List Command}
    (each : ∀ child ∈ commands, ∀ way key entries,
      addEntries key entries child = (child.visits way key).foldlM addVisit entries)
    (way : List Nat) (key : String) (number : Nat) (entries : Table IndexEntry) :
    addAllEntries key entries commands =
      (visitsBelow way key number commands).foldlM addVisit entries := by
  induction commands generalizing number entries with
  | nil => rfl
  | cons first rest ih =>
    rw [addAllEntries, visitsBelow, List.foldlM_append,
      each first List.mem_cons_self (way ++ [number])]
    congr 1
    funext extended
    exact ih (fun child member => each child (List.mem_cons_of_mem _ member)) (number + 1) extended

/-- The entries of a tree are added in one pass over its commands in preorder. -/
theorem addEntries_eq_foldlM (command : Command) (way : List Nat) (key : String)
    (entries : Table IndexEntry) :
    addEntries key entries command = (command.visits way key).foldlM addVisit entries := by
  induction command using Command.induction generalizing way key entries with
  | step command ih =>
    have below := addAllEntries_eq_foldlM ih way key 0
    obtain ⟨name, options, positionals, subcommands⟩ := command
    rw [visits_eq, List.foldlM_cons, addEntries, addVisit]
    split
    · rfl
    · rw [bind_assoc]
      congr 1
      funext own
      exact below (entries.insert key own)

end Command

theorem addVisit_ok {entries extended : Table IndexEntry} {visit : Visit}
    (added : addVisit entries visit = .ok extended) :
    entries.get? visit.key = none ∧ ∃ own, entry visit.key visit.command = .ok own ∧
      extended = entries.insert visit.key own := by
  rw [addVisit] at added
  split at added
  · cases added
  · rename_i free
    obtain ⟨own, accepted, same⟩ := bind_eq_ok_iff.mp added
    cases same
    exact ⟨Table.contains_eq_false_iff.mp (by simpa using free), own, accepted, rfl⟩

theorem addVisit_error {entries : Table IndexEntry} {visit : Visit} {fault : SpecificationFault}
    (refused : addVisit entries visit = .error fault) :
    ((∃ other, entries.get? visit.key = some other) ∧ fault = .duplicateNode visit.key) ∨
      entry visit.key visit.command = .error fault := by
  rw [addVisit] at refused
  split at refused
  · rename_i taken
    exact .inl ⟨Table.contains_iff.mp taken, (Except.error.inj refused).symm⟩
  · rcases bind_eq_error_iff.mp refused with refused | ⟨_, _, impossible⟩
    · exact .inr refused
    · cases impossible

/-- The table holds exactly the entries of the commands read, and their keys differ. -/
structure EntriesOf (read : List Visit) (entries : Table IndexEntry) : Prop where
  distinct : (read.map (·.key)).Nodup
  held : ∀ visit ∈ read, ∃ own, entry visit.key visit.command = .ok own ∧
    entries.get? visit.key = some own
  only : ∀ key own, entries.get? key = some own → ∃ visit ∈ read, visit.key = key

namespace EntriesOf

theorem nothing : EntriesOf [] Table.empty where
  distinct := .nil
  held := fun _ member => nomatch member
  only := fun _ _ found => nomatch found

/-- One more command. -/
theorem concat {read : List Visit} {entries extended : Table IndexEntry} {visit : Visit}
    (holds : EntriesOf read entries) (added : addVisit entries visit = .ok extended) :
    EntriesOf (read ++ [visit]) extended := by
  obtain ⟨free, own, accepted, rfl⟩ := addVisit_ok added
  -- The new key is free, and under the key of every command read before stands an entry.
  have new : ∀ other ∈ read, other.key ≠ visit.key := by
    intro other member same
    obtain ⟨_, _, found⟩ := holds.held other member
    rw [same, free] at found
    cases found
  refine ⟨?_, fun other member => ?_, fun key value found => ?_⟩
  · rw [List.map_append, List.nodup_append']
    refine ⟨holds.distinct, List.nodup_singleton _, ?_⟩
    simpa [List.disjoint_singleton] using fun other member => new other member
  · rw [Table.get?_insert]
    rcases List.mem_append.mp member with before | now
    · rw [if_neg (new other before)]
      exact holds.held other before
    · cases List.mem_singleton.mp now
      exact ⟨own, accepted, if_pos rfl⟩
  · rw [Table.get?_insert] at found
    split at found
    · rename_i here
      exact ⟨visit, List.mem_append_right _ (List.mem_singleton.mpr rfl), here.symm⟩
    · obtain ⟨other, member, same⟩ := holds.only key value found
      exact ⟨other, List.mem_append_left _ member, same⟩

/-- A whole pass. -/
theorem append {read visits : List Visit} {entries final : Table IndexEntry}
    (holds : EntriesOf read entries) (accepted : visits.foldlM addVisit entries = .ok final) :
    EntriesOf (read ++ visits) final := by
  induction visits generalizing read entries with
  | nil =>
    cases accepted
    rwa [List.append_nil]
  | cons visit rest ih =>
    rw [List.foldlM_cons] at accepted
    obtain ⟨extended, added, accepted⟩ := bind_eq_ok_iff.mp accepted
    have holdsAll := ih (holds.concat added) accepted
    rwa [List.append_assoc] at holdsAll

end EntriesOf

/-- A pass that is refused is refused at one command, all those before it being accepted. -/
theorem pass_error {visits : List Visit} {entries : Table IndexEntry} {fault : SpecificationFault}
    (refused : visits.foldlM addVisit entries = .error fault) :
    ∃ before visit after middle, visits = before ++ visit :: after ∧
      before.foldlM addVisit entries = .ok middle ∧ addVisit middle visit = .error fault := by
  induction visits generalizing entries with
  | nil => cases refused
  | cons first rest ih =>
    rw [List.foldlM_cons] at refused
    rcases bind_eq_error_iff.mp refused with refused | ⟨extended, added, refused⟩
    · exact ⟨[], first, rest, entries, rfl, rfl, refused⟩
    · obtain ⟨before, visit, after, middle, rfl, accepted, refused⟩ := ih refused
      refine ⟨first :: before, visit, after, middle, rfl, ?_, refused⟩
      rw [List.foldlM_cons, added]
      exact accepted

/-! ## Indexes that hold a tree -/

/-- Every command of a tree stands in the index under a key of its own, with an entry that
describes it, and nothing else stands there. -/
structure Index.Holds (index : Index) (root : Command) : Prop where
  root_eq : index.root = root.name
  distinct : Function.Injective fun place : Place root => place.key
  held : ∀ place : Place root, ∃ own, index.entries.get? place.key = some own ∧
    own.Describes place.command
  only : ∀ key own, index.entries.get? key = some own → ∃ place : Place root, place.key = key
  sound : ∀ place : Place root, place.command.Sound

namespace EntriesOf

variable {root : Command} {read : List Visit} {entries : Table IndexEntry}

/-- Places that were read and have one key are one place. -/
theorem place_eq (holds : EntriesOf read entries) {first second : Place root}
    (member : first.visit ∈ read) (memberToo : second.visit ∈ read)
    (same : first.key = second.key) : first = second := by
  have visits : first.visit = second.visit :=
    List.inj_on_of_nodup_map holds.distinct member memberToo same
  exact Place.eq_of_way_eq (congrArg Visit.way visits)

end EntriesOf

namespace Command

/-- A specification is indexed by one pass over its commands. -/
theorem index_eq_foldlM (root : Command) :
    root.index = (do
      checkWord root.name root.name
      let entries ← root.preorder.foldlM addVisit Table.empty
      .ok ⟨root.name, entries⟩) := by
  rw [index, addEntries_eq_foldlM root []]
  rfl

/-- An index that is built holds the tree it was built from, and the program's name is a word. -/
theorem index_ok {root : Command} {index : Index} (built : root.index = .ok index) :
    Text.Word root.name ∧ index.Holds root := by
  rw [index_eq_foldlM] at built
  obtain ⟨_, wordAccepted, built⟩ := bind_eq_ok_iff.mp built
  obtain ⟨entries, accepted, same⟩ := bind_eq_ok_iff.mp built
  cases same
  have holds : EntriesOf root.preorder entries := EntriesOf.nothing.append accepted
  have read : ∀ place : Place root, place.visit ∈ root.preorder :=
    fun place => mem_preorder_iff.mpr ⟨place, rfl⟩
  refine ⟨checkWord_eq_ok_iff.mp wordAccepted, rfl, ?_, ?_, ?_, ?_⟩
  · intro first second same
    exact holds.place_eq (read first) (read second) same
  · intro place
    obtain ⟨own, accepted, found⟩ := holds.held place.visit (read place)
    exact ⟨own, found, (entry_ok accepted).2⟩
  · intro key own found
    obtain ⟨visit, member, same⟩ := holds.only key own found
    obtain ⟨place, rfl⟩ := mem_preorder_iff.mp member
    exact ⟨place, same⟩
  · intro place
    obtain ⟨own, accepted, _⟩ := holds.held place.visit (read place)
    exact (entry_ok accepted).1

end Command

end CommandCompletion
