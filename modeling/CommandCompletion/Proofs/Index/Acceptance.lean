import CommandCompletion.Proofs.Index.Content

/-!
# Which specifications are accepted

A specification is representable when the name of the program is a word, every command of
the tree is sound, and no two commands have one key (`Command.Representable`). A place of a
tree has a defect when the command there is not sound, when an earlier place has its key,
or when it is the program's and the name of the program is no word; each defect comes with
the fault that names it (`Command.DefectAt`, `Command.defective_iff`).

Exactly the representable specifications are accepted, and the fault of a refused one names
a defect at the first place that has one (`index_accepts_iff_representable`).
-/

set_option autoImplicit false

namespace CommandCompletion

/-- The key of the command that a fault names. -/
def SpecificationFault.node? : SpecificationFault → Option String
  | .duplicateSubcommand node _ => some node
  | .conflictingOption node _ => some node
  | .duplicateNode node => some node
  | .invalidName node _ => some node
  | .invalidArity _ => none

namespace Command

/-- A specification that an index can hold. -/
structure Representable (root : Command) : Prop where
  /-- The name of the program is a word. -/
  programName : Text.Word root.name
  /-- Every command of the tree is sound. -/
  commands : ∀ place : Place root, place.command.Sound
  /-- No two commands have one key. -/
  keys : Function.Injective fun place : Place root => place.key

/-- What may be wrong at a place of a tree, with the fault that names it. -/
inductive DefectAt (root : Command) (place : Place root) : SpecificationFault → Prop where
  | programName (start : place.way = []) (bad : ¬Text.Word root.name) :
      root.DefectAt place (.invalidName place.key root.name)
  | own {fault : SpecificationFault} (defect : place.command.Defect place.key fault) :
      root.DefectAt place fault
  | keyTaken (earlier : Place root) (before : Precedes earlier.way place.way)
      (same : earlier.key = place.key) : root.DefectAt place (.duplicateNode place.key)

/-- A place with a defect. -/
def Defective (root : Command) (place : Place root) : Prop :=
  ∃ fault, root.DefectAt place fault

/-- A place is defective exactly if its command is not sound, its key was there before, or it is
the program's and the name of the program is no word. -/
theorem defective_iff {root : Command} {place : Place root} :
    root.Defective place ↔ (place.way = [] ∧ ¬Text.Word root.name) ∨ ¬place.command.Sound ∨
      ∃ earlier : Place root, Precedes earlier.way place.way ∧ earlier.key = place.key := by
  constructor
  · rintro ⟨fault, defect⟩
    cases defect with
    | programName start bad => exact .inl ⟨start, bad⟩
    | own defect => exact .inr (.inl fun sound => sound.no_defect defect)
    | keyTaken earlier before same => exact .inr (.inr ⟨earlier, before, same⟩)
  · rintro (⟨start, bad⟩ | unsound | ⟨earlier, before, same⟩)
    · exact ⟨_, .programName start bad⟩
    · by_contra none
      have noDefect : ∀ fault, ¬place.command.Defect place.key fault :=
        fun fault defect => none ⟨fault, .own defect⟩
      exact unsound (sound_of_no_defect noDefect)
    · exact ⟨_, .keyTaken earlier before same⟩

/-- A fault names the command whose defect it tells. -/
theorem Defect.node?_eq {key : String} {command : Command} {fault : SpecificationFault}
    (defect : command.Defect key fault) : fault.node? = some key := by
  cases defect <;> rfl

theorem DefectAt.node?_eq {root : Command} {place : Place root} {fault : SpecificationFault}
    (defect : root.DefectAt place fault) : fault.node? = some place.key := by
  cases defect with
  | programName => rfl
  | own defect => exact defect.node?_eq
  | keyTaken => rfl

/-- No place of a representable specification has a defect. -/
theorem Representable.not_defective {root : Command} (representable : root.Representable)
    (place : Place root) : ¬root.Defective place := by
  rw [defective_iff]
  rintro (⟨_, bad⟩ | unsound | ⟨earlier, before, same⟩)
  · exact bad representable.programName
  · exact unsound (representable.commands place)
  · cases representable.keys same
    exact not_precedes_self _ before

/-- When a pass stops at a place, the places before it are those that were read. -/
theorem mem_of_precedes {root : Command} {before after : List Visit} {visit : Visit}
    (order : root.preorder = before ++ visit :: after) {earlier : Place root}
    (precedes : Precedes earlier.way visit.way) : earlier.visit ∈ before := by
  have ordered := preorder_ordered root
  have member : earlier.visit ∈ root.preorder := mem_preorder_iff.mpr ⟨earlier, rfl⟩
  rw [order] at ordered member
  rcases List.mem_append.mp member with read | unread
  · exact read
  · obtain ⟨_, restOrdered, _⟩ := List.pairwise_append.mp ordered
    rcases List.mem_cons.mp unread with here | later
    · exact absurd (here ▸ precedes) (not_precedes_self _)
    · have follows := (List.pairwise_cons.mp restOrdered).1 _ later
      exact absurd precedes follows.asymm

/-- Places that were read without a refusal have no defect. -/
theorem not_defective_of_read {root : Command} (word : Text.Word root.name) {read : List Visit}
    {entries : Table IndexEntry} (holds : EntriesOf read entries)
    {place : Place root} (member : place.visit ∈ read)
    (earlierRead : ∀ earlier : Place root, Precedes earlier.way place.way →
      earlier.visit ∈ read) : ¬root.Defective place := by
  rw [defective_iff]
  rintro (⟨_, bad⟩ | unsound | ⟨earlier, before, same⟩)
  · exact bad word
  · obtain ⟨own, accepted, _⟩ := holds.held _ member
    exact unsound (entry_ok accepted).1
  · cases holds.place_eq (earlierRead earlier before) member same
    exact not_precedes_self _ before

/-- The fault of a refused specification names a defect at the first place that has one. -/
theorem index_error {root : Command} {fault : SpecificationFault}
    (refused : root.index = .error fault) :
    ∃ place : Place root, root.DefectAt place fault ∧
      ∀ earlier : Place root, Precedes earlier.way place.way → ¬root.Defective earlier := by
  rw [index_eq_foldlM] at refused
  rcases bind_eq_error_iff.mp refused with refused | ⟨_, wordAccepted, refused⟩
  · obtain ⟨bad, rfl⟩ := checkWord_eq_error_iff.mp refused
    refine ⟨.program root, ?_, fun earlier before => absurd before (not_precedes_nil _)⟩
    have defect : root.DefectAt (.program root) _ := .programName rfl bad
    rwa [Place.key_program] at defect
  · have word := checkWord_eq_ok_iff.mp wordAccepted
    rcases bind_eq_error_iff.mp refused with refused | ⟨_, _, impossible⟩
    · obtain ⟨before, visit, after, middle, order, accepted, refused⟩ := pass_error refused
      have holds : EntriesOf before middle := EntriesOf.nothing.append accepted
      have met : visit ∈ root.preorder := by simp [order]
      obtain ⟨place, rfl⟩ := mem_preorder_iff.mp met
      have earlierRead : ∀ earlier : Place root, Precedes earlier.way place.way →
          earlier.visit ∈ before := fun earlier precedes => mem_of_precedes order precedes
      refine ⟨place, ?_, fun earlier precedes => ?_⟩
      · rcases addVisit_error refused with ⟨⟨other, taken⟩, rfl⟩ | refused
        -- The key was taken by a command read before, so that one comes first in preorder.
        · obtain ⟨earlierVisit, member, same⟩ := holds.only _ _ taken
          have earlierMet : earlierVisit ∈ root.preorder := by simp [order, member]
          obtain ⟨earlier, rfl⟩ := mem_preorder_iff.mp earlierMet
          have ordered := preorder_ordered root
          rw [order] at ordered
          have precedes := (List.pairwise_append.mp ordered).2.2 _ member _ List.mem_cons_self
          exact .keyTaken earlier precedes same
        · exact .own (entry_error refused)
      · have read := earlierRead earlier precedes
        refine not_defective_of_read word holds read fun first before => ?_
        exact earlierRead first (before.trans precedes)
    · cases impossible

end Command

/-- **Which specifications are accepted.** Exactly the representable ones; and when one is
refused, the first place in preorder that has a defect has the one that the fault names, and
the fault gives the key of that place. -/
theorem index_accepts_iff_representable (root : Command) :
    ((∃ index, root.index = .ok index) ↔ root.Representable) ∧
      ∀ fault, root.index = .error fault →
        ∃ place : Place root, root.DefectAt place fault ∧ fault.node? = some place.key ∧
          ∀ earlier : Place root, Precedes earlier.way place.way → ¬root.Defective earlier := by
  refine ⟨⟨?_, fun representable => ?_⟩, fun fault refused => ?_⟩
  · rintro ⟨index, built⟩
    obtain ⟨word, holds⟩ := Command.index_ok built
    exact ⟨word, holds.sound, holds.distinct⟩
  · cases built : root.index with
    | ok index => exact ⟨index, rfl⟩
    | error fault =>
      obtain ⟨place, defect, _⟩ := Command.index_error built
      exact absurd ⟨fault, defect⟩ (representable.not_defective place)
  · obtain ⟨place, defect, first⟩ := Command.index_error refused
    exact ⟨place, defect, defect.node?_eq, first⟩

/-- A program two of whose commands have one key. -/
def collidingProgram : Command where
  name := "prog"
  subcommands := [{ name := "a_b" }, { name := "a", subcommands := [{ name := "b" }] }]

theorem index_accepts_iff_representable_collidingProgram :
    ¬collidingProgram.Representable ∧ ∃ place : Place collidingProgram,
      collidingProgram.DefectAt place (.duplicateNode "prog_a_b") ∧ place.key = "prog_a_b" ∧
        ∀ earlier : Place collidingProgram, Precedes earlier.way place.way →
          ¬collidingProgram.Defective earlier := by
  have refused : collidingProgram.index = .error (.duplicateNode "prog_a_b") := by decide +kernel
  obtain ⟨accepts, blames⟩ := index_accepts_iff_representable collidingProgram
  refine ⟨fun representable => ?_, ?_⟩
  · obtain ⟨index, built⟩ := accepts.mpr representable
    cases refused.symm.trans built
  · obtain ⟨place, defect, named, first⟩ := blames _ refused
    exact ⟨place, defect, (Option.some.inj named).symm, first⟩

end CommandCompletion
