import CommandCompletion.Proofs.Index.Queries
import CommandCompletion.Proofs.Script.TableText
import Mathlib.Data.Char
import Mathlib.Data.List.Nodup
import Mathlib.Tactic.Tauto

/-!
# Looking keys up in the tables of a script

A row of a table about slots is keyed by the key of a command, a space, and the key of a
slot. The key of a command holds no space, so such a text stands for one command and one
slot only, whatever the slot is called (`slotKey_inj`). All its characters are above the
space, so such texts are ordered by their commands first and by their slots then
(`slotKey_lt_iff`). So the rows stand in order (`increasing_slotPairs`), and a look-up in
them is a look-up in the table of the command and then in the table of its slots
(`lookup_slotPairs`).

Under a key that has been read back from a script stand the lines of one value. They are
the items of the row, less those that are empty, as long as no item holds a newline
(`held?_written`).
-/

set_option autoImplicit false

namespace CommandCompletion.Script

/-! ## Lines -/

theorem joinWith_eq_intercalate (separator : List Char) (texts : List (List Char)) :
    joinWith separator texts = separator.intercalate texts := by
  induction texts with
  | nil => rfl
  | cons first others ih =>
    cases others with
    | nil => simp [joinWith]
    | cons second others =>
      rw [joinWith, ih, List.intercalate_cons_cons]
      exact List.cons_ne_nil _ _

/-- The lines of values of one line each are the values that are not empty. -/
theorem linesOf_joinWith {values : List String}
    (oneLine : ∀ value ∈ values, '\n' ∉ value.toList) :
    linesOf (joinWith ['\n'] (values.map String.toList)) = values.filter (· ≠ "") := by
  cases values with
  | nil => rfl
  | cons first others =>
    have split : (joinWith ['\n'] ((first :: others).map String.toList)).splitOn '\n' =
        (first :: others).map String.toList := by
      rw [joinWith_eq_intercalate]
      refine List.splitOn_intercalate _ (fun text member => ?_) (by simp)
      obtain ⟨value, listed, rfl⟩ := List.mem_map.mp member
      exact oneLine value listed
    have empty : (fun text : List Char => decide (text ≠ [])) ∘ String.toList =
        fun value => decide (value ≠ "") := by
      funext value
      simp
    have back : String.ofList ∘ String.toList = id := by
      funext value
      exact String.ofList_toList
    rw [linesOf, split, List.filter_map, empty, List.map_map, back, List.map_id]

/-- A text that is one line of a list: it is not empty and holds no newline. -/
def OneLine (text : String) : Prop :=
  text ≠ "" ∧ '\n' ∉ text.toList

theorem oneLine_of_word {text : String} (word : Text.Word text) : OneLine text :=
  ⟨word.1, word.plain.newline_notMem⟩

/-- The text of an arity is one line, as digits and symbols are. -/
theorem oneLine_text (arity : Arity) : OneLine arity.text := by
  cases arity with
  | «exactly» count =>
    have digits : (Arity.exactly count).text.toList = Nat.toDigits 10 count := by
      rw [Arity.text, Nat.toString_eq_ofList_toDigits, String.toList_ofList]
    constructor
    · intro empty
      rw [empty] at digits
      exact Nat.toDigits_ne_nil digits.symm
    · rw [digits]
      intro member
      cases Nat.isDigit_of_mem_toDigits (by decide) (by decide) member
  | optional | zeroOrMore | oneOrMore | remainder => exact ⟨by decide, by decide⟩

/-! ## Rows read back -/

theorem lookup_zip_toList {β : Type} (rows : List (String × List String))
    (value : String × List String → β) (key : String) :
    ((rows.map fun row => row.1.toList).zip (rows.map value)).lookup key.toList =
      (rows.lookup key).map fun values => value (key, values) := by
  induction rows with
  | nil => rfl
  | cons row rest ih =>
    obtain ⟨rowKey, values⟩ := row
    simp only [List.map_cons, List.zip_cons_cons]
    by_cases here : key = rowKey
    · subst here
      simp
    · have apart : key.toList ≠ rowKey.toList := fun same => here (String.toList_inj.mp same)
      rw [List.lookup_cons, List.lookup_cons, beq_eq_false_iff_ne.mpr here,
        beq_eq_false_iff_ne.mpr apart]
      exact ih

/-- Under a key that has a row stand the items of the row, less the empty ones. -/
theorem held?_written {table : ScriptTable} {key : String} {values : List String}
    (found : table.rows.lookup key = some values)
    (oneLine : ∀ value ∈ values, '\n' ∉ value.toList) (stem : List Char) :
    (table.written stem).held? key = some (values.filter (· ≠ "")) := by
  rw [TableText.held?, ScriptTable.written, lookup_zip_toList, found, Option.map_some,
    Option.map_some, linesOf_joinWith oneLine]

/-- Under a key that has no row stands nothing. -/
theorem held?_written_none {table : ScriptTable} {key : String}
    (missing : table.rows.lookup key = none) (stem : List Char) :
    (table.written stem).held? key = none := by
  rw [TableText.held?, ScriptTable.written, lookup_zip_toList, missing, Option.map_none,
    Option.map_none]

/-! ## Tables found by name -/

/-- The written tables are found by the names of the tables. -/
theorem find?_written {tables : List ScriptTable} {table : ScriptTable} {name : String}
    (found : tables.find? (·.name = name) = some table) (stem : List Char) :
    (tables.map (·.written stem)).find? (·.name = tableName stem name) =
      some (table.written stem) := by
  have names : (fun text : TableText => decide (text.name = tableName stem name)) ∘
      (·.written stem) = fun table : ScriptTable => decide (table.name = name) := by
    funext table
    simp [ScriptTable.written, tableName, String.toList_inj]
  rw [List.find?_map, names, found, Option.map_some]

theorem heldIn?_written {tables : List ScriptTable} {table : ScriptTable} {name : String}
    (found : tables.find? (·.name = name) = some table) (stem : List Char) (key : String) :
    heldIn? (tables.map (·.written stem)) (tableName stem name) key =
      (table.written stem).held? key := by
  rw [heldIn?, find?_written found, Option.bind_some]

/-- A row whose items are lines reads back as it is. -/
theorem heldIn?_row {tables : List ScriptTable} {table : ScriptTable} {name key : String}
    {values : List String} (found : tables.find? (·.name = name) = some table)
    (row : table.rows.lookup key = some values) (lines : ∀ value ∈ values, OneLine value)
    (stem : List Char) :
    heldIn? (tables.map (·.written stem)) (tableName stem name) key = some values := by
  have kept : values.filter (· ≠ "") = values :=
    List.filter_eq_self.mpr fun value listed => decide_eq_true (lines value listed).1
  rw [heldIn?_written found, held?_written row (fun value listed => (lines value listed).2), kept]

theorem heldIn?_no_row {tables : List ScriptTable} {table : ScriptTable} {name key : String}
    (found : tables.find? (·.name = name) = some table)
    (missing : table.rows.lookup key = none) (stem : List Char) :
    heldIn? (tables.map (·.written stem)) (tableName stem name) key = none := by
  rw [heldIn?_written found, held?_written_none missing]

/-! ## Keys of slots -/

theorem takeWhile_slotKey {key : String} (free : ' ' ∉ key.toList) (slot : String) :
    (slotKey key slot).toList.takeWhile (· != ' ') = key.toList := by
  have spelled : (slotKey key slot).toList = key.toList ++ ' ' :: slot.toList := by
    simp [slotKey]
  have all : ∀ c ∈ key.toList, (c != ' ') = true := by
    intro c member
    exact bne_iff_ne.mpr fun same => free (same ▸ member)
  rw [spelled, List.takeWhile_append_of_pos all, List.takeWhile_cons_of_neg (by simp),
    List.append_nil]

/-- Only the command and the slot it is made of have the key of a row, as long as the keys of
commands hold no space. -/
theorem slotKey_inj {key other slot otherSlot : String} (free : ' ' ∉ key.toList)
    (otherFree : ' ' ∉ other.toList) :
    slotKey key slot = slotKey other otherSlot ↔ key = other ∧ slot = otherSlot := by
  constructor
  · intro same
    have sameKey : key = other := by
      refine String.toList_inj.mp ?_
      rw [← takeWhile_slotKey free slot, same, takeWhile_slotKey otherFree]
    subst sameKey
    exact ⟨rfl, (String.append_right_inj _).mp same⟩
  · rintro ⟨rfl, rfl⟩
    rfl

/-- A separator that is smaller than all characters in front of it makes the parts in front of it
count first. -/
theorem append_cons_lt_iff {separator : Char} {front other : List Char}
    (above : ∀ c ∈ front, separator < c) (otherAbove : ∀ c ∈ other, separator < c)
    (behind otherBehind : List Char) :
    front ++ separator :: behind < other ++ separator :: otherBehind ↔
      front < other ∨ front = other ∧ behind < otherBehind := by
  induction front generalizing other with
  | nil =>
    cases other with
    | nil => simp
    | cons d other =>
      have less : separator < d := otherAbove d List.mem_cons_self
      simp [List.cons_lt_cons_iff, less]
  | cons c front ih =>
    obtain ⟨first, rest⟩ := List.forall_mem_cons.mp above
    cases other with
    | nil =>
      have notLess : ¬c < separator := fun less => Char.lt_irrefl c (lt_trans less first)
      simp [List.cons_lt_cons_iff, notLess, ne_of_gt first]
    | cons d other =>
      obtain ⟨_, otherRest⟩ := List.forall_mem_cons.mp otherAbove
      simp only [List.cons_append, List.cons_lt_cons_iff, ih rest otherRest, List.cons.injEq]
      tauto

/-- Rows are ordered by their commands, and those of one command by their slots. -/
theorem slotKey_lt_iff {key other : String} (word : Text.Word key) (otherWord : Text.Word other)
    (slot otherSlot : String) :
    slotKey key slot < slotKey other otherSlot ↔ key < other ∨ key = other ∧ slot < otherSlot := by
  have spelled (key slot : String) :
      (slotKey key slot).toList = key.toList ++ ' ' :: slot.toList := by
    simp [slotKey]
  simp only [String.lt_iff, spelled, ← String.toList_inj]
  exact append_cons_lt_iff word.space_lt otherWord.space_lt _ _

/-! ## Tables of slots -/

/-- A part of every slot that has it, under the key of its row. -/
def slotPairs {α β : Type} (table : Table (Table α)) (part : α → Option β) : List (String × β) :=
  table.entries.flatMap fun entry =>
    entry.2.entries.filterMap fun slot =>
      (part slot.2).map fun value => (slotKey entry.1 slot.1, value)

theorem slotRows_eq_slotPairs {α : Type} (table : Table (Table α)) (value : α → List String) :
    Plan.slotRows table value = slotPairs table fun data => some (value data) := by
  refine congrArg (table.entries.flatMap ·) (funext fun entry => ?_)
  exact (congrFun List.filterMap_eq_map _).symm

section Slots

variable {α β : Type} {table : Table (Table α)} (part : α → Option β)

theorem mem_slotPairs_iff {row : String × β} :
    row ∈ slotPairs table part ↔ ∃ entry ∈ table.entries, ∃ slot ∈ entry.2.entries,
      part slot.2 = some row.2 ∧ slotKey entry.1 slot.1 = row.1 := by
  simp only [slotPairs, List.mem_flatMap, List.mem_filterMap, Option.map_eq_some_iff]
  constructor
  · rintro ⟨entry, member, slot, listed, value, given, rfl⟩
    exact ⟨entry, member, slot, listed, given, rfl⟩
  · rintro ⟨entry, member, slot, listed, given, same⟩
    exact ⟨entry, member, slot, listed, row.2, given, by rw [same]⟩

variable (words : ∀ key ∈ table.keys, Text.Word key)
include words

/-- The rows of a table about slots stand in increasing order of their keys. -/
theorem increasing_slotPairs :
    (slotPairs table part).Pairwise fun earlier later => earlier.1 < later.1 := by
  have word : ∀ entry ∈ table.entries, Text.Word entry.1 := fun entry member =>
    words entry.1 (List.mem_map_of_mem member)
  refine List.pairwise_flatMap.mpr ⟨fun entry member => ?_, ?_⟩
  · refine List.pairwise_filterMap.mpr
      (entry.2.increasing.imp fun less row made other madeToo => ?_)
    obtain ⟨_, _, rfl⟩ := Option.map_eq_some_iff.mp made
    obtain ⟨_, _, rfl⟩ := Option.map_eq_some_iff.mp madeToo
    exact (slotKey_lt_iff (word entry member) (word entry member) _ _).mpr (.inr ⟨rfl, less⟩)
  · refine table.increasing.imp_of_mem fun member otherMember less row made other madeToo => ?_
    obtain ⟨_, _, made⟩ := List.mem_filterMap.mp made
    obtain ⟨_, _, madeToo⟩ := List.mem_filterMap.mp madeToo
    obtain ⟨_, _, rfl⟩ := Option.map_eq_some_iff.mp made
    obtain ⟨_, _, rfl⟩ := Option.map_eq_some_iff.mp madeToo
    exact (slotKey_lt_iff (word _ member) (word _ otherMember) _ _).mpr (.inl less)

/-- No two rows of a table about slots have one key. -/
theorem nodup_slotPairs : ((slotPairs table part).map (·.1)).Nodup :=
  List.pairwise_map.mpr ((increasing_slotPairs part words).imp String.ne_of_lt)

/-- A look-up in the rows is a look-up of the command and then of the slot. -/
theorem lookup_slotPairs {key : String} (word : Text.Word key) (slot : String) :
    (slotPairs table part).lookup (slotKey key slot) =
      ((table.get? key).bind (·.get? slot)).bind part := by
  ext value
  rw [Table.lookup_eq_some_iff_mem (nodup_slotPairs part words), mem_slotPairs_iff]
  simp only [Option.bind_eq_some_iff]
  constructor
  · rintro ⟨⟨otherKey, slots⟩, member, ⟨otherSlot, data⟩, listed, given, same⟩
    have otherWord := words otherKey (List.mem_map_of_mem member)
    obtain ⟨rfl, rfl⟩ := (slotKey_inj otherWord.space_notMem word.space_notMem).mp same
    refine ⟨data, ⟨slots, ?_, ?_⟩, given⟩
    · exact (Table.lookup_eq_some_iff_mem table.nodup_keys).mpr member
    · exact (Table.lookup_eq_some_iff_mem slots.nodup_keys).mpr listed
  · rintro ⟨data, ⟨slots, found, foundToo⟩, given⟩
    refine ⟨(key, slots), ?_, (slot, data), ?_, given, rfl⟩
    · exact (Table.lookup_eq_some_iff_mem table.nodup_keys).mp found
    · exact (Table.lookup_eq_some_iff_mem slots.nodup_keys).mp foundToo

end Slots

end CommandCompletion.Script
