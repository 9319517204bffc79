/-!
# Finite tables keyed by text

A table maps finitely many texts to values. Its entries stand in strictly increasing
order of their keys, so a table has each key once, it is listed in the order in which
it is printed, and it is determined by what it answers: two tables that give the same
value for every key are equal (`Table.ext_get?`).

Keys are compared code point by code point, which is also the order of their bytes.
Inserting replaces the value of a key that is there already (`Table.get?_insert`).
-/

set_option autoImplicit false

namespace CommandCompletion

variable {α β : Type}

/-! ## Entries in order -/

namespace Table

/-- Puts an entry in its place, in the place of the entry with the same key if there is one. -/
def insertEntry (key : String) (value : α) : List (String × α) → List (String × α)
  | [] => [(key, value)]
  | entry :: rest =>
    if key < entry.1 then (key, value) :: entry :: rest
    else if key = entry.1 then (key, value) :: rest
    else entry :: insertEntry key value rest

theorem mem_insertEntry {key : String} {value : α} {entry : String × α}
    {entries : List (String × α)} (member : entry ∈ insertEntry key value entries) :
    entry = (key, value) ∨ entry ∈ entries := by
  induction entries with
  | nil => exact .inl (List.mem_singleton.mp member)
  | cons first rest ih =>
    simp only [insertEntry] at member
    split at member
    · rcases List.mem_cons.mp member with here | later
      · exact .inl here
      · exact .inr later
    · split at member
      · rcases List.mem_cons.mp member with here | later
        · exact .inl here
        · exact .inr (List.mem_cons_of_mem _ later)
      · rcases List.mem_cons.mp member with here | later
        · exact .inr (here ▸ List.mem_cons_self)
        · exact (ih later).imp id (List.mem_cons_of_mem _)

/-- A text that neither precedes another nor equals it comes after it. -/
theorem lt_of_not_lt_of_ne {first second : String} (notBefore : ¬first < second)
    (different : first ≠ second) : second < first :=
  Std.lt_of_le_of_ne (String.not_lt.mp notBefore) (Ne.symm different)

/-- Inserting keeps the keys strictly increasing. -/
theorem increasing_insertEntry (key : String) (value : α) {entries : List (String × α)}
    (increasing : entries.Pairwise (fun earlier later => earlier.1 < later.1)) :
    (insertEntry key value entries).Pairwise (fun earlier later => earlier.1 < later.1) := by
  induction entries with
  | nil => simp [insertEntry]
  | cons first rest ih =>
    have after : ∀ entry ∈ rest, first.1 < entry.1 := (List.pairwise_cons.mp increasing).1
    have restIncreasing := (List.pairwise_cons.mp increasing).2
    simp only [insertEntry]
    split
    · rename_i before
      refine List.pairwise_cons.mpr ⟨fun entry member => ?_, increasing⟩
      rcases List.mem_cons.mp member with here | later
      · exact here ▸ before
      · exact String.lt_trans before (after entry later)
    · split
      · rename_i same
        exact List.pairwise_cons.mpr ⟨fun entry member => same ▸ after entry member, restIncreasing⟩
      · rename_i notBefore different
        refine List.pairwise_cons.mpr ⟨fun entry member => ?_, ih restIncreasing⟩
        rcases mem_insertEntry member with new | old
        · exact new ▸ lt_of_not_lt_of_ne notBefore different
        · exact after entry old

end Table

/-! ## Tables -/

/-- A finite map from texts to values, listed in strictly increasing order of its keys. -/
structure Table (α : Type) where
  entries : List (String × α)
  increasing : entries.Pairwise (fun earlier later => earlier.1 < later.1)

namespace Table

/-- The table without entries. -/
def empty : Table α :=
  ⟨[], .nil⟩

instance : Inhabited (Table α) :=
  ⟨empty⟩

/-- The table with one more entry, or with one entry's value replaced. -/
def insert (table : Table α) (key : String) (value : α) : Table α :=
  ⟨insertEntry key value table.entries, increasing_insertEntry key value table.increasing⟩

/-- The table of a list of entries; of several with one key the last one stays. -/
def ofList (entries : List (String × α)) : Table α :=
  entries.foldl (fun table entry => table.insert entry.1 entry.2) empty

/-- The value of a key, if the table has the key. -/
def get? (table : Table α) (key : String) : Option α :=
  table.entries.lookup key

/-- Whether the table has the key. -/
def contains (table : Table α) (key : String) : Bool :=
  (table.get? key).isSome

/-- The keys, in increasing order. -/
def keys (table : Table α) : List String :=
  table.entries.map (·.1)

/-- Whether the table has no entry. -/
def isEmpty (table : Table α) : Bool :=
  table.entries.isEmpty

/-- The table with every value replaced by its image. -/
def map (image : α → β) (table : Table α) : Table β :=
  ⟨table.entries.map fun entry => (entry.1, image entry.2),
    List.pairwise_map.mpr table.increasing⟩

/-- Changes the value of a key, a key that is missing being given `fallback` first. -/
def update (table : Table α) (key : String) (fallback : α) (change : α → α) : Table α :=
  table.insert key (change ((table.get? key).getD fallback))

instance [DecidableEq α] : DecidableEq (Table α) := fun first second =>
  if same : first.entries = second.entries then
    .isTrue (by cases first; cases second; cases same; rfl)
  else .isFalse fun equal => same (congrArg entries equal)

/-! ## What a table answers -/

theorem lookup_insertEntry (key other : String) (value : α) (entries : List (String × α)) :
    (insertEntry key value entries).lookup other =
      if other = key then some value else entries.lookup other := by
  induction entries with
  | nil =>
    by_cases same : other = key
    · simp [insertEntry, same]
    · simp [insertEntry, List.lookup_cons, same, beq_eq_false_iff_ne.mpr same]
  | cons first rest ih =>
    obtain ⟨firstKey, firstValue⟩ := first
    simp only [insertEntry]
    split
    · by_cases same : other = key
      · simp [same]
      · simp [List.lookup_cons, same, beq_eq_false_iff_ne.mpr same]
    · split
      · rename_i equal
        subst equal
        by_cases same : other = key
        · simp [same]
        · simp [List.lookup_cons, same, beq_eq_false_iff_ne.mpr same]
      · rename_i different
        by_cases here : other = firstKey
        · subst here
          simp [Ne.symm different]
        · simp [List.lookup_cons, beq_eq_false_iff_ne.mpr here, ih]

/-- After an insertion the key has the new value and every other key the value it had. -/
theorem get?_insert (table : Table α) (key other : String) (value : α) :
    (table.insert key value).get? other = if other = key then some value else table.get? other :=
  lookup_insertEntry key other value table.entries

@[simp] theorem get?_empty (key : String) : (empty : Table α).get? key = none := rfl

/-- A key before every key of a list is not among them. -/
theorem lookup_eq_none_of_lt {key : String} {entries : List (String × α)}
    (before : ∀ entry ∈ entries, key < entry.1) : entries.lookup key = none := by
  induction entries with
  | nil => rfl
  | cons first rest ih =>
    have different : key ≠ first.1 := String.ne_of_lt (before first List.mem_cons_self)
    obtain ⟨firstKey, firstValue⟩ := first
    simp only [List.lookup_cons, beq_eq_false_iff_ne.mpr different]
    exact ih fun entry member => before entry (List.mem_cons_of_mem _ member)

/-- A key before the others of a list is not found in it, so it is not the first one of a list that
answers it alike. -/
theorem not_lt_of_lookup_eq {key otherKey : String} {value otherValue : α}
    {rest others : List (String × α)} (otherAfter : ∀ entry ∈ others, otherKey < entry.1)
    (same : ((key, value) :: rest).lookup key = ((otherKey, otherValue) :: others).lookup key) :
    ¬key < otherKey := by
  intro less
  have missing : ((otherKey, otherValue) :: others).lookup key = none := by
    refine lookup_eq_none_of_lt (List.forall_mem_cons.mpr ⟨less, fun entry member => ?_⟩)
    exact String.lt_trans less (otherAfter entry member)
  rw [List.lookup_cons_self, missing] at same
  cases same

/-- Two increasing lists of entries that answer every key alike are equal. -/
theorem eq_of_lookup_eq {first second : List (String × α)}
    (firstIncreasing : first.Pairwise (fun earlier later => earlier.1 < later.1))
    (secondIncreasing : second.Pairwise (fun earlier later => earlier.1 < later.1))
    (same : ∀ key, first.lookup key = second.lookup key) : first = second := by
  induction first generalizing second with
  | nil =>
    cases second with
    | nil => rfl
    | cons entry rest =>
      obtain ⟨key, value⟩ := entry
      simpa [List.lookup_cons] using same key
  | cons entry rest ih =>
    obtain ⟨key, value⟩ := entry
    cases second with
    | nil => simpa [List.lookup_cons] using same key
    | cons other others =>
      obtain ⟨otherKey, otherValue⟩ := other
      have after := (List.pairwise_cons.mp firstIncreasing).1
      have otherAfter := (List.pairwise_cons.mp secondIncreasing).1
      have sameKey : key = otherKey := by
        have notBefore := not_lt_of_lookup_eq otherAfter (same key)
        have notBehind := not_lt_of_lookup_eq after (same otherKey).symm
        exact String.le_antisymm (String.not_lt.mp notBehind) (String.not_lt.mp notBefore)
      subst sameKey
      have sameValue : value = otherValue := by simpa [List.lookup_cons] using same key
      subst sameValue
      congr 1
      refine ih (List.pairwise_cons.mp firstIncreasing).2 (List.pairwise_cons.mp secondIncreasing).2
        fun query => ?_
      by_cases here : query = key
      · subst here
        rw [lookup_eq_none_of_lt after, lookup_eq_none_of_lt otherAfter]
      · simpa [List.lookup_cons, beq_eq_false_iff_ne.mpr here] using same query

/-- A table is determined by the values it gives. -/
theorem ext_get? {first second : Table α} (same : ∀ key, first.get? key = second.get? key) :
    first = second := by
  cases first with
  | mk entries increasing =>
    cases second with
    | mk others othersIncreasing =>
      cases eq_of_lookup_eq increasing othersIncreasing same
      rfl

/-! ## Entries, keys and tables made from lists -/

/-- In a list that has each key once, looking a key up finds exactly its entry. -/
theorem lookup_eq_some_iff_mem {entries : List (String × α)} (distinct : (entries.map (·.1)).Nodup)
    {key : String} {value : α} : entries.lookup key = some value ↔ (key, value) ∈ entries := by
  induction entries with
  | nil => simp
  | cons first rest ih =>
    obtain ⟨firstKey, firstValue⟩ := first
    obtain ⟨missing, restDistinct⟩ := List.nodup_cons.mp distinct
    by_cases here : key = firstKey
    · subst here
      have elsewhere : (key, value) ∉ rest := fun member =>
        missing (List.mem_map.mpr ⟨(key, value), member, rfl⟩)
      simp [elsewhere, eq_comm]
    · simp [List.lookup_cons, beq_eq_false_iff_ne.mpr here, ih restDistinct, here]

/-- A table has each key once. -/
theorem nodup_keys (table : Table α) : table.keys.Nodup :=
  List.pairwise_map.mpr (table.increasing.imp fun less => String.ne_of_lt less)

/-- The keys of a table are those that have a value. -/
theorem mem_keys_iff {table : Table α} {key : String} :
    key ∈ table.keys ↔ ∃ value, table.get? key = some value := by
  constructor
  · intro member
    obtain ⟨⟨_, value⟩, found, rfl⟩ := List.mem_map.mp member
    exact ⟨value, (lookup_eq_some_iff_mem table.nodup_keys).mpr found⟩
  · rintro ⟨value, found⟩
    exact List.mem_map.mpr ⟨(key, value), (lookup_eq_some_iff_mem table.nodup_keys).mp found, rfl⟩

theorem contains_iff {table : Table α} {key : String} :
    table.contains key = true ↔ ∃ value, table.get? key = some value :=
  Option.isSome_iff_exists

theorem contains_eq_false_iff {table : Table α} {key : String} :
    table.contains key = false ↔ table.get? key = none := by
  simp [contains]

/-- Replacing every value by its image keeps the keys. -/
theorem keys_map (image : α → β) (table : Table α) : (table.map image).keys = table.keys := by
  simp [keys, map]

theorem get?_map (image : α → β) (table : Table α) (key : String) :
    (table.map image).get? key = (table.get? key).map image := by
  obtain ⟨entries, increasing⟩ := table
  simp only [get?, map]
  clear increasing
  induction entries with
  | nil => rfl
  | cons first rest ih =>
    obtain ⟨firstKey, firstValue⟩ := first
    simp only [List.map_cons, List.lookup_cons, ih]
    cases key == firstKey <;> rfl

/-- Inserting entries one after the other leaves the last one of each key. -/
theorem get?_foldl_insert (entries : List (String × α)) (table : Table α) (key : String) :
    (entries.foldl (fun table entry => table.insert entry.1 entry.2) table).get? key =
      (entries.reverse.lookup key).or (table.get? key) := by
  induction entries generalizing table with
  | nil => rfl
  | cons first rest ih =>
    obtain ⟨firstKey, firstValue⟩ := first
    simp only [List.foldl_cons, List.reverse_cons, ih, get?_insert, List.lookup_append,
      Option.or_assoc]
    by_cases here : key = firstKey
    · simp [here]
    · simp [List.lookup_cons, here, beq_eq_false_iff_ne.mpr here]

/-- A table made from a list that has each key once holds exactly the entries of the list. -/
theorem get?_ofList_eq_some_iff {entries : List (String × α)}
    (distinct : (entries.map (·.1)).Nodup) {key : String} {value : α} :
    (ofList entries).get? key = some value ↔ (key, value) ∈ entries := by
  have reversed : (entries.reverse.map (·.1)).Nodup := by
    rw [List.map_reverse]
    exact List.pairwise_reverse.mpr (distinct.imp Ne.symm)
  rw [ofList, get?_foldl_insert, get?_empty, Option.or_none, lookup_eq_some_iff_mem reversed,
    List.mem_reverse]

/-- A table made from entries in any order lists them in the order of their keys. -/
theorem entries_ofList {entries sorted : List (String × α)} (same : sorted.Perm entries)
    (increasing : (sorted.map (·.1)).Pairwise (· < ·)) : (ofList entries).entries = sorted := by
  have sortedDistinct : (sorted.map (·.1)).Nodup := increasing.imp String.ne_of_lt
  have distinct : (entries.map (·.1)).Nodup := (same.map (·.1)).nodup_iff.mp sortedDistinct
  refine eq_of_lookup_eq (ofList entries).increasing (List.pairwise_map.mp increasing) fun key =>
    Option.ext fun value => ?_
  rw [lookup_eq_some_iff_mem sortedDistinct, same.mem_iff]
  exact get?_ofList_eq_some_iff distinct

/-- A table is the one that its entries make. -/
theorem ofList_entries (table : Table α) : ofList table.entries = table := by
  refine ext_get? fun key => Option.ext fun value => ?_
  rw [get?_ofList_eq_some_iff table.nodup_keys, get?, lookup_eq_some_iff_mem table.nodup_keys]

end Table

end CommandCompletion
