import Mathlib.Data.List.Induction
import Mathlib.Data.List.Nodup

/-!
# First occurrences

A list without its later repetitions keeps each value where it stands first. Reading the
list from the left, one more value is kept at the end exactly if it did not occur before
(`eraseDups_concat`), and no value is kept twice (`nodup_eraseDups`). A filter neither
makes nor moves first occurrences (`filter_eraseDups`).

What the first occurrences of the values with a property are is also said without an
algorithm (`FirstsOf`): these values and no others, in the order in which they stand first.
There is only one such list (`FirstsOf.unique`), and filtering and dropping repetitions
gives it (`firstsOf_eraseDups`).
-/

set_option autoImplicit false

namespace CommandCompletion

variable {α : Type} [DecidableEq α]

theorem eraseDups_concat (values : List α) (value : α) :
    (values ++ [value]).eraseDups =
      if value ∈ values then values.eraseDups else values.eraseDups ++ [value] := by
  rw [List.eraseDups_append]
  by_cases met : value ∈ values
  · simp [List.removeAll, met]
  · simp [List.removeAll, met, List.eraseDups_cons]

theorem nodup_eraseDups (values : List α) : values.eraseDups.Nodup := by
  induction values using List.reverseRecOn with
  | nil => exact .nil
  | append_singleton values value ih =>
    rw [eraseDups_concat]
    split
    · exact ih
    · rename_i new
      refine List.nodup_append'.mpr ⟨ih, List.nodup_singleton value, ?_⟩
      simpa [List.disjoint_singleton] using new

theorem eraseDups_sublist (values : List α) : values.eraseDups.Sublist values := by
  induction values using List.reverseRecOn with
  | nil => exact .slnil
  | append_singleton values value ih =>
    rw [eraseDups_concat]
    split
    · exact ih.trans (List.sublist_append_left values [value])
    · exact ih.append (.refl [value])

theorem filter_eraseDups (keep : α → Bool) (values : List α) :
    values.eraseDups.filter keep = (values.filter keep).eraseDups := by
  induction values using List.reverseRecOn with
  | nil => rfl
  | append_singleton values value ih =>
    rw [eraseDups_concat, List.filter_append]
    by_cases kept : keep value = true
    · have selected : [value].filter keep = [value] := by simp [kept]
      rw [selected, eraseDups_concat]
      by_cases met : value ∈ values
      · have metToo : value ∈ values.filter keep := List.mem_filter.mpr ⟨met, kept⟩
        rw [if_pos met, if_pos metToo, ih]
      · have newToo : value ∉ values.filter keep := fun member => met (List.mem_filter.mp member).1
        rw [if_neg met, if_neg newToo, List.filter_append, selected, ih]
    · have dropped : [value].filter keep = [] := by simp [kept]
      rw [dropped, List.append_nil, ← ih]
      split
      · rfl
      · rw [List.filter_append, dropped, List.append_nil]

theorem eraseDups_eraseDups (values : List α) : values.eraseDups.eraseDups = values.eraseDups := by
  induction values using List.reverseRecOn with
  | nil => rfl
  | append_singleton values value ih =>
    rw [eraseDups_concat]
    split
    · exact ih
    · rename_i new
      rw [eraseDups_concat, if_neg (by simpa using new), ih]

/-- What an item gives that is met again was given before, so it adds no first occurrence. -/
theorem eraseDups_flatMap_eraseDups {β : Type} [DecidableEq β] (given : α → List β)
    (items : List α) :
    (items.eraseDups.flatMap given).eraseDups = (items.flatMap given).eraseDups := by
  induction items using List.reverseRecOn with
  | nil => rfl
  | append_singleton items item ih =>
    rw [eraseDups_concat, List.flatMap_append, List.flatMap_singleton, List.eraseDups_append]
    by_cases met : item ∈ items
    · have nothingNew : (given item).removeAll (items.flatMap given) = [] := by
        rw [List.removeAll, List.filter_eq_nil_iff]
        intro value member
        simpa using ⟨item, met, member⟩
      rw [if_pos met, ih, nothingNew, List.eraseDups_nil, List.append_nil]
    · have sameSoFar : (given item).removeAll (items.eraseDups.flatMap given) =
          (given item).removeAll (items.flatMap given) := by
        simp [List.removeAll]
      rw [if_neg met, List.flatMap_append, List.flatMap_singleton, List.eraseDups_append, ih,
        sameSoFar]

/-- Lists with the same members have the same first occurrences, in some order. -/
theorem eraseDups_perm_of_mem_iff {values others : List α}
    (same : ∀ value, value ∈ values ↔ value ∈ others) :
    values.eraseDups.Perm others.eraseDups := by
  refine (List.perm_ext_iff_of_nodup (nodup_eraseDups values) (nodup_eraseDups others)).mpr ?_
  intro value
  rw [List.mem_eraseDups, List.mem_eraseDups, same]

/-! ## First occurrences as a property -/

/-- A list of the first occurrences of those values of a list that have a property. -/
structure FirstsOf (keep : α → Prop) (values chosen : List α) : Prop where
  mem_iff : ∀ value, value ∈ chosen ↔ value ∈ values ∧ keep value
  /-- Of two values that are chosen, the one that occurs first comes first. -/
  ordered : chosen.Pairwise fun earlier later => values.idxOf earlier < values.idxOf later

namespace FirstsOf

variable {keep : α → Prop} {values chosen other : List α}

theorem nodup (firsts : FirstsOf keep values chosen) : chosen.Nodup := by
  refine firsts.ordered.imp ?_
  intro earlier later before same
  rw [same] at before
  exact Nat.lt_irrefl _ before

/-- A list has its first occurrences with a property in one way only. -/
theorem unique (firsts : FirstsOf keep values chosen) (others : FirstsOf keep values other) :
    chosen = other := by
  have same : chosen.Perm other := by
    refine (List.perm_ext_iff_of_nodup firsts.nodup others.nodup).mpr fun value => ?_
    rw [firsts.mem_iff, others.mem_iff]
  refine same.eq_of_pairwise ?_ firsts.ordered others.ordered
  intro first second _ _ before after
  exact absurd after (Nat.lt_asymm before)

end FirstsOf

/-- The values kept stand in the order in which they occur first. -/
theorem pairwise_idxOf_eraseDups (values : List α) :
    values.eraseDups.Pairwise fun earlier later =>
      values.idxOf earlier < values.idxOf later := by
  induction values using List.reverseRecOn with
  | nil => exact .nil
  | append_singleton values value ih =>
    -- A value that occurs in a list has its first place there in every longer list.
    have kept : ∀ other ∈ values.eraseDups,
        (values ++ [value]).idxOf other = values.idxOf other := by
      intro other member
      exact List.idxOf_append_of_mem (List.mem_eraseDups.mp member)
    have extended : values.eraseDups.Pairwise fun earlier later =>
        (values ++ [value]).idxOf earlier < (values ++ [value]).idxOf later := by
      refine ih.imp_of_mem ?_
      intro earlier later member memberToo before
      rwa [kept earlier member, kept later memberToo]
    rw [eraseDups_concat]
    split
    · exact extended
    · rename_i new
      refine List.pairwise_append.mpr ⟨extended, List.pairwise_singleton _ _, ?_⟩
      intro earlier member later here
      cases List.mem_singleton.mp here
      rw [kept earlier member, List.idxOf_append_of_notMem new]
      have inside : values.idxOf earlier < values.length :=
        List.idxOf_lt_length_of_mem (List.mem_eraseDups.mp member)
      omega

/-- Filtering and dropping repetitions gives the first occurrences of the values kept. -/
theorem firstsOf_eraseDups {keep : α → Prop} (test : α → Bool)
    (decides : ∀ value, test value = true ↔ keep value) (values : List α) :
    FirstsOf keep values (values.filter test).eraseDups where
  mem_iff := by
    intro value
    rw [List.mem_eraseDups, List.mem_filter, decides]
  ordered := by
    rw [← filter_eraseDups]
    exact (pairwise_idxOf_eraseDups values).sublist List.filter_sublist

end CommandCompletion
