import CommandCompletion.Interface
import Mathlib.Order.Interval.Set.Basic
import Mathlib.Order.Nat

/-!
# The closest arity to a range of counts

Only few sets of counts have an arity: a single count, none or one, any number, and any number
but none. A declared range of counts may be another set, and then its arity allows more counts
than the range does. It is the closest one (`Arity.Closest`): it allows every count of the
range, and so few others that an arity which allows those of the range allows all of its own.

What decides is whether no words at all are in the range, and whether more than one are. An
arity that allows two different counts is no fixed count, and one that allows more than one word
has no upper bound. So the two arities without an upper bound are the closest ones to all sets
that are too large for the others (`closest_zeroOrMore`, `closest_oneOrMore`).

The arity for what follows as a whole is left out. No range of counts has it.
-/

set_option autoImplicit false

namespace CommandCompletion

/-! ## Sets of counts -/

/-- How many words an arity allows. -/
def Arity.counts : Arity → Set Nat
  | .exactly count => {count}
  | .optional => {0, 1}
  | .zeroOrMore => Set.univ
  | .oneOrMore => Set.Ici 1
  | .remainder => Set.univ

/-- An arity that allows the given counts, and of all such arities but the one for what follows as a
whole allows the fewest others. -/
structure Arity.Closest (counts : Set Nat) (arity : Arity) : Prop where
  counted : arity ≠ .remainder
  covers : counts ⊆ arity.counts
  least : ∀ other : Arity, other ≠ .remainder → counts ⊆ other.counts → arity.counts ⊆ other.counts

namespace CountRange

/-- The counts of a range. -/
def counts (range : CountRange) : Set Nat :=
  {count | range.least ≤ count ∧ ∀ greatest ∈ range.greatest, count ≤ greatest}

/-- The least number of a range is not above the greatest one. -/
def Ordered (range : CountRange) : Prop :=
  ∀ greatest ∈ range.greatest, range.least ≤ greatest

/-- The range from one count to another. The greatest count there is stands for no upper bound. -/
def between (least greatest : Nat) : CountRange :=
  ⟨least, if greatest = Text.countBound - 1 then none else some greatest⟩

end CountRange

/-! ## Arities that are closest -/

namespace Arity

variable {counts : Set Nat}

theorem closest_exactly (count : Nat) : Closest {count} (.exactly count) where
  counted := Arity.noConfusion
  covers := le_refl _
  least := fun _ _ covers => covers

theorem closest_optional : Closest {0, 1} .optional where
  counted := Arity.noConfusion
  covers := le_refl _
  least := fun _ _ covers => covers

/-- An arity that allows more than one word besides another count has no upper bound. -/
theorem unbounded_of_covers {other : Arity} (counted : other ≠ .remainder)
    (covers : counts ⊆ other.counts) {few many : Nat} (fewAllowed : few ∈ counts)
    (manyAllowed : many ∈ counts) (less : few < many) (several : 1 < many) :
    other = .zeroOrMore ∨ other = .oneOrMore := by
  have fewCovered := covers fewAllowed
  have manyCovered := covers manyAllowed
  cases other with
  | exactly count =>
    have sameFew : few = count := fewCovered
    have sameMany : many = count := manyCovered
    omega
  | optional =>
    have atMostOne : many = 0 ∨ many = 1 := manyCovered
    omega
  | zeroOrMore => exact .inl rfl
  | oneOrMore => exact .inr rfl
  | remainder => exact absurd rfl counted

/-- No words and more than one: only any number is close. -/
theorem closest_zeroOrMore {many : Nat} (none : 0 ∈ counts) (manyAllowed : many ∈ counts)
    (several : 1 < many) : Closest counts .zeroOrMore where
  counted := Arity.noConfusion
  covers := Set.subset_univ counts
  least := by
    intro other counted covers
    rcases unbounded_of_covers counted covers none manyAllowed (by omega) several with rfl | rfl
    · exact le_refl _
    · have impossible : 1 ≤ 0 := covers none
      omega

/-- Different counts, all of them of at least one word: any number but none is closest. -/
theorem closest_oneOrMore {few many : Nat} (positive : ∀ count ∈ counts, 1 ≤ count)
    (fewAllowed : few ∈ counts) (manyAllowed : many ∈ counts) (less : few < many) :
    Closest counts .oneOrMore where
  counted := Arity.noConfusion
  covers := positive
  least := by
    intro other counted covers
    have atLeastOne := positive few fewAllowed
    rcases unbounded_of_covers counted covers fewAllowed manyAllowed less (by omega) with rfl | rfl
    · exact Set.subset_univ _
    · exact le_refl _

end Arity

/-! ## Ranges -/

namespace CountRange

theorem arity_unbounded (least : Nat) :
    arity ⟨least, none⟩ = if least = 0 then .zeroOrMore else .oneOrMore := by
  cases least <;> rfl

theorem arity_bounded (least greatest : Nat) :
    arity ⟨least, some greatest⟩ =
      if least = 0 ∧ greatest = 1 then .optional
      else if least = greatest then .exactly least
      else if least = 0 then .zeroOrMore
      else .oneOrMore := by
  rw [arity]
  dsimp only
  split <;> simp_all

theorem counts_unbounded (least : Nat) : counts ⟨least, none⟩ = Set.Ici least := by
  ext count
  exact ⟨fun member => member.1, fun member => ⟨member, nofun⟩⟩

theorem counts_bounded (least greatest : Nat) :
    counts ⟨least, some greatest⟩ = Set.Icc least greatest := by
  ext count
  simp [counts]

theorem closest_unbounded (least : Nat) : (arity ⟨least, none⟩).Closest (Set.Ici least) := by
  rw [arity_unbounded]
  split
  · rename_i zero
    subst zero
    have two : 2 ∈ Set.Ici 0 := Nat.zero_le 2
    exact Arity.closest_zeroOrMore (Nat.le_refl 0) two (by omega)
  · rename_i positive
    have next : least + 1 ∈ Set.Ici least := Nat.le_succ least
    refine Arity.closest_oneOrMore (fun count member => ?_) (Nat.le_refl least) next
      (Nat.lt_succ_self least)
    exact Nat.le_trans (Nat.pos_of_ne_zero positive) member

theorem closest_bounded {least greatest : Nat} (ordered : least ≤ greatest) :
    (arity ⟨least, some greatest⟩).Closest (Set.Icc least greatest) := by
  have leastIn : least ∈ Set.Icc least greatest := ⟨Nat.le_refl least, ordered⟩
  have greatestIn : greatest ∈ Set.Icc least greatest := ⟨ordered, Nat.le_refl greatest⟩
  rw [arity_bounded]
  split_ifs with few single zero
  · obtain ⟨rfl, rfl⟩ := few
    have counts : Set.Icc 0 1 = ({0, 1} : Set Nat) := by
      ext count
      simp only [Set.mem_Icc, Set.mem_insert_iff, Set.mem_singleton_iff]
      omega
    rw [counts]
    exact Arity.closest_optional
  · subst single
    rw [Set.Icc_self]
    exact Arity.closest_exactly least
  · subst zero
    exact Arity.closest_zeroOrMore leastIn greatestIn (by omega)
  · refine Arity.closest_oneOrMore (fun count member => ?_) leastIn greatestIn (by omega)
    exact Nat.le_trans (Nat.pos_of_ne_zero zero) member.1

/-- The arity of a range is the closest one. -/
theorem closest_arity {range : CountRange} (ordered : range.Ordered) :
    range.arity.Closest range.counts := by
  obtain ⟨least, bound⟩ := range
  cases bound with
  | none =>
    rw [counts_unbounded]
    exact closest_unbounded least
  | some greatest =>
    rw [counts_bounded]
    exact closest_bounded (ordered greatest rfl)

/-- The counts from one bound to another, all of them if the other is the greatest of all. -/
theorem counts_between (least greatest : Nat) :
    (between least greatest).counts =
      {count | least ≤ count ∧ (greatest ≠ Text.countBound - 1 → count ≤ greatest)} := by
  ext count
  rw [between]
  split_ifs with unbounded <;> simp [counts, unbounded]

theorem ordered_between {least greatest : Nat} (ordered : least ≤ greatest) :
    (between least greatest).Ordered := by
  intro bound given
  rw [between] at given
  split_ifs at given with unbounded
  · cases given
  · cases given
    exact ordered

/-- **The arity of a range is the closest one.** It allows all counts of the range, and any arity
that does so, save the one for what follows as a whole, allows all counts that it allows. This is so
for every range that is not empty, and for any two bounds in order, of which the greatest count
there is stands for no upper bound. -/
theorem arity_closest :
    (∀ range : CountRange, range.Ordered → range.arity.Closest range.counts) ∧
    ∀ least greatest : Nat, least ≤ greatest →
      (between least greatest).arity.Closest
        {count | least ≤ count ∧ (greatest ≠ Text.countBound - 1 → count ≤ greatest)} := by
  refine ⟨fun range => closest_arity, fun least greatest ordered => ?_⟩
  rw [← counts_between]
  exact closest_arity (ordered_between ordered)

/-- A range of three counts, and one between two bounds that are both the greatest count there is:
it has no upper bound, so it is more than that count. -/
theorem arity_closest_greatestCount :
    Ordered ⟨1, some 3⟩ ∧ arity ⟨1, some 3⟩ = .oneOrMore ∧
      Arity.oneOrMore.Closest (counts ⟨1, some 3⟩) ∧
      (between (Text.countBound - 1) (Text.countBound - 1)).arity = .oneOrMore ∧
      ∀ other : Arity, other ≠ .remainder → Set.Ici (Text.countBound - 1) ⊆ other.counts →
        Set.Ici 1 ⊆ other.counts := by
  have ordered : Ordered ⟨1, some 3⟩ := by
    rintro _ ⟨⟩
    decide
  obtain ⟨ofRange, ofBounds⟩ := arity_closest
  refine ⟨ordered, by decide, ofRange ⟨1, some 3⟩ ordered, by decide, ?_⟩
  intro other counted covers
  refine (ofBounds _ _ (Nat.le_refl (Text.countBound - 1))).least other counted ?_
  exact fun count member => covers member.1

end CountRange

end CommandCompletion
