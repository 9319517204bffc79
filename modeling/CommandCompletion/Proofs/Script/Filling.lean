import CommandCompletion.Proofs.Script.Pieces
import Mathlib.Data.List.TakeWhile

/-!
# Filling from left to right

Filling a template jumps from one at sign to the next, takes what stands between two of them for
a name, and goes on behind the second one if there is a hole of that name, and behind the first
one if there is none. That is the same as reading the template character by character (`scan`):
where the mark of a hole begins, the value of the hole is written and the mark is passed over,
and any other character is written as it is. For this the names must not hold at signs, since the
name of a mark ends at the next at sign.

So what is written for a template is fixed by the names of the holes, up to the values
themselves (`exists_parts`): no value is looked at again.
-/

set_option autoImplicit false

namespace CommandCompletion.Script

/-! ## Scanning -/

/-- How the hole of a name is written in a template. -/
def holeMark (name : List Char) : List Char :=
  '@' :: (name ++ ['@'])

/-- The first of the holes whose mark begins a text. -/
def firstHole? (holes : Holes) (text : List Char) : Option (List Char × List Char) :=
  holes.find? fun hole => (holeMark hole.1).isPrefixOf text

/-- Fills a template character by character: the value of a hole where its mark begins, and
otherwise the character that stands there. -/
def scan (holes : Holes) : List Char → List Char
  | [] => []
  | c :: rest =>
    match firstHole? holes (c :: rest) with
    | some hole => hole.2 ++ scan holes (rest.drop (hole.1.length + 1))
    | none => c :: scan holes rest
termination_by text => text.length
decreasing_by
  · rw [List.length_drop, List.length_cons]
    omega
  · exact Nat.lt_succ_self _

/-- A part of a template: a character that stays, or the hole of a name. -/
inductive TemplatePart where
  | kept (c : Char)
  | hole (name : List Char)

/-- What is written for a part; of several holes with its name the first one counts. -/
def TemplatePart.text (holes : Holes) : TemplatePart → List Char
  | .kept c => [c]
  | .hole name => (holes.lookup name).getD []

/-! ## Marks -/

section Marks

variable {holes : Holes}

theorem firstHole?_ordinary {c : Char} (ordinary : c ≠ '@') (rest : List Char) :
    firstHole? holes (c :: rest) = none := by
  refine List.find?_eq_none.mpr fun hole _ => ?_
  simp [holeMark, Ne.symm ordinary]

/-- A mark that begins at an at sign goes on to the next one. -/
theorem holeMark_prefix_iff {name found : List Char} (plain : '@' ∉ name) (free : '@' ∉ found)
    (behind : List Char) : holeMark name <+: '@' :: (found ++ '@' :: behind) ↔ name = found := by
  rw [holeMark, List.cons_prefix_cons, and_iff_right rfl]
  constructor
  · rintro ⟨more, same⟩
    rw [List.append_assoc, List.singleton_append] at same
    rw [← takeWhile_before plain more, same, takeWhile_before free]
  · rintro rfl
    exact ⟨behind, by simp⟩

/-- No mark begins at the last at sign. -/
theorem firstHole?_last {rest : List Char} (free : '@' ∉ rest) :
    firstHole? holes ('@' :: rest) = none := by
  refine List.find?_eq_none.mpr fun hole _ begins => ?_
  rw [List.isPrefixOf_iff_prefix, holeMark, List.cons_prefix_cons] at begins
  exact free (begins.2.subset (by simp))

theorem holeAt_last {rest : List Char} (free : '@' ∉ rest) : holeAt holes rest = none := by
  have nothing : rest.dropWhile (· != '@') = [] :=
    List.dropWhile_eq_nil_iff.mpr (ne_at_of_notMem free)
  rw [holeAt, nothing]

/-- The hole whose mark begins is the first one of its name. -/
theorem lookup_firstHole? {text : List Char} {hole : List Char × List Char}
    (found : firstHole? holes text = some hole) : holes.lookup hole.1 = some hole.2 := by
  induction holes with
  | nil => cases found
  | cons first others ih =>
    obtain ⟨name, value⟩ := first
    rw [firstHole?, List.find?_cons] at found
    split at found
    · cases found
      simp
    · rename_i skipped
      have apart : hole.1 ≠ name := by
        intro same
        have begins := List.find?_some found
        rw [same, skipped] at begins
        cases begins
      rw [List.lookup_cons, beq_eq_false_iff_ne.mpr apart]
      exact ih found

/-- Which mark begins depends on the names only. -/
theorem firstHole?_names (holes : Holes) (text : List Char) :
    (firstHole? holes text).map (·.1) =
      (holes.map (·.1)).find? fun name => (holeMark name).isPrefixOf text := by
  rw [List.find?_map]
  rfl

variable (plain : ∀ hole ∈ holes, '@' ∉ hole.1)
include plain

/-- Before a second at sign, the mark that begins is the one of the name in between. -/
theorem firstHole?_append {name : List Char} (free : '@' ∉ name) (behind : List Char) :
    firstHole? holes ('@' :: (name ++ '@' :: behind)) =
      (holes.lookup name).map fun value => (name, value) := by
  induction holes with
  | nil => rfl
  | cons first others ih =>
    obtain ⟨other, value⟩ := first
    obtain ⟨otherPlain, othersPlain⟩ := List.forall_mem_cons.mp plain
    have begins := holeMark_prefix_iff otherPlain free behind
    rw [← List.isPrefixOf_iff_prefix] at begins
    rw [firstHole?, List.find?_cons, List.lookup_cons]
    by_cases same : name = other
    · subst same
      simp [begins.mpr rfl]
    · rw [beq_eq_false_iff_ne.mpr same, Bool.eq_false_iff.mpr (mt begins.mp (Ne.symm same))]
      exact ih othersPlain

/-- What stands between two at signs is a hole if a mark begins there. -/
theorem holeAt_eq (rest : List Char) :
    holeAt holes rest = (firstHole? holes ('@' :: rest)).map fun hole =>
      (hole.2, rest.drop (hole.1.length + 1)) := by
  by_cases another : '@' ∈ rest
  · obtain ⟨name, behind, rfl, free⟩ := List.eq_append_cons_of_mem another
    rw [holeAt_append holes free, firstHole?_append plain free, Option.map_map]
    simp [Function.comp_def]
  · rw [holeAt_last another, firstHole?_last another, Option.map_none]

end Marks

/-! ## Filling -/

section Filling

variable {holes : Holes} (plain : ∀ hole ∈ holes, '@' ∉ hole.1)
include plain

/-- Filling a template is scanning it. -/
theorem fill_eq_scan (template : List Char) : fill holes template = scan holes template := by
  induction template using scan.induct holes with
  | case1 =>
    rw [fill_eq, scan]
    rfl
  | case2 c rest hole found ih =>
    rw [scan, found]
    by_cases atSign : c = '@'
    · subst atSign
      rw [fill_at, holeAt_eq plain, found]
      exact congrArg (hole.2 ++ ·) ih
    · rw [firstHole?_ordinary atSign] at found
      cases found
  | case3 c rest missing ih =>
    rw [scan, missing]
    by_cases atSign : c = '@'
    · subst atSign
      rw [fill_at, holeAt_eq plain, missing]
      exact congrArg ('@' :: ·) ih
    · rw [fill_char holes atSign, ih]

/-- A value takes the place of the mark of its hole, and filling goes on behind the mark. -/
theorem fill_mark {name value : List Char} (known : holes.lookup name = some value)
    (rest : List Char) : fill holes (holeMark name ++ rest) = value ++ fill holes rest := by
  obtain ⟨front, behind, listed, _⟩ := List.lookup_eq_some_iff.mp known
  have free : '@' ∉ name := plain (name, value) (by simp [listed])
  rw [holeMark, List.cons_append, List.append_assoc, List.singleton_append, fill_at,
    holeAt_append holes free, known]
  rfl

/-- An at sign at which no mark begins stays as it is, and filling goes on right behind it. -/
theorem fill_stray {rest : List Char}
    (stray : ∀ hole ∈ holes, ¬holeMark hole.1 <+: '@' :: rest) :
    fill holes ('@' :: rest) = '@' :: fill holes rest := by
  have missing : firstHole? holes ('@' :: rest) = none :=
    List.find?_eq_none.mpr fun hole member =>
      mt List.isPrefixOf_iff_prefix.mp (stray hole member)
  rw [fill_at, holeAt_eq plain, missing, Option.map_none]

/-- At signs in front of another one stay as they are, as long as no hole is without a name. -/
theorem fill_replicate (named : ∀ hole ∈ holes, hole.1 ≠ []) (count : Nat) (rest : List Char) :
    fill holes (List.replicate count '@' ++ '@' :: rest) =
      List.replicate count '@' ++ fill holes ('@' :: rest) := by
  induction count with
  | zero => rfl
  | succ count ih =>
    have next : ∃ more, List.replicate count '@' ++ '@' :: rest = '@' :: more := by
      cases count with
      | zero => exact ⟨rest, rfl⟩
      | succ count => exact ⟨_, rfl⟩
    obtain ⟨more, next⟩ := next
    have stray : ∀ hole ∈ holes,
        ¬holeMark hole.1 <+: '@' :: (List.replicate count '@' ++ '@' :: rest) := by
      intro hole member begins
      rw [next, ← List.nil_append ('@' :: more)] at begins
      have unnamed := (holeMark_prefix_iff (plain hole member) List.not_mem_nil more).mp begins
      exact named hole member unnamed
    rw [List.replicate_succ, List.cons_append, fill_stray plain stray, ih, List.cons_append]

end Filling

/-- The names of the holes divide a template into parts, whatever the values are. -/
theorem exists_parts (holes : Holes) (template : List Char) : ∃ parts : List TemplatePart,
    ∀ others : Holes, others.map (·.1) = holes.map (·.1) →
      scan others template = parts.flatMap (·.text others) := by
  induction template using scan.induct holes with
  | case1 => exact ⟨[], fun others _ => by rw [scan]; rfl⟩
  | case2 c rest hole found ih =>
    obtain ⟨parts, each⟩ := ih
    refine ⟨.hole hole.1 :: parts, fun others names => ?_⟩
    have sameName := firstHole?_names others (c :: rest)
    rw [names, ← firstHole?_names, found, Option.map_some, Option.map_eq_some_iff] at sameName
    obtain ⟨other, foundToo, same⟩ := sameName
    have value := lookup_firstHole? foundToo
    rw [same] at value
    rw [scan, foundToo, List.flatMap_cons, TemplatePart.text, value, Option.getD_some]
    simp only [same, each others names]
  | case3 c rest missing ih =>
    obtain ⟨parts, each⟩ := ih
    refine ⟨.kept c :: parts, fun others names => ?_⟩
    have noName := firstHole?_names others (c :: rest)
    rw [names, ← firstHole?_names, missing, Option.map_none, Option.map_eq_none_iff] at noName
    rw [scan, noName, List.flatMap_cons]
    simp only [each others names]
    rfl

/-- **Filling substitutes all holes at once, from the left.** If no name holds an at sign, filling a
template is scanning it character by character. The names alone divide the template into
characters that stay and holes that give way to values, so no value is looked at again. An at sign
at which no mark begins stays, and right behind any number of them a mark is still seen. -/
theorem fill_simultaneous {holes : Holes} (plain : ∀ hole ∈ holes, '@' ∉ hole.1) :
    (∀ template, fill holes template = scan holes template) ∧
    (∀ template, ∃ parts : List TemplatePart, ∀ others : Holes,
      others.map (·.1) = holes.map (·.1) → fill others template = parts.flatMap (·.text others)) ∧
    (∀ rest, (∀ hole ∈ holes, ¬holeMark hole.1 <+: '@' :: rest) →
      fill holes ('@' :: rest) = '@' :: fill holes rest) ∧
    ((∀ hole ∈ holes, hole.1 ≠ []) → ∀ count name value rest, holes.lookup name = some value →
      fill holes (List.replicate count '@' ++ (holeMark name ++ rest)) =
        List.replicate count '@' ++ (value ++ fill holes rest)) := by
  refine ⟨fill_eq_scan plain, fun template => ?_, fun rest => fill_stray plain, ?_⟩
  · obtain ⟨parts, each⟩ := exists_parts holes template
    refine ⟨parts, fun others names => ?_⟩
    have plainToo : ∀ hole ∈ others, '@' ∉ hole.1 := by
      intro hole member
      have listed : hole.1 ∈ holes.map (·.1) := names ▸ List.mem_map_of_mem member
      obtain ⟨own, ownMember, same⟩ := List.mem_map.mp listed
      exact same ▸ plain own ownMember
    rw [fill_eq_scan plainToo, each others names]
  · intro named count name value rest known
    have stays := fill_replicate plain named count (name ++ ['@'] ++ rest)
    rw [← fill_mark plain known rest]
    exact stays

/-- Holes whose values hold marks and at signs, and of which two have one name. -/
def nestingHoles : Holes :=
  [("FN".toList, "@ROOT@".toList), ("ROOT".toList, "r@".toList), ("FN".toList, "x".toList)]

theorem fill_simultaneous_nestingHoles :
    (∀ hole ∈ nestingHoles, '@' ∉ hole.1) ∧ (∀ hole ∈ nestingHoles, hole.1 ≠ []) ∧
      scan nestingHoles "@FN@ROOT@ROOT@ ${a[@]}".toList =
        "@ROOT@ROOTr@ ${a[@]}".toList ∧
      fill nestingHoles "@@@@FN@".toList = "@@@@ROOT@".toList := by
  have plain : ∀ hole ∈ nestingHoles, '@' ∉ hole.1 := by decide
  have named : ∀ hole ∈ nestingHoles, hole.1 ≠ [] := by decide
  obtain ⟨scanned, _, _, found⟩ := fill_simultaneous plain
  refine ⟨plain, named, ?_, ?_⟩
  · rw [← scanned]
    decide +kernel
  · have nothing : fill nestingHoles [] = [] := by rw [scanned, scan]
    have filled := found named 3 "FN".toList "@ROOT@".toList [] (by decide)
    rw [nothing] at filled
    exact filled

end CommandCompletion.Script
