/-!
# Templates

A template is a text with holes, each a name between two at signs. Filling puts values
into the holes in one pass from the left: the text of a value is never searched for
holes, an at sign that opens no known hole stays as it is, and the search goes on right
after it. So a hole is found even right behind stray at signs, and no value can bring
another hole in.
-/

set_option autoImplicit false

namespace CommandCompletion.Script

/-- Values of holes by name; of several values for one name the first one counts. -/
abbrev Holes := List (List Char × List Char)

/-- The value for the hole that begins right before a text, if a hole begins there, and the
text behind it. -/
def holeAt (holes : Holes) (text : List Char) : Option (List Char × List Char) :=
  let name := text.takeWhile (· != '@')
  match text.dropWhile (· != '@') with
  | [] => none
  | _ :: behind => (holes.lookup name).map fun value => (value, behind)

theorem length_holeAt {holes : Holes} {text value behind : List Char}
    (found : holeAt holes text = some (value, behind)) : behind.length < text.length := by
  unfold holeAt at found
  simp only at found
  split at found
  · simp at found
  · rename_i mark rest equal
    obtain ⟨filled, _, same⟩ := Option.map_eq_some_iff.mp found
    cases same
    have shorter : (text.dropWhile (· != '@')).length ≤ text.length :=
      (List.dropWhile_sublist _).length_le
    rw [equal, List.length_cons] at shorter
    exact shorter

/-- Fills the holes of a template. -/
def fill (holes : Holes) (template : List Char) : List Char :=
  let before := template.takeWhile (· != '@')
  match _equal : template.dropWhile (· != '@') with
  | [] => before
  | mark :: after =>
    match _found : holeAt holes after with
    | some (value, behind) => before ++ value ++ fill holes behind
    | none => before ++ mark :: fill holes after
termination_by template.length
decreasing_by
  · have shorter := (List.dropWhile_sublist (l := template) (· != '@')).length_le
    rw [_equal, List.length_cons] at shorter
    have := length_holeAt _found
    omega
  · have shorter := (List.dropWhile_sublist (l := template) (· != '@')).length_le
    rw [_equal, List.length_cons] at shorter
    omega

/-- Replaces a mark wherever it occurs in a text, from the left. The number counts the
characters that still belong to a mark replaced before. -/
def replaceMark (mark replacement : List Char) (skip : Nat) : List Char → List Char
  | [] => []
  | c :: rest =>
    if 0 < skip then replaceMark mark replacement (skip - 1) rest
    else if mark.isPrefixOf (c :: rest) then
      replacement ++ replaceMark mark replacement (mark.length - 1) rest
    else c :: replaceMark mark replacement 0 rest

/-- Lines of text, each with a newline at its end. -/
def lines (texts : List String) : List Char :=
  texts.flatMap fun text => text.toList ++ ['\n']

end CommandCompletion.Script
