import CommandCompletion.Script.Template
import Mathlib.Data.List.Infix

/-!
# Templates in pieces

A template can be split into pieces before anything is put into it: single characters and
holes (`split`). Assembling the pieces puts each value in its place and looks at nothing
again, whereas filling and replacing search a text for marks, which values or stray at
signs might bring in. Both come to the same where the pieces are legible (`Legible`): behind
every at sign that is no mark, and behind every mark, the capitals end at a character that
is no at sign. Then nothing is read as a mark but the marks.

Filling the holes of legible pieces assembles them (`fill_spell`). Replacing one mark
substitutes one hole (`replaceMark_spell`), and the pieces stay legible if the text that is
put in is legible by itself (`Guarded`). In such a text no mark stands (`Guarded.no_mark`),
and a text without at signs is one.
-/

set_option autoImplicit false

namespace CommandCompletion.Script

/-! ## Pieces -/

/-- What is put into the templates of scripts. -/
inductive Hole where
  | function
  | root
  | program
  | separator
  | marker
  /-- The blocks of the rules. -/
  | walk
  /-- The blocks of the sources of candidates. -/
  | sources
  /-- The test whether a candidate begins with the word. -/
  | comparison
  /-- The test whether a word looks like an option. -/
  | optionTest
  /-- The lines that fold the case of both sides. -/
  | caseFolding
  deriving DecidableEq

namespace Hole

/-- The name of a hole in templates. -/
def name : Hole → List Char
  | .function => ['F', 'N']
  | .root => ['R', 'O', 'O', 'T']
  | .program => ['P', 'R', 'O', 'G']
  | .separator => ['S', 'E', 'P']
  | .marker => ['M', 'A', 'R', 'K']
  | .walk => ['W', 'A', 'L', 'K']
  | .sources => ['S', 'O', 'U', 'R', 'C', 'E', 'S']
  | .comparison => ['M', 'A', 'T', 'C', 'H', 'E', 'R']
  | .optionTest => ['O', 'P', 'T', 'L', 'I', 'K', 'E']
  | .caseFolding => ['L', 'O', 'W', 'E', 'R']

/-- The end of the line of a hole that stands for lines of its own. -/
def tail : Hole → List Char
  | .caseFolding => ['\n']
  | .function | .root | .program | .separator | .marker | .walk | .sources | .comparison
  | .optionTest => []

/-- How a hole is written. -/
def mark (hole : Hole) : List Char :=
  '@' :: (hole.name ++ '@' :: hole.tail)

def all : List Hole :=
  [.function, .root, .program, .separator, .marker, .walk, .sources, .comparison, .optionTest,
    .caseFolding]

end Hole

/-- A piece of a template. -/
inductive Piece where
  | char (c : Char)
  | hole (hole : Hole)
  deriving DecidableEq

/-- The hole whose mark begins a text. -/
def markedHole? (c : Char) (rest : List Char) : Option Hole :=
  if c = '@' then Hole.all.find? fun hole => (hole.name ++ '@' :: hole.tail).isPrefixOf rest
  else none

/-- The pieces of a template of which some characters still belong to the mark before. -/
def splitFrom (skip : Nat) : List Char → List Piece
  | [] => []
  | c :: rest =>
    match skip with
    | skip + 1 => splitFrom skip rest
    | 0 =>
      match markedHole? c rest with
      | some hole => .hole hole :: splitFrom (hole.mark.length - 1) rest
      | none => .char c :: splitFrom 0 rest

/-- The pieces of a template. -/
def split (template : List Char) : List Piece :=
  splitFrom 0 template

/-- The text of pieces, each hole giving way to a value. -/
def assemble (value : Hole → List Char) (pieces : List Piece) : List Char :=
  pieces.flatMap fun
    | .char c => [c]
    | .hole hole => value hole

/-- The template that pieces are those of. -/
def spell (pieces : List Piece) : List Char :=
  assemble Hole.mark pieces

/-- The pieces with each hole giving way to other pieces. -/
def expand (inside : Hole → List Piece) (pieces : List Piece) : List Piece :=
  pieces.flatMap fun
    | .char c => [.char c]
    | .hole hole => inside hole

/-- A text as pieces. -/
def literal (text : List Char) : List Piece :=
  text.map .char

/-- The pieces with a text in the place of one hole. -/
def substitute (hole : Hole) (text : List Char) (pieces : List Piece) : List Piece :=
  expand (fun other => if other = hole then literal text else [.hole other]) pieces

section Assembling

variable (value : Hole → List Char) (c : Char) (hole : Hole) (pieces further : List Piece)

@[simp] theorem assemble_nil : assemble value [] = [] := rfl

@[simp] theorem assemble_char :
    assemble value (.char c :: pieces) = c :: assemble value pieces := rfl

@[simp] theorem assemble_hole :
    assemble value (.hole hole :: pieces) = value hole ++ assemble value pieces := rfl

theorem spell_char : spell (.char c :: pieces) = c :: spell pieces := rfl

theorem spell_hole : spell (.hole hole :: pieces) = hole.mark ++ spell pieces := rfl

@[simp] theorem assemble_append :
    assemble value (pieces ++ further) = assemble value pieces ++ assemble value further :=
  List.flatMap_append

@[simp] theorem assemble_literal (text : List Char) : assemble value (literal text) = text := by
  induction text with
  | nil => rfl
  | cons c text ih => exact congrArg (c :: ·) ih

theorem assemble_expand (inside : Hole → List Piece) :
    assemble value (expand inside pieces) =
      assemble (fun hole => assemble value (inside hole)) pieces := by
  rw [assemble, expand, List.flatMap_assoc]
  refine List.flatMap_congr fun piece _ => ?_
  cases piece with
  | char c => rfl
  | hole hole => rfl

theorem assemble_substitute (text : List Char) :
    assemble value (substitute hole text pieces) =
      assemble (Function.update value hole text) pieces := by
  rw [substitute, assemble_expand]
  congr 1
  funext other
  by_cases same : other = hole
  · rw [same, if_pos rfl, assemble_literal, Function.update_self]
  · rw [if_neg same, Function.update_of_ne same]
    exact List.append_nil _

theorem hole_mem_substitute {other : Hole} {text : List Char}
    (member : .hole other ∈ substitute hole text pieces) :
    .hole other ∈ pieces ∧ other ≠ hole := by
  obtain ⟨piece, listed, made⟩ := List.mem_flatMap.mp member
  cases piece with
  | char c => cases List.mem_singleton.mp made
  | hole inside =>
    simp only at made
    split at made
    · obtain ⟨c, _, impossible⟩ := List.mem_map.mp made
      cases impossible
    · rename_i apart
      cases List.mem_singleton.mp made
      exact ⟨listed, apart⟩

end Assembling

/-- Where marks are skipped nothing is read. -/
theorem splitFrom_append (skipped rest : List Char) :
    splitFrom skipped.length (skipped ++ rest) = splitFrom 0 rest := by
  induction skipped with
  | nil => rfl
  | cons c skipped ih => exact ih

theorem exists_of_markedHole {c : Char} {rest : List Char} {hole : Hole}
    (found : markedHole? c rest = some hole) :
    ∃ behind, c = '@' ∧ rest = hole.name ++ '@' :: hole.tail ++ behind := by
  unfold markedHole? at found
  split at found
  · rename_i same
    have here : (hole.name ++ '@' :: hole.tail).isPrefixOf rest = true := by
      simpa using List.find?_some found
    obtain ⟨behind, rest_eq⟩ := List.isPrefixOf_iff_prefix.mp here
    exact ⟨behind, same, rest_eq.symm⟩
  · cases found

/-- The pieces of a template spell it. -/
theorem spell_split (template : List Char) : spell (split template) = template := by
  induction length : template.length using Nat.strongRecOn generalizing template with
  | ind size ih =>
    cases template with
    | nil => rfl
    | cons c rest =>
      rw [split, splitFrom]
      split
      · rename_i hole found
        obtain ⟨behind, rfl, rfl⟩ := exists_of_markedHole found
        have shorter : behind.length < size := by
          rw [← length, List.length_cons, List.length_append]
          omega
        have later : hole.mark.length - 1 = (hole.name ++ '@' :: hole.tail).length := rfl
        rw [later, splitFrom_append, spell_hole]
        exact congrArg (hole.mark ++ ·) (ih _ shorter behind rfl)
      · have shorter : rest.length < size := by
          rw [← length, List.length_cons]
          omega
        rw [spell, assemble_char]
        exact congrArg (c :: ·) (ih _ shorter rest rfl)

/-- Pieces without holes are the characters that they spell. -/
theorem literal_spell {pieces : List Piece} (free : ∀ hole, .hole hole ∉ pieces) :
    literal (spell pieces) = pieces := by
  induction pieces with
  | nil => rfl
  | cons piece rest ih =>
    have later := ih fun hole member => free hole (List.mem_cons_of_mem piece member)
    cases piece with
    | char c => exact congrArg (Piece.char c :: ·) later
    | hole hole => exact absurd List.mem_cons_self (free hole)

/-! ## Legible pieces -/

/-- A character of the names of holes. -/
def isCapital (c : Char) : Bool :=
  'A' ≤ c && c ≤ 'Z'

/-- Whether the capitals at the beginning end at a character other than an at sign, so that they
are no name of a hole. -/
def endsName : List Piece → Bool
  | .char c :: rest => c != '@' && (!isCapital c || endsName rest)
  | .hole _ :: _ | [] => false

/-- Whether nothing in the text of some pieces reads as a mark but the marks. -/
def legible : List Piece → Bool
  | [] => true
  | .char c :: rest => (c != '@' || endsName rest) && legible rest
  | .hole _ :: rest => endsName rest && legible rest

/-- Pieces in whose text nothing reads as a mark but the marks. -/
def Legible (pieces : List Piece) : Prop :=
  legible pieces = true

instance (pieces : List Piece) : Decidable (Legible pieces) :=
  inferInstanceAs (Decidable (legible pieces = true))

/-- A text in which nothing reads as a mark, whatever it is put between. -/
def Guarded (text : List Char) : Prop :=
  Legible (literal text)

instance (text : List Char) : Decidable (Guarded text) :=
  inferInstanceAs (Decidable (Legible (literal text)))

theorem Hole.isCapital_of_mem_name {hole : Hole} {c : Char} (member : c ∈ hole.name) :
    isCapital c = true := by
  have all : hole.name.all isCapital = true := by cases hole <;> decide
  exact List.all_eq_true.mp all c member

theorem endsName_append {pieces : List Piece} (ends : endsName pieces = true)
    (further : List Piece) : endsName (pieces ++ further) = true := by
  induction pieces with
  | nil => cases ends
  | cons piece rest ih =>
    cases piece with
    | hole hole => cases ends
    | char c =>
      simp only [endsName, Bool.and_eq_true, Bool.or_eq_true, List.cons_append] at ends ⊢
      exact ⟨ends.1, ends.2.imp_right ih⟩

theorem endsName_expand {pieces : List Piece} (ends : endsName pieces = true)
    (inside : Hole → List Piece) : endsName (expand inside pieces) = true := by
  induction pieces with
  | nil => cases ends
  | cons piece rest ih =>
    cases piece with
    | hole hole => cases ends
    | char c =>
      simp only [endsName, Bool.and_eq_true, Bool.or_eq_true, expand, List.flatMap_cons,
        List.singleton_append] at ends ⊢
      exact ⟨ends.1, ends.2.imp_right ih⟩

namespace Legible

theorem append {pieces further : List Piece} (first : Legible pieces)
    (second : Legible further) : Legible (pieces ++ further) := by
  induction pieces with
  | nil => exact second
  | cons piece rest ih =>
    unfold Legible at first ih ⊢
    cases piece with
    | char c =>
      simp only [legible, Bool.and_eq_true, Bool.or_eq_true, List.cons_append] at first ⊢
      exact ⟨first.1.imp_right fun ends => endsName_append ends further, ih first.2⟩
    | hole hole =>
      simp only [legible, Bool.and_eq_true, List.cons_append] at first ⊢
      exact ⟨endsName_append first.1 further, ih first.2⟩

/-- Pieces stay legible if what a hole gives way to is legible by itself. -/
theorem expand {pieces : List Piece} {inside : Hole → List Piece} (readable : Legible pieces)
    (each : ∀ hole, .hole hole ∈ pieces → inside hole = [.hole hole] ∨ Legible (inside hole)) :
    Legible (expand inside pieces) := by
  induction pieces with
  | nil => rfl
  | cons piece rest ih =>
    have others := fun hole member => each hole (List.mem_cons_of_mem piece member)
    unfold Legible at readable
    cases piece with
    | char c =>
      simp only [legible, Bool.and_eq_true, Bool.or_eq_true] at readable
      have later := ih readable.2 others
      unfold Legible at later ⊢
      simp only [Script.expand, List.flatMap_cons, List.singleton_append, legible,
        Bool.and_eq_true, Bool.or_eq_true]
      exact ⟨readable.1.imp_right fun ends => endsName_expand ends inside, later⟩
    | hole hole =>
      simp only [legible, Bool.and_eq_true] at readable
      have later := ih readable.2 others
      change Legible (inside hole ++ Script.expand inside rest)
      rcases each hole List.mem_cons_self with kept | own
      · rw [kept]
        exact Bool.and_eq_true_iff.mpr ⟨endsName_expand readable.1 inside, later⟩
      · exact own.append later

theorem substitute {pieces : List Piece} (readable : Legible pieces) {text : List Char}
    (guarded : Guarded text) (hole : Hole) : Legible (substitute hole text pieces) := by
  refine readable.expand fun other _ => ?_
  by_cases same : other = hole
  · rw [if_pos same]
    exact .inr guarded
  · rw [if_neg same]
    exact .inl rfl

end Legible

/-! ## Texts without marks -/

/-- Behind an at sign that is no mark, no name of a hole ends at an at sign. -/
theorem not_prefix_of_endsName {pieces : List Piece} (ends : endsName pieces = true)
    {name : List Char} (capitals : ∀ c ∈ name, isCapital c = true) (tail : List Char) :
    (name ++ '@' :: tail).isPrefixOf (spell pieces) = false := by
  induction pieces generalizing name with
  | nil => cases ends
  | cons piece rest ih =>
    cases piece with
    | hole hole => cases ends
    | char c =>
      simp only [endsName, Bool.and_eq_true, bne_iff_ne, ne_eq, Bool.or_eq_true,
        Bool.not_eq_true'] at ends
      rw [spell, assemble_char]
      cases name with
      | nil =>
        have apart : ('@' == c) = false := beq_eq_false_iff_ne.mpr (Ne.symm ends.1)
        simp only [List.nil_append, List.isPrefixOf, apart, Bool.false_and]
      | cons first others =>
        obtain ⟨capital, others_capital⟩ := List.forall_mem_cons.mp capitals
        simp only [List.cons_append, List.isPrefixOf, Bool.and_eq_false_iff]
        rcases ends.2 with ordinary | later
        · refine .inl (beq_eq_false_iff_ne.mpr ?_)
          rintro rfl
          rw [capital] at ordinary
          cases ordinary
        · exact .inr (ih later others_capital)

theorem spell_literal (text : List Char) : spell (literal text) = text :=
  assemble_literal Hole.mark text

namespace Guarded

theorem append {text further : List Char} (first : Guarded text) (second : Guarded further) :
    Guarded (text ++ further) := by
  rw [Guarded, literal, List.map_append]
  exact Legible.append first second

theorem cons {c : Char} {text : List Char} (guarded : Guarded text)
    (ends : c ≠ '@' ∨ endsName (literal text) = true) : Guarded (c :: text) := by
  refine Bool.and_eq_true_iff.mpr ⟨?_, guarded⟩
  rw [Bool.or_eq_true, bne_iff_ne]
  exact ends

theorem of_notMem {text : List Char} (free : '@' ∉ text) : Guarded text := by
  induction text with
  | nil => rfl
  | cons c text ih =>
    obtain ⟨first, others⟩ := not_or.mp (mt List.mem_cons.mpr free)
    exact (ih others).cons (.inl (Ne.symm first))

theorem flatMap {α : Type} {write : α → List Char} {items : List α}
    (each : ∀ item ∈ items, Guarded (write item)) : Guarded (items.flatMap write) := by
  induction items with
  | nil => rfl
  | cons item items ih =>
    obtain ⟨first, others⟩ := List.forall_mem_cons.mp each
    exact first.append (ih others)

/-- A guarded text holds no mark. -/
theorem no_mark {text : List Char} (guarded : Guarded text) (hole : Hole) :
    ¬('@' :: (hole.name ++ ['@'])) <:+: text := by
  induction text with
  | nil => simp
  | cons c text ih =>
    unfold Guarded Legible at guarded ih
    simp only [literal, List.map_cons, legible, Bool.and_eq_true, Bool.or_eq_true] at guarded
    rw [List.infix_cons_iff]
    rintro (here | later)
    · obtain ⟨rfl, names⟩ := List.cons_prefix_cons.mp here
      have ends : endsName (literal text) = true := guarded.1.resolve_left (by decide)
      have apart := not_prefix_of_endsName ends (fun _ => hole.isCapital_of_mem_name) []
      rw [spell_literal, ← Bool.not_eq_true, List.isPrefixOf_iff_prefix] at apart
      exact apart names
    · exact ih guarded.2 later

end Guarded

/-- What is assembled of legible pieces and guarded values is guarded. -/
theorem Legible.guarded_assemble {pieces : List Piece} (readable : Legible pieces)
    {value : Hole → List Char} (each : ∀ hole, .hole hole ∈ pieces → Guarded (value hole)) :
    Guarded (assemble value pieces) := by
  have same : literal (assemble value pieces) =
      Script.expand (fun hole => literal (value hole)) pieces := by
    rw [literal, assemble, List.map_flatMap]
    refine List.flatMap_congr fun piece _ => ?_
    cases piece with
    | char c => rfl
    | hole hole => rfl
  rw [Guarded, same]
  exact readable.expand fun hole member => .inr (each hole member)

/-! ## Replacing -/

section Replacing

variable (mark replacement : List Char)

theorem replaceMark_skipped (skipped rest : List Char) :
    replaceMark mark replacement skipped.length (skipped ++ rest) =
      replaceMark mark replacement 0 rest := by
  induction skipped with
  | nil => rfl
  | cons c skipped ih =>
    rw [List.cons_append, replaceMark, List.length_cons, if_pos (Nat.succ_pos _)]
    exact ih

theorem replaceMark_other {c : Char} {rest : List Char}
    (other : mark.isPrefixOf (c :: rest) = false) :
    replaceMark mark replacement 0 (c :: rest) = c :: replaceMark mark replacement 0 rest := by
  rw [replaceMark, if_neg (Nat.lt_irrefl 0), other]
  rfl

theorem replaceMark_here {c : Char} {behind : List Char} (rest : List Char)
    (same : mark = c :: behind) :
    replaceMark mark replacement 0 (mark ++ rest) =
      replacement ++ replaceMark mark replacement 0 rest := by
  have here : mark.isPrefixOf (c :: (behind ++ rest)) = true := by
    rw [List.isPrefixOf_iff_prefix, same]
    exact List.prefix_append _ _
  have later : mark.length - 1 = behind.length := by
    rw [same]
    rfl
  conv =>
    lhs
    rw [same, List.cons_append, replaceMark, if_neg (Nat.lt_irrefl 0), ← same, if_pos here]
  rw [later, replaceMark_skipped]

end Replacing

theorem Hole.at_notMem_name (hole : Hole) : '@' ∉ hole.name := by
  cases hole <;> decide

theorem Hole.at_notMem_tail (hole : Hole) : '@' ∉ hole.tail := by
  cases hole <;> decide

/-- Behind the tail of a mark the capitals end where they end behind the mark. -/
theorem endsName_tail {pieces : List Piece} (ends : endsName pieces = true) (hole : Hole) :
    endsName (literal hole.tail ++ pieces) = true := by
  cases hole with
  | caseFolding => rfl
  | function | root | program | separator | marker | walk | sources | comparison | optionTest =>
    exact ends

theorem ne_at_of_notMem {text : List Char} (free : '@' ∉ text) : ∀ c ∈ text, (c != '@') = true :=
  fun _ member => bne_iff_ne.mpr fun same => free (same ▸ member)

theorem takeWhile_before {text : List Char} (free : '@' ∉ text) (rest : List Char) :
    (text ++ '@' :: rest).takeWhile (· != '@') = text := by
  rw [List.takeWhile_append_of_pos (ne_at_of_notMem free), List.takeWhile_cons_of_neg (by decide),
    List.append_nil]

/-- The mark of a hole begins with the mark of no other hole. -/
theorem not_prefix_of_ne {hole other : Hole} (apart : other ≠ hole) (tail rest : List Char) :
    (hole.name ++ '@' :: tail).isPrefixOf (other.name ++ '@' :: rest) = false := by
  rw [← Bool.not_eq_true, List.isPrefixOf_iff_prefix]
  rintro ⟨behind, same⟩
  rw [List.append_assoc, List.cons_append] at same
  have names : hole.name = other.name := by
    rw [← takeWhile_before hole.at_notMem_name, same, takeWhile_before other.at_notMem_name]
  refine apart ?_
  clear same apart
  cases hole <;> cases other <;> first | rfl | cases names

/-- Characters other than at signs begin no mark. -/
theorem replaceMark_before (hole : Hole) (text : List Char) {before : List Char}
    (free : '@' ∉ before) (rest : List Char) :
    replaceMark hole.mark text 0 (before ++ rest) =
      before ++ replaceMark hole.mark text 0 rest := by
  induction before with
  | nil => rfl
  | cons c before ih =>
    obtain ⟨first, others⟩ := not_or.mp (mt List.mem_cons.mpr free)
    have other : hole.mark.isPrefixOf (c :: (before ++ rest)) = false := by
      simp only [Hole.mark, List.isPrefixOf, beq_eq_false_iff_ne.mpr first, Bool.false_and]
    rw [List.cons_append, replaceMark_other _ _ other, ih others, List.cons_append]

/-- An at sign behind which no name of a hole ends at an at sign begins no mark. -/
theorem replaceMark_at (hole : Hole) (text : List Char) {rest : List Char}
    (apart : (hole.name ++ '@' :: hole.tail).isPrefixOf rest = false) :
    replaceMark hole.mark text 0 ('@' :: rest) = '@' :: replaceMark hole.mark text 0 rest :=
  replaceMark_other _ _ (by simp only [Hole.mark, List.isPrefixOf, apart, Bool.and_false])

/-- Replacing the mark of a hole substitutes the hole. -/
theorem replaceMark_spell (hole : Hole) (text : List Char) {pieces : List Piece}
    (readable : Legible pieces) :
    replaceMark hole.mark text 0 (spell pieces) = spell (substitute hole text pieces) := by
  have capitals : ∀ c ∈ hole.name, isCapital c = true := fun _ => hole.isCapital_of_mem_name
  have substituted (pieces : List Piece) : spell (substitute hole text pieces) =
      assemble (Function.update Hole.mark hole text) pieces :=
    assemble_substitute _ _ _ _
  induction pieces with
  | nil => rfl
  | cons piece rest ih =>
    unfold Legible at readable
    cases piece with
    | char c =>
      simp only [legible, Bool.and_eq_true, Bool.or_eq_true, bne_iff_ne] at readable
      have others := ih readable.2
      rw [substituted] at others ⊢
      rw [assemble_char, ← others, spell_char]
      by_cases stray : c = '@'
      · rw [stray]
        exact replaceMark_at hole text
          (not_prefix_of_endsName (readable.1.resolve_left (not_not.mpr stray)) capitals _)
      · have free : '@' ∉ [c] := fun member => stray (List.mem_singleton.mp member).symm
        exact replaceMark_before hole text free _
    | hole other =>
      simp only [legible, Bool.and_eq_true] at readable
      have others := ih readable.2
      rw [substituted] at others ⊢
      rw [assemble_hole, ← others, spell_hole]
      by_cases same : other = hole
      · rw [same, Function.update_self]
        exact replaceMark_here hole.mark text _ rfl
      · -- The two at signs of another mark begin nothing, and its other characters do not either.
        have closing : (hole.name ++ '@' :: hole.tail).isPrefixOf (other.tail ++ spell rest) =
            false := by
          have ends := endsName_tail readable.1 other
          simpa [spell] using not_prefix_of_endsName ends capitals hole.tail
        have opening := not_prefix_of_ne same hole.tail (other.tail ++ spell rest)
        have spelled (behind : List Char) : other.mark ++ behind =
            '@' :: (other.name ++ '@' :: (other.tail ++ behind)) := by
          rw [Hole.mark, List.cons_append, List.append_assoc, List.cons_append]
        rw [Function.update_of_ne same, spelled, spelled, replaceMark_at hole text opening,
          replaceMark_before hole text other.at_notMem_name, replaceMark_at hole text closing,
          replaceMark_before hole text other.at_notMem_tail]

/-! ## Filling -/

section Filling

variable (holes : Holes)

theorem fill_eq (template : List Char) :
    fill holes template = template.takeWhile (· != '@') ++
      match template.dropWhile (· != '@') with
      | [] => []
      | mark :: after =>
        match holeAt holes after with
        | some (value, behind) => value ++ fill holes behind
        | none => mark :: fill holes after := by
  rw [fill]
  split
  · rename_i behind
    rw [behind, List.append_nil]
  · rename_i mark after behind
    rw [behind]
    split
    · rename_i value rest found
      simp only [found, List.append_assoc]
    · rename_i found
      simp only [found]

theorem fill_char {c : Char} (ordinary : c ≠ '@') (rest : List Char) :
    fill holes (c :: rest) = c :: fill holes rest := by
  have keep : (c != '@') = true := bne_iff_ne.mpr ordinary
  rw [fill_eq, fill_eq]
  simp only [List.takeWhile_cons, List.dropWhile_cons, keep, if_true, List.cons_append]

theorem fill_at (rest : List Char) :
    fill holes ('@' :: rest) =
      match holeAt holes rest with
      | some (value, behind) => value ++ fill holes behind
      | none => '@' :: fill holes rest := by
  rw [fill_eq, List.takeWhile_cons_of_neg (by decide), List.dropWhile_cons_of_neg (by decide)]
  rfl

/-- What stands before the next at sign is taken for a name. -/
theorem holeAt_append {name : List Char} (free : '@' ∉ name) (rest : List Char) :
    holeAt holes (name ++ '@' :: rest) = (holes.lookup name).map fun value => (value, rest) := by
  have behind : (name ++ '@' :: rest).dropWhile (· != '@') = '@' :: rest := by
    rw [List.dropWhile_append_of_pos (ne_at_of_notMem free),
      List.dropWhile_cons_of_neg (by decide)]
  rw [holeAt, takeWhile_before free, behind]

/-- Where the capitals do not end at an at sign, what stands before the next one is no name. -/
theorem exists_not_capital {pieces : List Piece} (ends : endsName pieces = true) :
    ∃ c ∈ (spell pieces).takeWhile (· != '@'), isCapital c = false := by
  induction pieces with
  | nil => cases ends
  | cons piece rest ih =>
    cases piece with
    | hole hole => cases ends
    | char c =>
      simp only [endsName, Bool.and_eq_true, Bool.or_eq_true, Bool.not_eq_true'] at ends
      simp only [spell_char, List.takeWhile_cons, ends.1, if_true]
      rcases ends.2 with ordinary | later
      · exact ⟨c, List.mem_cons_self, ordinary⟩
      · obtain ⟨other, member, ordinary⟩ := ih later
        exact ⟨other, List.mem_cons_of_mem c member, ordinary⟩

variable {holes} (named : ∀ entry ∈ holes, ∀ c ∈ entry.1, isCapital c = true)
include named

/-- No hole stands where the capitals do not end at an at sign. -/
theorem holeAt_of_endsName {pieces : List Piece} (ends : endsName pieces = true) :
    holeAt holes (spell pieces) = none := by
  have unknown : holes.lookup ((spell pieces).takeWhile (· != '@')) = none := by
    obtain ⟨c, member, ordinary⟩ := exists_not_capital ends
    refine List.lookup_eq_none_iff.mpr fun entry listed => bne_iff_ne.mpr fun same => ?_
    rw [same] at member
    rw [named entry listed c member] at ordinary
    cases ordinary
  simp only [holeAt, unknown]
  split <;> rfl

/-- Filling the holes of legible pieces assembles the pieces, if each of their holes has a value. -/
theorem fill_spell {pieces : List Piece} (readable : Legible pieces) {value : Hole → List Char}
    (known : ∀ hole, .hole hole ∈ pieces →
      hole.tail = [] ∧ holes.lookup hole.name = some (value hole)) :
    fill holes (spell pieces) = assemble value pieces := by
  induction pieces with
  | nil =>
    rw [spell, assemble_nil, assemble_nil, fill_eq]
    rfl
  | cons piece rest ih =>
    have others := fun hole member => known hole (List.mem_cons_of_mem piece member)
    unfold Legible at readable
    cases piece with
    | char c =>
      simp only [legible, Bool.and_eq_true, Bool.or_eq_true, bne_iff_ne] at readable
      rw [assemble_char, ← ih readable.2 others, spell_char]
      by_cases stray : c = '@'
      · have ends := readable.1.resolve_left (not_not.mpr stray)
        rw [stray, fill_at, holeAt_of_endsName named ends]
      · exact fill_char holes stray _
    | hole hole =>
      simp only [legible, Bool.and_eq_true] at readable
      obtain ⟨bare, found⟩ := known hole List.mem_cons_self
      rw [assemble_hole, ← ih readable.2 others, spell_hole, Hole.mark, bare, List.cons_append,
        List.append_assoc, List.cons_append, List.nil_append, fill_at,
        holeAt_append holes hole.at_notMem_name, found]
      rfl

end Filling

end CommandCompletion.Script
