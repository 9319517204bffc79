import CommandCompletion.Proofs.Toml.Strings
import CommandCompletion.Toml.Statement
import Mathlib.Data.List.TakeWhile

/-!
# Counts and keys of TOML

The digits in which a count is printed are an atom that denotes this count: they are no fraction, no
date and no time (`Scalar.ofAtom_toDigits`).

A name is written as it is, if its characters allow it, or as a string on one line
(`SpelledName`). Names without quotes may be joined by dots to a key (`SpelledKey`); such a key is a
single atom, which is cut at its dots.
-/

set_option autoImplicit false

namespace CommandCompletion.Toml

/-! ## Numbers -/

namespace Scalar

variable {atom : List Char}

theorem plainDigits_eq_self (nonempty : atom ≠ [])
    (digits : ∀ c ∈ atom, Text.isDigit c = true) : plainDigits Text.isDigit atom = some atom := by
  induction atom with
  | nil => exact absurd rfl nonempty
  | cons c rest ih =>
    obtain ⟨here, later⟩ := List.forall_mem_cons.mp digits
    cases rest with
    | nil => simp [plainDigits, here]
    | cons next others =>
      have notLine : next ≠ '_' := by
        rintro rfl
        cases later '_' List.mem_cons_self
      have same := ih (List.cons_ne_nil _ _) later
      unfold plainDigits
      split
      · rename_i impossible
        cases impossible
      · rename_i single
        cases single
      · rename_i under
        cases under
        exact absurd rfl notLine
      · rename_i split
        cases split
        rw [if_pos here, same, Option.map_some]

theorem colon_mem_of_isTime (time : isTime atom = true) : ':' ∈ atom := by
  unfold isTime at time
  split at time
  · simp
  · cases time

theorem hyphen_mem_of_isDate (date : isDate atom = true) : '-' ∈ atom := by
  unfold isDate at date
  split at date
  · rename_i behind
    refine List.mem_of_mem_drop ?_ (i := 4)
    rw [behind]
    exact List.mem_cons_self
  · cases date

/-- Digits are no time of day, no date, and no time after a date. -/
theorem isMoment_digits (digits : ∀ c ∈ atom, Text.isDigit c = true) : isMoment atom = false := by
  have noTime : isTime atom = false :=
    Bool.eq_false_iff.mpr fun time => Bool.noConfusion (digits ':' (colon_mem_of_isTime time))
  have noDate : isDate atom = false :=
    Bool.eq_false_iff.mpr fun date => Bool.noConfusion (digits '-' (hyphen_mem_of_isDate date))
  have noFront : isDate (atom.take 10) = false :=
    Bool.eq_false_iff.mpr fun date =>
      Bool.noConfusion (digits '-' (List.mem_of_mem_take (hyphen_mem_of_isDate date)))
  simp [isMoment, noTime, noDate, noFront]

theorem splitSign_digits (digits : ∀ c ∈ atom, Text.isDigit c = true) :
    splitSign atom = (none, atom) := by
  unfold splitSign
  split
  · cases digits '+' List.mem_cons_self
  · cases digits '-' List.mem_cons_self
  · rfl

theorem splitAtFirst_absent {isMark : Char → Bool} (absent : ∀ c ∈ atom, isMark c = false) :
    splitAtFirst isMark atom = (atom, none) := by
  have kept : ∀ c ∈ atom, (!isMark c) = true := fun c member => by rw [absent c member]; rfl
  rw [splitAtFirst, List.takeWhile_eq_self_iff.mpr kept, List.dropWhile_eq_nil_iff.mpr kept]

/-- Digits alone are no fraction. -/
theorem ofAtom?_digits (digits : ∀ c ∈ atom, Text.isDigit c = true) :
    Fraction.ofAtom? atom = none := by
  have noExponent : ∀ c ∈ atom, (c == 'e' || c == 'E') = false := by
    intro c member
    have digit := digits c member
    rw [Bool.or_eq_false_iff, beq_eq_false_iff_ne, beq_eq_false_iff_ne]
    constructor <;> rintro rfl <;> cases digit
  have noPoint : ∀ c ∈ atom, (c == '.') = false := by
    intro c member
    have digit := digits c member
    rw [beq_eq_false_iff_ne]
    rintro rfl
    cases digit
  simp [Fraction.ofAtom?, splitSign_digits digits, splitAtFirst_absent noExponent,
    splitAtFirst_absent noPoint]

/-- The digits in which a count is printed denote this count. -/
theorem ofAtom_toDigits {value : Nat} (small : value < Text.countBound) :
    ofAtom (Nat.toDigits 10 value) = some (.count value) := by
  have digits : ∀ c ∈ Nat.toDigits 10 value, Text.isDigit c = true :=
    fun _ => Text.isDigit_of_mem_toDigits
  have other : ∀ {word : List Char} (letter : Char), letter ∈ word → Text.isDigit letter = false →
      Nat.toDigits 10 value ≠ word := by
    rintro word letter member notDigit rfl
    rw [digits letter member] at notDigit
    cases notDigit
  have plain : decimalDigits (Nat.toDigits 10 value) = some (Nat.toDigits 10 value) := by
    rw [decimalDigits, plainDigits_eq_self Nat.toDigits_ne_nil digits]
    split
    · rename_i zero
      cases Text.toDigits_eq_cons_zero (Option.some.inj zero)
    · rfl
  have unsigned := splitSign_digits digits
  have notSpecial : isSpecial (Nat.toDigits 10 value) = false := by
    rw [isSpecial, unsigned, Bool.or_eq_false_iff, beq_eq_false_iff_ne, beq_eq_false_iff_ne]
    exact ⟨other 'n' (by decide) (by decide), other 'n' (by decide) (by decide)⟩
  have whole : whole? (Nat.toDigits 10 value) = some (.count value) := by
    unfold whole?
    split
    · cases digits 'x' (by simp [*])
    · cases digits 'o' (by simp [*])
    · cases digits 'b' (by simp [*])
    · simp [unsigned, plain, ofInteger, Text.valueOfDigits_toDigits, small]
  rw [ofAtom, if_neg (other 't' (by decide) (by decide)), if_neg (other 'f' (by decide) (by decide)),
    notSpecial, isMoment_digits digits, ofAtom?_digits digits]
  exact whole

end Scalar

/-! ## Atoms of plain characters -/

theorem isAtomic_of_bare {c : Char} (bare : isBareCharacter c = true) : isAtomic c = true := by
  rw [isAtomic, Bool.and_eq_true, Option.isNone_iff_eq_none, Option.isNone_iff_eq_none]
  constructor
  · unfold Scan.mark?
    split <;> first | rfl | cases bare
  · unfold Scan.opening?
    split <;> first | rfl | cases bare

theorem isBareCharacter_of_isDigit {c : Char} (digit : Text.isDigit c = true) :
    isBareCharacter c = true := by
  simp [isBareCharacter, Text.isAlphanumeric, digit]

theorem hyphen_mem_of_isDateForm {text : List Char} (date : isDateForm text = true) :
    '-' ∈ text := by
  rw [isDateForm, Bool.and_eq_true, beq_iff_eq] at date
  obtain ⟨length, fits⟩ := date
  match text, length with
  | [_, _, _, _, fifth, _, _, _, _, _], _ =>
    have hyphen : fifth = '-' := by
      have here := List.all_eq_true.mp fits (fifth, '-') (by simp)
      simpa using here
    simp [hyphen]

/-! ## Names and keys -/

/-- The ways of writing a name. -/
inductive SpelledName : String → List Char → Prop where
  | bare {name : List Char} (nonempty : name ≠ [])
      (bare : ∀ c ∈ name, isBareCharacter c = true) (noDate : isDateForm name = false) :
      SpelledName (String.ofList name) name
  | quoted {quote : Quote} {name pieces : List Char} (spelled : SpelledLine quote name pieces) :
      SpelledName (String.ofList name) (quote.character :: pieces ++ [quote.character])

/-- The ways of writing a key without quotes. -/
inductive SpelledKey : Key → List Char → Prop where
  | joined {path : List (List Char)} {name : List Char}
      (nonempty : ∀ part ∈ path ++ [name], part ≠ [])
      (bare : ∀ part ∈ path ++ [name], ∀ c ∈ part, isBareCharacter c = true)
      (few : path.length < KeyReading.maximalLength)
      (noDate : isDateForm (['.'].intercalate (path ++ [name])) = false) :
      SpelledKey ⟨path.map String.ofList, String.ofList name⟩ (['.'].intercalate (path ++ [name]))

namespace KeyReading

theorem bareName_eq {characters : List Char} (nonempty : characters ≠ [])
    (bare : ∀ c ∈ characters, isBareCharacter c = true) (reading : KeyReading) :
    reading.bareName characters = reading.name characters := by
  simp [bareName, nonempty, List.all_eq_true.mpr bare]

theorem name_eq {names : List String} (few : names.length < maximalLength)
    (characters : List Char) :
    name ⟨names, false⟩ characters = some ⟨String.ofList characters :: names, true⟩ := by
  simp [name, few]

theorem splitFrom_of_notMem {separator : Char} {text : List Char} (absent : separator ∉ text)
    (piece : List Char) : Path.splitFrom separator piece text = [piece.reverse ++ text] := by
  induction text generalizing piece with
  | nil => rw [Path.splitFrom, List.append_nil]
  | cons c rest ih =>
    obtain ⟨different, later⟩ := List.ne_and_not_mem_of_not_mem_cons absent
    rw [Path.splitFrom, if_neg different.symm, ih later, List.reverse_cons, List.append_assoc]
    rfl

theorem splitFrom_append {separator : Char} {text : List Char} (absent : separator ∉ text)
    (piece rest : List Char) : Path.splitFrom separator piece (text ++ separator :: rest) =
      (piece.reverse ++ text) :: Path.splitFrom separator [] rest := by
  induction text generalizing piece with
  | nil => rw [List.nil_append, Path.splitFrom, if_pos rfl, List.append_nil]
  | cons c others ih =>
    obtain ⟨different, later⟩ := List.ne_and_not_mem_of_not_mem_cons absent
    rw [List.cons_append, Path.splitFrom, if_neg different.symm, ih later, List.reverse_cons,
      List.append_assoc]
    rfl

/-- A text joined from parts is cut into these parts. -/
theorem splitFrom_intercalate {separator : Char} {first : List Char} {rest : List (List Char)}
    (absent : ∀ part ∈ first :: rest, separator ∉ part) :
    Path.splitFrom separator [] ([separator].intercalate (first :: rest)) = first :: rest := by
  induction rest generalizing first with
  | nil => simpa using splitFrom_of_notMem (absent first List.mem_cons_self) []
  | cons second others ih =>
    obtain ⟨here, later⟩ := List.forall_mem_cons.mp absent
    rw [List.intercalate_cons_cons, List.append_assoc, List.singleton_append, splitFrom_append here,
      ih later]
    rfl

theorem dot_notMem_of_bare {part : List Char} (bare : ∀ c ∈ part, isBareCharacter c = true) :
    '.' ∉ part := by
  intro member
  cases bare '.' member

theorem pieces_eq {names : List String} {rest : List (List Char)}
    (nonempty : ∀ part ∈ rest, part ≠ [])
    (bare : ∀ part ∈ rest, ∀ c ∈ part, isBareCharacter c = true)
    (few : names.length + rest.length ≤ maximalLength) :
    pieces ⟨names, true⟩ rest = some ⟨(rest.map String.ofList).reverse ++ names, true⟩ := by
  induction rest generalizing names with
  | nil => rfl
  | cons part others ih =>
    obtain ⟨here, later⟩ := List.forall_mem_cons.mp nonempty
    obtain ⟨bareHere, bareLater⟩ := List.forall_mem_cons.mp bare
    rw [List.length_cons] at few
    have named : bareName ⟨names, false⟩ part = some ⟨String.ofList part :: names, true⟩ := by
      rw [bareName_eq here bareHere, name_eq (by omega)]
    have behind : (String.ofList part :: names).length + others.length ≤ maximalLength := by
      rw [List.length_cons]
      omega
    have step : pieces ⟨names, true⟩ (part :: others) =
        (bareName ⟨names, false⟩ part).bind (pieces · others) := rfl
    rw [step, named, Option.bind_some, ih later bareLater behind]
    simp

/-- Names joined by dots. -/
theorem atom_intercalate {first : List Char} {rest : List (List Char)}
    (nonempty : ∀ part ∈ first :: rest, part ≠ [])
    (bare : ∀ part ∈ first :: rest, ∀ c ∈ part, isBareCharacter c = true)
    (few : rest.length < maximalLength) :
    atom {} (['.'].intercalate (first :: rest)) =
      some ⟨((first :: rest).map String.ofList).reverse, true⟩ := by
  obtain ⟨here, later⟩ := List.forall_mem_cons.mp nonempty
  obtain ⟨bareHere, bareLater⟩ := List.forall_mem_cons.mp bare
  have named : bareName {} first = some ⟨[String.ofList first], true⟩ := by
    rw [bareName_eq here bareHere, name_eq (by decide)]
  have behind : [String.ofList first].length + rest.length ≤ maximalLength := by
    rw [List.length_singleton]
    omega
  have after := pieces_eq later bareLater behind
  rw [atom, splitFrom_intercalate fun part member => dot_notMem_of_bare (bare part member)]
  have step : (bareName {} first).bind (pieces · rest) =
      some ⟨((first :: rest).map String.ofList).reverse, true⟩ := by
    rw [named, Option.bind_some, after]
    simp
  exact step

end KeyReading

/-- A name is one token, with which the reading of a key goes on. -/
theorem SpelledName.scanned {name : String} {text : List Char} (spelled : SpelledName name text) :
    ∃ token, Scanned text [token] ∧ (∃ characters, token = .atom characters ∨ token = .text characters) ∧
      ∀ names : List String, names.length < KeyReading.maximalLength →
        KeyReading.token? ⟨names, false⟩ token = some ⟨name :: names, true⟩ := by
  cases spelled with
  | @bare name nonempty bare noDate =>
    refine ⟨.atom text, scanned_atom nonempty (fun c member => isAtomic_of_bare (bare c member)) noDate,
      ⟨_, .inl rfl⟩, fun names few => ?_⟩
    have step : (KeyReading.bareName ⟨names, false⟩ text).bind (KeyReading.pieces · []) =
        some ⟨String.ofList text :: names, true⟩ := by
      rw [KeyReading.bareName_eq nonempty bare, KeyReading.name_eq few]
      rfl
    rw [KeyReading.token?, KeyReading.atom,
      KeyReading.splitFrom_of_notMem (KeyReading.dot_notMem_of_bare bare)]
    exact step
  | @quoted quote name pieces spelled =>
    exact ⟨.text name, scanned_line spelled, ⟨_, .inr rfl⟩, fun names few => KeyReading.name_eq few name⟩

theorem forall_mem_intercalate {separator : Char} {holds : Char → Prop} (ofSeparator : holds separator)
    {parts : List (List Char)} (ofParts : ∀ part ∈ parts, ∀ c ∈ part, holds c) :
    ∀ c ∈ [separator].intercalate parts, holds c := by
  induction parts with
  | nil => simp
  | cons first rest ih =>
    obtain ⟨here, later⟩ := List.forall_mem_cons.mp ofParts
    cases rest with
    | nil =>
      rw [List.intercalate_singleton]
      exact here
    | cons second others =>
      intro c member
      rw [List.intercalate_cons_cons, List.append_assoc, List.mem_append, List.mem_append,
        List.mem_singleton] at member
      rcases member with first | rfl | rest
      · exact here c first
      · exact ofSeparator
      · exact ih later c rest

/-- A key without quotes is one token. -/
theorem SpelledKey.scanned {key : Key} {text : List Char} (spelled : SpelledKey key text) :
    Scanned text [.atom text] ∧ KeyReading.token? {} (.atom text) =
      some ⟨key.name :: key.path.reverse, true⟩ := by
  cases spelled with
  | @joined path name nonempty bare few noDate =>
    have atomic := forall_mem_intercalate (rfl : isAtomic '.' = true) fun part member c inside =>
      isAtomic_of_bare (bare part member c inside)
    have parts : ((path ++ [name]).map String.ofList).reverse =
        String.ofList name :: (path.map String.ofList).reverse := by
      simp
    have length : (path ++ [name]).length = path.length + 1 := by simp
    generalize path ++ [name] = joined at *
    cases joined with
    | nil => cases length
    | cons first rest =>
      have behind : rest.length < KeyReading.maximalLength := by
        rw [List.length_cons] at length
        omega
      have read := KeyReading.atom_intercalate nonempty bare behind
      rw [parts] at read
      refine ⟨scanned_atom ?_ atomic noDate, read⟩
      intro empty
      have firstEmpty : first = [] := by
        cases rest with
        | nil => rwa [List.intercalate_singleton] at empty
        | cons second others =>
          rw [List.intercalate_cons_cons, List.append_assoc] at empty
          exact List.append_eq_nil_iff.mp empty |>.1
      exact nonempty first List.mem_cons_self firstEmpty

end CommandCompletion.Toml
