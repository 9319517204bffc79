import CommandCompletion.Data
import CommandCompletion.Text.Decimal

/-!
# Numbers, truth values and dates of TOML

An atom in the place of a value is a truth value, a whole number, a fraction, or a date, a
time, or both. Whole numbers may be written in decimal with a sign, or without one in
hexadecimal, octal or binary after a mark. Digits may be parted by single underscores, and a
decimal number does not begin with a zero that could be left out. Fractions, negative
numbers and moments are only checked, as no value of these kinds is ever wanted.

Whole numbers have 128 bits, with a sign or without, and fractions are floating-point
numbers of 64 bits. A number beyond these ranges has no value, and neither has a mark
without digits behind it.
-/

set_option autoImplicit false

namespace CommandCompletion.Toml.Scalar

/-! ## Numbers -/

/-- Digits without the single underscores between them. -/
def plainDigits (isDigit : Char → Bool) : List Char → Option (List Char)
  | [] => none
  | [c] => if isDigit c then some [c] else none
  | c :: '_' :: rest => if isDigit c then (plainDigits isDigit rest).map (c :: ·) else none
  | c :: rest => if isDigit c then (plainDigits isDigit rest).map (c :: ·) else none

/-- The digits of a whole number without a sign: a zero, or digits that do not begin with
one. -/
def decimalDigits (digits : List Char) : Option (List Char) :=
  match plainDigits Text.isDigit digits with
  | some ('0' :: _ :: _) => none
  | plain => plain

/-- An optional sign, and what follows it. -/
def splitSign : List Char → Option Char × List Char
  | '+' :: rest => (some '+', rest)
  | '-' :: rest => (some '-', rest)
  | rest => (none, rest)

/-- A whole number as a value. -/
def ofInteger (isNegative : Bool) (magnitude : Nat) : Datum :=
  if isNegative && magnitude != 0 then
    if magnitude ≤ Nat.pow 2 127 then .other else .valueless
  else if magnitude < Text.countBound then .count magnitude
  else if magnitude < Nat.pow 2 128 then .other
  else .valueless

/-- The value of digits after a mark, if there are any. -/
def marked? (base : Nat) (isDigit : Char → Bool) : List Char → Option Datum
  | [] => some .valueless
  | digits =>
    (plainDigits isDigit digits).map fun plain =>
      ofInteger false (Text.valueOfDigits base Text.digitValue plain)

/-- A whole number. -/
def whole? (atom : List Char) : Option Datum :=
  match atom with
  | '0' :: 'x' :: digits => marked? 16 Text.isHexDigit digits
  | '0' :: 'o' :: digits => marked? 8 (fun c => '0' ≤ c && c ≤ '7') digits
  | '0' :: 'b' :: digits => marked? 2 (fun c => c == '0' || c == '1') digits
  | _ =>
    let (sign, digits) := splitSign atom
    (decimalDigits digits).map fun plain =>
      ofInteger (sign == some '-') (Text.valueOfDigits 10 Text.decimalValue plain)

/-- The characters before the first one of a kind, and those behind it if there is one. -/
def splitAtFirst (isMark : Char → Bool) (characters : List Char) :
    List Char × Option (List Char) :=
  (characters.takeWhile (!isMark ·),
    match characters.dropWhile (!isMark ·) with
    | [] => none
    | _ :: rest => some rest)

/-- A fraction without its sign: digits as a whole number, times a power of ten. -/
structure Fraction where
  digits : List Char
  exponent : Int
  deriving DecidableEq

/-- An exponent, or none at all. -/
def exponent? : Option (List Char) → Option Int
  | none => some 0
  | some characters =>
    let (sign, digits) := splitSign characters
    (plainDigits Text.isDigit digits).map fun plain =>
      let value : Int := Text.valueOfDigits 10 Text.decimalValue plain
      if sign = some '-' then -value else value

/-- A fraction: a whole number, then a point with digits or an exponent or both. -/
def Fraction.ofAtom? (atom : List Char) : Option Fraction := do
  let (mantissa, exponent) :=
    splitAtFirst (fun c => c == 'e' || c == 'E') (splitSign atom).2
  let (whole, places) := splitAtFirst (· == '.') mantissa
  let whole ← decimalDigits whole
  let decimals ← places.elim (some []) (plainDigits Text.isDigit)
  let shift ← exponent? exponent
  if places.isSome || exponent.isSome then
    some ⟨whole ++ decimals, shift - decimals.length⟩
  else none

/-- The least number that is nearer to the next power of two than to the greatest number of
64 bits, or as near. -/
def fractionBound : Nat := Nat.pow 2 1024 - Nat.pow 2 970

/-- Whether a fraction has a value. The bound has 309 digits, so digits are multiplied out
only for numbers with as many. -/
def Fraction.hasValue (fraction : Fraction) : Bool :=
  let digits := fraction.digits.dropWhile (· == '0')
  let size : Int := digits.length + fraction.exponent
  let value := Text.valueOfDigits 10 Text.decimalValue digits
  if digits.isEmpty || size < 309 then true
  else if 309 < size then false
  else
    value * Nat.pow 10 fraction.exponent.toNat <
      fractionBound * Nat.pow 10 (-fraction.exponent).toNat

/-- Infinity, or what is no number, with an optional sign. -/
def isSpecial (atom : List Char) : Bool :=
  let unsigned := (splitSign atom).2
  unsigned == "inf".toList || unsigned == "nan".toList

/-! ## Moments -/

/-- The value of exactly so many digits. -/
def digitsOf (count : Nat) (characters : List Char) : Option Nat :=
  if characters.length = count && characters.all Text.isDigit then
    some (Text.valueOfDigits 10 Text.decimalValue characters)
  else none

/-- The number of days of a month. -/
def daysIn (year month : Nat) : Nat :=
  if month = 2 then
    if year % 4 = 0 ∧ (year % 100 ≠ 0 ∨ year % 400 = 0) then 29 else 28
  else if month = 4 ∨ month = 6 ∨ month = 9 ∨ month = 11 then 30
  else 31

/-- A day of the calendar. -/
def isDate (characters : List Char) : Bool :=
  match digitsOf 4 (characters.take 4), characters.drop 4 with
  | some year, '-' :: m1 :: m2 :: '-' :: day =>
    match digitsOf 2 [m1, m2], digitsOf 2 day with
    | some month, some day => 1 ≤ month && month ≤ 12 && 1 ≤ day && day ≤ daysIn year month
    | _, _ => false
  | _, _ => false

/-- Two digits with a value up to a limit. -/
def isUpTo (limit : Nat) (first second : Char) : Bool :=
  (digitsOf 2 [first, second]).any (· ≤ limit)

/-- Seconds, which may have a fraction, or nothing. -/
def isSeconds : List Char → Bool
  | [] => true
  | ':' :: s1 :: s2 :: rest =>
    isUpTo 60 s1 s2 &&
      match rest with
      | [] => true
      | '.' :: fraction => Text.isDigits fraction
      | _ => false
  | _ => false

/-- A time of day. -/
def isTime : List Char → Bool
  | h1 :: h2 :: ':' :: m1 :: m2 :: seconds =>
    isUpTo 23 h1 h2 && isUpTo 59 m1 m2 && isSeconds seconds
  | _ => false

/-- A distance from universal time. -/
def isOffset : List Char → Bool
  | ['Z'] | ['z'] => true
  | [sign, h1, h2, ':', m1, m2] =>
    (sign == '+' || sign == '-') && isUpTo 23 h1 h2 && isUpTo 59 m1 m2
  | _ => false

/-- A time of day with an optional offset. -/
def isTimeWithOffset (characters : List Char) : Bool :=
  let isTimeCharacter := fun c => Text.isDigit c || c == ':' || c == '.'
  let time := characters.takeWhile isTimeCharacter
  let offset := characters.dropWhile isTimeCharacter
  isTime time && (offset.isEmpty || isOffset offset)

/-- A date, a time, or a date with a time. -/
def isMoment (atom : List Char) : Bool :=
  isTime atom || isDate atom ||
    (isDate (atom.take 10) &&
      match atom.drop 10 with
      | mark :: time => (mark == 'T' || mark == 't' || mark == ' ') && isTimeWithOffset time
      | [] => false)

/-! ## Atoms -/

/-- The value of an atom. -/
def ofAtom (atom : List Char) : Option Datum :=
  if atom = "true".toList then some (.truth true)
  else if atom = "false".toList then some (.truth false)
  else if isSpecial atom then some .other
  else if isMoment atom then some .moment
  else
    match Fraction.ofAtom? atom with
    | some fraction => some (if fraction.hasValue then .other else .valueless)
    | none => whole? atom

end CommandCompletion.Toml.Scalar
