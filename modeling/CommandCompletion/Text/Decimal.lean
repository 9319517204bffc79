import CommandCompletion.Text.Blank

/-!
# Counts written in decimal

A count is a natural number below two to the sixty-fourth. It is printed with the
digits of `Nat.repr`. It is read from one or more ASCII digits, leading zeros
allowed, after at most one plus sign (`readCount`).

Keys of positional slots end in such a number and nothing else, so the digits are
also recognised on their own (`isDigits`).
-/

set_option autoImplicit false

namespace CommandCompletion.Text

/-- The number of counts: the least number that no count reaches. -/
def countBound : Nat := UInt64.size

/-- One or more decimal digits. -/
def isDigits (text : List Char) : Bool :=
  !text.isEmpty && text.all isDigit

/-- The value of a run of digits in the given base, read from the left. -/
def valueOfDigits (base : Nat) (digitValue : Char → Nat) (digits : List Char) : Nat :=
  digits.foldl (fun value digit => value * base + digitValue digit) 0

/-- The value of a decimal digit. -/
def decimalValue (c : Char) : Nat :=
  c.toNat - '0'.toNat

/-- The value of a decimal, hexadecimal, octal or binary digit, letters in either case. -/
def digitValue (c : Char) : Nat :=
  if 'a' ≤ c ∧ c ≤ 'f' then c.toNat - 'a'.toNat + 10
  else if 'A' ≤ c ∧ c ≤ 'F' then c.toNat - 'A'.toNat + 10
  else decimalValue c

/-- A hexadecimal digit in either case. -/
def isHexDigit (c : Char) : Bool :=
  isDigit c || ('a' ≤ c && c ≤ 'f') || ('A' ≤ c && c ≤ 'F')

/-- The count that unsigned digits denote. -/
def readDigits (text : List Char) : Option Nat :=
  if isDigits text then
    let value := valueOfDigits 10 decimalValue text
    if value < countBound then some value else none
  else none

/-- The count that a text denotes: digits after at most one plus sign. -/
def readCount : List Char → Option Nat
  | '+' :: digits => readDigits digits
  | digits => readDigits digits

/-- The digit of a value below sixteen, in lower case. -/
def hexDigit (value : Nat) : Char :=
  if value < 10 then Char.ofNat ('0'.toNat + value) else Char.ofNat ('a'.toNat + (value - 10))

/-- The digit of a value below sixteen, in upper case. -/
def upperHexDigit (value : Nat) : Char :=
  if value < 10 then Char.ofNat ('0'.toNat + value) else Char.ofNat ('A'.toNat + (value - 10))

end CommandCompletion.Text
