import CommandCompletion.Text.Decimal
import CommandCompletion.Text.Visible

/-!
# Text that shows every character

Two ways of writing a text so that nothing in it is invisible. The ASCII form
(`asciiForm`) keeps the printable characters of ASCII, puts a backslash before the
backslash and both quotes, and writes everything else by its escape or by its number;
it fits on one line of a comment whatever the text holds. The listed form
(`listedForm`) stands between double quotes and keeps every visible character.
-/

set_option autoImplicit false

namespace CommandCompletion.Text

/-- A number in hexadecimal, without leading zeros. -/
def hexadecimal (value : Nat) : List Char :=
  Nat.toDigits 16 value

/-- A character by its number. -/
def numberedForm (c : Char) : List Char :=
  ['\\', 'u', '\x7b'] ++ hexadecimal c.toNat ++ ['\x7d']

/-- One character of the ASCII form. -/
def asciiFormChar (c : Char) : List Char :=
  if c = '\t' then ['\\', 't']
  else if c = '\r' then ['\\', 'r']
  else if c = '\n' then ['\\', 'n']
  else if c = '\'' ∨ c = '"' ∨ c = '\\' then ['\\', c]
  else if 0x20 ≤ c.toNat ∧ c.toNat ≤ 0x7E then [c]
  else numberedForm c

/-- A text in printable ASCII. -/
def asciiForm (text : String) : String :=
  String.ofList (text.toList.flatMap asciiFormChar)

/-- One character of the listed form. -/
def listedFormChar (c : Char) : List Char :=
  if c.toNat = 0 then ['\\', '0']
  else if c = '\t' then ['\\', 't']
  else if c = '\r' then ['\\', 'r']
  else if c = '\n' then ['\\', 'n']
  else if c = '"' ∨ c = '\\' then ['\\', c]
  else if isVisible c then [c]
  else numberedForm c

/-- A text between double quotes with every invisible character spelled out. -/
def listedForm (text : String) : String :=
  String.ofList ('"' :: text.toList.flatMap listedFormChar ++ ['"'])

end CommandCompletion.Text
