/-!
# Blank and control characters

Names, flags and command lines are cut and checked by two classes of characters.
A character is blank when it has the property White_Space, and it is a control
character when its general category is Cc. Both classes are fixed for good, so
they are written out here as ranges of code points.

Text is cut in two ways: at its ends (`trim`) and at every run of blanks
(`splitBlank`), which never returns an empty piece.
-/

set_option autoImplicit false

namespace CommandCompletion.Text

/-- A character with the property White_Space. -/
def isBlank (c : Char) : Bool :=
  (9 ≤ c.toNat && c.toNat ≤ 13) || c.toNat == 0x20 || c.toNat == 0x85 || c.toNat == 0xA0 ||
    c.toNat == 0x1680 || (0x2000 ≤ c.toNat && c.toNat ≤ 0x200A) || c.toNat == 0x2028 ||
    c.toNat == 0x2029 || c.toNat == 0x202F || c.toNat == 0x205F || c.toNat == 0x3000

/-- A character of the category Cc: the code points below the space, and those from
delete to the end of the second control block. -/
def isControl (c : Char) : Bool :=
  c.toNat < 0x20 || (0x7F ≤ c.toNat && c.toNat ≤ 0x9F)

/-- A decimal digit of ASCII. -/
def isDigit (c : Char) : Bool :=
  '0' ≤ c && c ≤ '9'

/-- A letter or a decimal digit of ASCII. -/
def isAlphanumeric (c : Char) : Bool :=
  isDigit c || ('a' ≤ c && c ≤ 'z') || ('A' ≤ c && c ≤ 'Z')

/-- A visible ASCII character that is neither a letter nor a digit. -/
def isPunctuation (c : Char) : Bool :=
  0x21 ≤ c.toNat && c.toNat ≤ 0x7E && !isAlphanumeric c

/-- The characters without the blanks at either end. -/
def trim (text : List Char) : List Char :=
  ((text.dropWhile isBlank).reverse.dropWhile isBlank).reverse

/-- The pieces between blanks, the characters of the open piece being held in reverse. -/
def splitBlankFrom (piece : List Char) : List Char → List (List Char)
  | [] => if piece.isEmpty then [] else [piece.reverse]
  | c :: rest =>
    if isBlank c then
      if piece.isEmpty then splitBlankFrom [] rest
      else piece.reverse :: splitBlankFrom [] rest
    else splitBlankFrom (c :: piece) rest

/-- The non-empty pieces between blanks, in order. -/
def splitBlank (text : List Char) : List (List Char) :=
  splitBlankFrom [] text

/-- A word can stand as one unquoted token: it is non-empty and holds neither a blank nor
a control character. -/
def isWord (text : String) : Bool :=
  !text.isEmpty && text.toList.all (fun c => !isBlank c && !isControl c)

/-- Whether a text begins with another. -/
def startsWith (text start : String) : Bool :=
  start.toList.isPrefixOf text.toList

end CommandCompletion.Text
