import CommandCompletion.Text.CaseProperties
import CommandCompletion.Text.LowercaseRuns

/-!
# Text in lower case

Lower case is defined character by character, with two exceptions that look further.
The capital I with a dot above becomes two characters, a small i and a combining dot.
The capital sigma becomes the final small sigma at the end of a word and the usual
small sigma elsewhere: it ends a word when, case-ignorable characters left out, a
cased character stands before it and none stands right after it.

The text is read once from the left. What has to be known of the part already read is
one bit: whether its last character that is not case-ignorable is cased.
-/

set_option autoImplicit false

namespace CommandCompletion.Text

/-- The small form of a character, apart from the two exceptions. -/
def lowercaseChar (c : Char) : Char :=
  if c.toNat < 0x80 then c.toLower
  else
    match lowercaseRuns.find? (·.covers c.toNat) with
    | some run => Char.ofNat (run.target + (c.toNat - run.first))
    | none => c

/-- Whether the next character that is not case-ignorable is cased. -/
def casedFollows (rest : List Char) : Bool :=
  match rest.dropWhile isCaseIgnorable with
  | [] => false
  | c :: _ => isCased c

/-- Lower case of the rest of a text, given whether a cased character precedes it. -/
def lowercaseAfter (casedBefore : Bool) : List Char → List Char
  | [] => []
  | c :: rest =>
    let casedNow := if isCaseIgnorable c then casedBefore else isCased c
    if c = 'Σ' then
      (if casedBefore && !casedFollows rest then 'ς' else 'σ') :: lowercaseAfter casedNow rest
    else if c = 'İ' then 'i' :: Char.ofNat 0x307 :: lowercaseAfter casedNow rest
    else lowercaseChar c :: lowercaseAfter casedNow rest

/-- A text in lower case. -/
def lowercase (text : List Char) : List Char :=
  lowercaseAfter false text

end CommandCompletion.Text
