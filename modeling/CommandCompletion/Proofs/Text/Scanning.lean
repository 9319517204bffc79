/-!
# Cutting texts into tokens

A scanner goes through a text character by character and keeps the tokens so far. Something may stay
open until the next character shows that it has ended, so a state is looked at as it would be if the
text ended here. A piece of text is scanned as some tokens when, from between two tokens, it leads
behind these tokens (`Scanner.Scanned`), and it ends for itself when nothing is left open behind it
(`Scanner.ScannedWhole`). Pieces are put together if the first ends for itself, or if the second
begins with a character that ends what is open.
-/

set_option autoImplicit false

namespace CommandCompletion

/-- What is computed for all items of a list holds of each of them. -/
theorem forall_mem_of_all {α : Type} {holds : α → Bool} {value : Bool} {items : List α}
    (all : (items.all fun item => holds item == value) = true) :
    ∀ item ∈ items, holds item = value :=
  fun item member => beq_iff_eq.mp (List.all_eq_true.mp all item member)

/-- A machine that cuts a text into tokens with one step for each character. -/
structure Scanner (State Token : Type) where
  step : State → Char → State
  /-- Between two tokens, those so far being held in reverse. -/
  between : List Token → State
  /-- The state as it would be if the text ended here. -/
  settled : State → State
  /-- A character that ends what is open. -/
  isDelimiter : Char → Bool
  between_injective : ∀ {tokens others : List Token}, between tokens = between others → tokens = others
  settled_between : ∀ tokens, settled (between tokens) = between tokens
  step_delimiter : ∀ {state : State} {tokens : List Token} {c : Char},
    settled state = between tokens → isDelimiter c = true → step state c = step (between tokens) c

namespace Scanner

variable {State Token : Type} {scanner : Scanner State Token} {text more : List Char}
  {tokens others : List Token}

/-- A piece of text that is scanned as some tokens, of which the last may still be open. -/
def Scanned (scanner : Scanner State Token) (text : List Char) (tokens : List Token) : Prop :=
  ∀ before, scanner.settled (text.foldl scanner.step (scanner.between before)) =
    scanner.between (tokens.reverse ++ before)

/-- A piece of text that is scanned as some tokens, with nothing open behind it. -/
def ScannedWhole (scanner : Scanner State Token) (text : List Char) (tokens : List Token) : Prop :=
  ∀ before, text.foldl scanner.step (scanner.between before) =
    scanner.between (tokens.reverse ++ before)

theorem ScannedWhole.scanned (whole : scanner.ScannedWhole text tokens) :
    scanner.Scanned text tokens := fun before => by
  rw [whole before, scanner.settled_between]

theorem ScannedWhole.nil : scanner.ScannedWhole [] [] := fun _ => rfl

theorem ScannedWhole.append (whole : scanner.ScannedWhole text tokens)
    (wholeToo : scanner.ScannedWhole more others) :
    scanner.ScannedWhole (text ++ more) (tokens ++ others) := by
  intro before
  rw [List.foldl_append, whole before, wholeToo, List.reverse_append, List.append_assoc]

theorem ScannedWhole.append_scanned (whole : scanner.ScannedWhole text tokens)
    (scanned : scanner.Scanned more others) :
    scanner.Scanned (text ++ more) (tokens ++ others) := by
  intro before
  rw [List.foldl_append, whole before, scanned, List.reverse_append, List.append_assoc]

/-- Behind a piece with something open another piece may stand if it begins where that ends. -/
theorem Scanned.append_whole {c : Char} (scanned : scanner.Scanned text tokens)
    (ends : scanner.isDelimiter c = true) (whole : scanner.ScannedWhole (c :: more) others) :
    scanner.ScannedWhole (text ++ c :: more) (tokens ++ others) := by
  intro before
  rw [List.foldl_append, List.foldl_cons, scanner.step_delimiter (scanned before) ends,
    ← List.foldl_cons, whole, List.reverse_append, List.append_assoc]

/-- A gap, which may be empty, and otherwise begins with a character that ends what is open. -/
theorem Scanned.append_gap {gap : List Char} (scanned : scanner.Scanned text tokens)
    (whole : scanner.ScannedWhole gap others)
    (ends : ∀ c, gap.head? = some c → scanner.isDelimiter c = true) :
    scanner.Scanned (text ++ gap) (tokens ++ others) := by
  cases gap with
  | nil =>
    have noTokens : [] = others.reverse ++ [] := scanner.between_injective (whole [])
    obtain rfl : others = [] := by simpa using noTokens.symm
    rwa [List.append_nil, List.append_nil]
  | cons c rest => exact (scanned.append_whole (ends c rfl) whole).scanned

end Scanner

end CommandCompletion
