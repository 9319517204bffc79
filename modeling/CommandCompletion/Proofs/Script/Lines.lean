import CommandCompletion.Proofs.Script.TableText

/-!
# The lines of a script

The shells read a script line by line, but a newline between quotes, or behind a backslash,
belongs to the line. Here a script is split into such lines (`logicalLines`) by a machine
that knows quotes, escapes and comments of the shells: single quotes, which hold escapes in
fish only, double quotes, the quotes behind a dollar sign of bash and zsh, and comments, which
begin where a word could and end with the line.

A text runs through if it ends no line (`Runs`), and it is whole if it ends its last line
(`Whole`). Quoted words run through whatever they hold, so a newline in a text of the user's
ends no line of the script.
-/

set_option autoImplicit false

namespace CommandCompletion.Script

/-! ## The machine -/

/-- Where the machine stands in a script. -/
inductive Mode where
  /-- Where a word may begin. -/
  | between
  | word
  /-- Behind a dollar sign. -/
  | dollar
  /-- Behind a backslash outside quotes. -/
  | escape
  | comment
  | single
  /-- Behind a backslash between single quotes. -/
  | singleEscape
  /-- Between a dollar sign with a quote and a quote. -/
  | escaped
  /-- Behind a backslash between these. -/
  | escapedEscape
  | double
  /-- Behind a backslash between double quotes. -/
  | doubleEscape
  deriving DecidableEq

namespace Mode

/-- Where the machine stands behind a character outside quotes. -/
def outside (c : Char) : Mode :=
  if c = '\'' then .single
  else if c = '"' then .double
  else if c = '\\' then .escape
  else if c = '$' then .dollar
  else if c ∈ [' ', '\t', ';', '&', '|', '(', ')', '<', '>'] then .between
  else .word

/-- Where the machine stands behind a character that ends no line. -/
def next (shell : Shell) : Mode → Char → Mode
  | .between, c => if c = '#' then .comment else outside c
  | .word, c => outside c
  | .dollar, c => if c = '\'' ∧ shell ≠ .fish then .escaped else outside c
  | .escape, _ => .word
  | .comment, _ => .comment
  | .single, c =>
    if c = '\'' then .word else if c = '\\' ∧ shell = .fish then .singleEscape else .single
  | .singleEscape, _ => .single
  | .escaped, c => if c = '\'' then .word else if c = '\\' then .escapedEscape else .escaped
  | .escapedEscape, _ => .escaped
  | .double, c => if c = '"' then .word else if c = '\\' then .doubleEscape else .double
  | .doubleEscape, _ => .double

/-- Whether a newline ends the line. -/
def isOpen : Mode → Bool
  | .between | .word | .dollar | .comment => true
  | .escape | .single | .singleEscape | .escaped | .escapedEscape | .double | .doubleEscape =>
    false

end Mode

/-- The lines of a script of which the first is begun. -/
def logicalLines (shell : Shell) (mode : Mode) (begun : List Char) : List Char → List (List Char)
  | [] => if begun.isEmpty then [] else [begun]
  | c :: rest =>
    if c = '\n' && mode.isOpen then begun :: logicalLines shell .between [] rest
    else logicalLines shell (mode.next shell c) (begun ++ [c]) rest

/-! ## Texts that end no line -/

/-- Reading a text ends no line and leads from one mode to another. -/
def Runs (shell : Shell) (mode : Mode) (text : List Char) (after : Mode) : Prop :=
  ∀ begun rest, logicalLines shell mode begun (text ++ rest) =
    logicalLines shell after (begun ++ text) rest

namespace Runs

variable {shell : Shell} {mode middle after : Mode} {text further : List Char}

theorem nil : Runs shell mode [] mode := by
  intro begun rest
  rw [List.nil_append, List.append_nil]

theorem append (first : Runs shell mode text middle) (second : Runs shell middle further after) :
    Runs shell mode (text ++ further) after := by
  intro begun rest
  rw [List.append_assoc, first, second, List.append_assoc]

theorem cons {c : Char} (stays : c = '\n' → mode.isOpen = false)
    (others : Runs shell (mode.next shell c) text after) : Runs shell mode (c :: text) after := by
  intro begun rest
  have inside : (c = '\n' && mode.isOpen) = false := by
    by_cases newline : c = '\n'
    · rw [stays newline, Bool.and_false]
    · rw [decide_eq_false newline, Bool.false_and]
  rw [List.cons_append, logicalLines, inside, others, List.append_assoc]
  rfl

/-- A character that leaves the machine where it stands may come any number of times. -/
theorem of_forall
    (stays : ∀ c ∈ text, (c = '\n' → mode.isOpen = false) ∧ mode.next shell c = mode) :
    Runs shell mode text mode := by
  induction text with
  | nil => exact nil
  | cons c text ih =>
    obtain ⟨⟨newline, same⟩, others⟩ := List.forall_mem_cons.mp stays
    refine cons newline ?_
    rw [same]
    exact ih others

end Runs

/-- Where the machine stands behind a text that ends no line. -/
def modeAfter? (shell : Shell) (mode : Mode) : List Char → Option Mode
  | [] => some mode
  | c :: rest =>
    if c = '\n' && mode.isOpen then none else modeAfter? shell (mode.next shell c) rest

theorem runs_of_modeAfter {shell : Shell} {mode after : Mode} {text : List Char}
    (found : modeAfter? shell mode text = some after) : Runs shell mode text after := by
  induction text generalizing mode with
  | nil =>
    cases found
    exact .nil
  | cons c text ih =>
    rw [modeAfter?] at found
    split at found
    · cases found
    · rename_i inside
      refine .cons (fun newline => ?_) (ih found)
      simpa [newline] using inside

/-! ## Names and quoted words -/

/-- A character of a name is none that the machine heeds. -/
theorem outside_of_isNameCharacter {c : Char} (valid : isNameCharacter c = true) :
    Mode.outside c = .word ∧ c ≠ '#' ∧ c ≠ '\n' ∧ c ≠ '\'' ∧ c ≠ '\\' ∧ c ≠ '"' := by
  have apart (other : Char) (special : isNameCharacter other = false) : c ≠ other := by
    rintro rfl
    rw [valid] at special
    cases special
  refine ⟨?_, apart _ rfl, apart _ rfl, apart _ rfl, apart _ rfl, apart _ rfl⟩
  have members : c ∉ [' ', '\t', ';', '&', '|', '(', ')', '<', '>'] := by
    intro member
    have all : [' ', '\t', ';', '&', '|', '(', ')', '<', '>'].all (!isNameCharacter ·) = true := by
      decide
    have special := List.all_eq_true.mp all c member
    rw [valid] at special
    cases special
  rw [Mode.outside, if_neg (apart _ rfl), if_neg (apart _ rfl), if_neg (apart _ rfl),
    if_neg (apart _ rfl), if_neg members]

/-- Where the machine stands behind a name. -/
def Mode.afterName? : Mode → Option Mode
  | .between | .word | .dollar => some .word
  | .single => some .single
  | .escaped => some .escaped
  | .double => some .double
  | .comment => some .comment
  | .escape | .singleEscape | .escapedEscape | .doubleEscape => none

theorem runs_name {shell : Shell} {mode after : Mode} {name : List Char} (nonempty : name ≠ [])
    (valid : ∀ c ∈ name, isNameCharacter c = true) (found : mode.afterName? = some after) :
    Runs shell mode name after := by
  obtain ⟨first, rest, rfl⟩ := List.exists_cons_of_ne_nil nonempty
  obtain ⟨firstValid, restValid⟩ := List.forall_mem_cons.mp valid
  have step {c : Char} (valid : isNameCharacter c = true) {mode after : Mode}
      (found : mode.afterName? = some after) : mode.next shell c = after := by
    obtain ⟨plain, notHash, _, notQuote, notBackslash, notDouble⟩ :=
      outside_of_isNameCharacter valid
    cases mode <;> simp only [Mode.afterName?, Option.some.injEq, reduceCtorEq] at found <;>
      subst found <;> simp [Mode.next, plain, notHash, notQuote, notBackslash, notDouble]
  have again : after.afterName? = some after := by
    cases mode <;> cases found <;> rfl
  refine .cons (fun newline => absurd newline ?_) ?_
  · exact (outside_of_isNameCharacter firstValid).2.2.1
  · rw [step firstValid found]
    refine .of_forall fun c member =>
      ⟨fun newline => absurd newline ?_, step (restValid c member) again⟩
    exact (outside_of_isNameCharacter (restValid c member)).2.2.1

/-- A word may begin here, or go on. -/
def Mode.TakesWord (mode : Mode) : Prop :=
  mode = .between ∨ mode = .word

theorem Mode.TakesWord.next_quote {mode : Mode} (takes : mode.TakesWord) (shell : Shell) :
    mode.next shell '\'' = .single := by
  rcases takes with rfl | rfl <;> rfl

theorem runs_flatMap {α : Type} {shell : Shell} {mode : Mode} {write : α → List Char}
    (each : ∀ item, Runs shell mode (write item) mode) (items : List α) :
    Runs shell mode (items.flatMap write) mode := by
  induction items with
  | nil => exact .nil
  | cons item items ih =>
    rw [List.flatMap_cons]
    exact (each item).append ih

/-- A text between single quotes, if what stands between them leaves the quotes open. -/
theorem runs_quoted {shell : Shell} {mode : Mode} (takes : mode.TakesWord) {inside : List Char}
    (stays : Runs shell .single inside .single) :
    Runs shell mode ('\'' :: inside ++ ['\'']) .word := by
  refine .cons (fun newline => absurd newline (by decide)) ?_
  rw [takes.next_quote shell]
  exact stays.append (runs_of_modeAfter rfl)

theorem runs_posixQuote {shell : Shell} (posix : shell ≠ .fish) {mode : Mode}
    (takes : mode.TakesWord) (text : List Char) : Runs shell mode (posixQuote text) .word := by
  refine runs_quoted takes (runs_flatMap (fun c => ?_) text)
  split
  · cases shell with
    | bash | zsh => exact runs_of_modeAfter rfl
    | fish => exact absurd rfl posix
  · rename_i ordinary
    refine .cons (fun _ => rfl) ?_
    have stays : Mode.next shell .single c = .single := by simp [Mode.next, ordinary, posix]
    rw [stays]
    exact .nil

theorem runs_fishQuote {mode : Mode} (takes : mode.TakesWord) (text : List Char) :
    Runs .fish mode (fishQuote text) .word := by
  refine runs_quoted takes (runs_flatMap (fun c => ?_) text)
  split
  · exact .cons (fun _ => rfl) (.cons (fun _ => rfl) .nil)
  · rename_i ordinary
    obtain ⟨notBackslash, notQuote⟩ := not_or.mp ordinary
    refine .cons (fun _ => rfl) ?_
    have stays : Mode.next .fish .single c = .single := by
      simp [Mode.next, notBackslash, notQuote]
    rw [stays]
    exact .nil

/-- Joined texts run through if the texts and what joins them do. -/
theorem runs_joinWith {shell : Shell} {mode after : Mode} {write : List Char → List Char}
    {joint : List Char} (first : ∀ text, Runs shell mode (write text) after)
    (item : ∀ text, Runs shell after (write text) after) (joined : Runs shell after joint after)
    {texts : List (List Char)} (nonempty : texts ≠ []) :
    Runs shell mode (joinWith joint (texts.map write)) after := by
  induction texts generalizing mode with
  | nil => exact absurd rfl nonempty
  | cons text others ih =>
    cases others with
    | nil => exact first text
    | cons second further =>
      have later := ih item (List.cons_ne_nil second further)
      exact ((first text).append joined).append later

theorem runs_ansiLines {shell : Shell} (posix : shell ≠ .fish) {mode : Mode}
    (takes : mode.TakesWord) (values : List (List Char)) :
    Runs shell mode (ansiLines values) .word := by
  have empty : Runs shell mode ['\'', '\''] .word := runs_quoted takes .nil
  have opening : Runs shell mode ['$', '\''] .escaped := by
    cases shell with
    | bash | zsh => rcases takes with rfl | rfl <;> exact runs_of_modeAfter rfl
    | fish => exact absurd rfl posix
  have text (text : List Char) : Runs shell .escaped (backslashed text) .escaped := by
    refine runs_flatMap (fun c => ?_) text
    split
    · exact .cons (fun _ => rfl) (.cons (fun _ => rfl) .nil)
    · rename_i ordinary
      obtain ⟨notBackslash, notQuote⟩ := not_or.mp ordinary
      refine .cons (fun _ => rfl) ?_
      have stays : Mode.next shell .escaped c = .escaped := by
        simp [Mode.next, notBackslash, notQuote]
      rw [stays]
      exact .nil
  rw [ansiLines]
  split
  · exact empty
  · rename_i nonempty
    have joined : Runs shell .escaped ['\\', 'n'] .escaped := runs_of_modeAfter rfl
    have lines := runs_joinWith text text joined (fun none => nonempty (List.isEmpty_iff.mpr none))
    exact (opening.append lines).append (runs_of_modeAfter rfl)

theorem runs_fishLines {mode : Mode} (takes : mode.TakesWord) (values : List (List Char)) :
    Runs .fish mode (fishLines values) .word := by
  rw [fishLines]
  split
  · exact runs_quoted takes .nil
  · rename_i nonempty
    exact runs_joinWith (runs_fishQuote takes) (runs_fishQuote (.inr rfl)) (runs_of_modeAfter rfl)
      (fun none => nonempty (List.isEmpty_iff.mpr none))

/-- A quoted text is part of a word, whatever it holds. -/
theorem runs_quote (shell : Shell) {mode : Mode} (takes : mode.TakesWord) (text : List Char) :
    Runs shell mode ((emitterFor shell).quote text) .word := by
  cases shell with
  | bash => exact runs_posixQuote (by decide) takes text
  | zsh => exact runs_posixQuote (by decide) takes text
  | fish => exact runs_fishQuote takes text

/-! ## Texts of whole lines -/

/-- A text that ends its last line, with its lines. -/
def Whole (shell : Shell) (text : List Char) (lines : List (List Char)) : Prop :=
  ∀ rest, logicalLines shell .between [] (text ++ rest) =
    lines ++ logicalLines shell .between [] rest

namespace Whole

variable {shell : Shell} {text further : List Char} {lines more : List (List Char)}

theorem nil : Whole shell [] [] := fun _ => rfl

theorem append (first : Whole shell text lines) (second : Whole shell further more) :
    Whole shell (text ++ further) (lines ++ more) := by
  intro rest
  rw [List.append_assoc, first, second, List.append_assoc]

/-- A text that runs through is a line with a newline behind it. -/
theorem line {after : Mode} (runs : Runs shell .between text after) (ends : after.isOpen = true) :
    Whole shell (text ++ ['\n']) [text] := by
  intro rest
  rw [List.append_assoc, runs, List.nil_append, List.singleton_append, logicalLines, ends]
  rfl

theorem logicalLines_eq (whole : Whole shell text lines) :
    logicalLines shell .between [] text = lines := by
  have read := whole []
  rw [List.append_nil] at read
  rw [read]
  exact List.append_nil lines

end Whole

end CommandCompletion.Script
