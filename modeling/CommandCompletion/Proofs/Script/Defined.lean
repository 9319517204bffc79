import CommandCompletion.Proofs.Script.Lines
import CommandCompletion.Proofs.Script.Pieces

/-!
# What a script defines

A script defines functions and tables. A function is opened by a line of its own, `name() {`
in bash and zsh and `function name` in fish, a table by its declaration (`opened?`). What a
script defines can be read off its lines (`definedIn`), and a shell that reads scripts one
after the other keeps of every name what was defined last (`Session.source`).

The lines of a template can be found before its holes are filled: a name goes on with a name
or opens a line, a word stands where words do, and blocks stand on lines of their own
(`pieceHeads?`). What is found so is opened in every script that is made of the template
(`opens_of_pieceHeads`).
-/

set_option autoImplicit false

namespace CommandCompletion.Script

/-! ## Lines that open something -/

/-- What a script defines under a name. -/
inductive Kind where
  | function
  | table
  deriving DecidableEq

/-- Something defined: its kind and its name. -/
abbrev Head := Kind × List Char

/-- What stands before the name of a function. -/
def functionWord : Shell → List Char
  | .bash | .zsh => []
  | .fish => ['f', 'u', 'n', 'c', 't', 'i', 'o', 'n', ' ']

/-- Whether a text may stand behind the name of a function. -/
def functionEnds : Shell → List Char → Bool
  | .bash, behind | .zsh, behind => behind == ['(', ')', ' ', '\x7b']
  | .fish, behind => behind.isEmpty || behind.head? == some ' '

/-- What stands before the name of a table; in fish tables are functions. -/
def tableWord? : Shell → Option (List Char)
  | .bash => some ['d', 'e', 'c', 'l', 'a', 'r', 'e', ' ', '-', 'g', 'A', ' ']
  | .zsh => some ['t', 'y', 'p', 'e', 's', 'e', 't', ' ', '-', 'g', 'A', ' ']
  | .fish => none

/-- The name of the function that a line opens. -/
def functionOpened? (shell : Shell) (line : List Char) : Option (List Char) :=
  (skip (functionWord shell) line).bind fun text =>
    if (readName text).1 ≠ [] ∧ functionEnds shell (readName text).2 = true then
      some (readName text).1
    else none

/-- The name of the table that a line opens. -/
def tableOpened? (shell : Shell) (line : List Char) : Option (List Char) :=
  (tableWord? shell).bind fun word => (skip word line).map fun text => (readName text).1

/-- What a line opens. -/
def opened? (shell : Shell) (line : List Char) : Option Head :=
  ((functionOpened? shell line).map (Kind.function, ·)).or
    ((tableOpened? shell line).map (Kind.table, ·))

/-- What a text defines, in order. -/
def definedIn (shell : Shell) (text : List Char) : List Head :=
  (logicalLines shell .between [] text).filterMap (opened? shell)

/-- A line that begins with no character of a name opens nothing. -/
theorem opened?_of_not_isNameCharacter (shell : Shell) {c : Char}
    (special : isNameCharacter c = false) (rest : List Char) :
    opened? shell (c :: rest) = none := by
  have apart (other : Char) (valid : isNameCharacter other = true) : (other == c) = false := by
    refine beq_eq_false_iff_ne.mpr ?_
    rintro rfl
    rw [special] at valid
    cases valid
  have name : (readName (c :: rest)).1 = [] := by simp [readName, special]
  cases shell with
  | bash => simp [opened?, functionOpened?, tableOpened?, functionWord, tableWord?, skip,
      List.isPrefixOf?, name, apart 'd' rfl]
  | zsh => simp [opened?, functionOpened?, tableOpened?, functionWord, tableWord?, skip,
      List.isPrefixOf?, name, apart 't' rfl]
  | fish => simp [opened?, functionOpened?, tableOpened?, functionWord, tableWord?, skip,
      List.isPrefixOf?, apart 'f' rfl]

/-- The line that registers a completion opens nothing. -/
theorem opened?_complete (shell : Shell) (rest : List Char) :
    opened? shell ('c' :: 'o' :: 'm' :: 'p' :: 'l' :: 'e' :: 't' :: 'e' :: ' ' :: rest) = none := by
  cases shell <;> rfl

/-! ## Texts that open something -/

/-- A text of whole lines that open certain things. -/
def Opens (shell : Shell) (text : List Char) (heads : List Head) : Prop :=
  ∃ lines, Whole shell text lines ∧ lines.filterMap (opened? shell) = heads

namespace Opens

variable {shell : Shell} {text further : List Char} {heads more : List Head}

theorem nil : Opens shell [] [] := ⟨[], .nil, rfl⟩

theorem append (first : Opens shell text heads) (second : Opens shell further more) :
    Opens shell (text ++ further) (heads ++ more) := by
  obtain ⟨lines, whole, rfl⟩ := first
  obtain ⟨later, wholeToo, rfl⟩ := second
  exact ⟨lines ++ later, whole.append wholeToo, List.filterMap_append⟩

theorem flatMap {α : Type} {write : α → List Char} {headsOf : α → List Head} {items : List α}
    (each : ∀ item ∈ items, Opens shell (write item) (headsOf item)) :
    Opens shell (items.flatMap write) (items.flatMap headsOf) := by
  induction items with
  | nil => exact nil
  | cons item items ih =>
    obtain ⟨first, others⟩ := List.forall_mem_cons.mp each
    rw [List.flatMap_cons, List.flatMap_cons]
    exact first.append (ih others)

/-- A line that opens nothing. -/
theorem plainLine {after : Mode} (runs : Runs shell .between text after)
    (ends : after.isOpen = true) (none : opened? shell text = none) :
    Opens shell (text ++ ['\n']) [] :=
  ⟨[text], .line runs ends, by simp [none]⟩

/-- A line that opens something. -/
theorem headLine {after : Mode} {head : Head} (runs : Runs shell .between text after)
    (ends : after.isOpen = true) (some : opened? shell text = some head) :
    Opens shell (text ++ ['\n']) [head] :=
  ⟨[text], .line runs ends, by simp [some]⟩

/-- A line that begins with no character of a name. -/
theorem specialLine {after : Mode} {c : Char} (special : isNameCharacter c = false)
    (runs : Runs shell .between (c :: text) after) (ends : after.isOpen = true) :
    Opens shell (c :: text ++ ['\n']) [] :=
  plainLine runs ends (opened?_of_not_isNameCharacter shell special text)

theorem definedIn_eq (opens : Opens shell text heads) : definedIn shell text = heads := by
  obtain ⟨lines, whole, rfl⟩ := opens
  rw [definedIn, whole.logicalLines_eq]

end Opens

/-! ## Lines with holes -/

/-- What the text of a hole is to the line around it. -/
inductive Part where
  /-- A name. -/
  | name
  /-- Part of a word, or words. -/
  | word
  /-- Lines of its own. -/
  | lines
  deriving DecidableEq

def Hole.part : Hole → Part
  | .function => .name
  | .root | .program | .separator | .marker | .comparison | .optionTest => .word
  | .walk | .sources | .caseFolding => .lines

/-- A text that is fit to be a part of lines in a script. -/
def Fills (shell : Shell) (text : List Char) : Part → Prop
  | .name => text ≠ [] ∧ ∀ c ∈ text, isNameCharacter c = true
  | .word => (∀ mode : Mode, mode.TakesWord → Runs shell mode text .word) ∧
      ∃ c rest, text = c :: rest ∧ isNameCharacter c = false
  | .lines => Opens shell text []

/-- The text of pieces without holes. -/
def text? : List Piece → Option (List Char)
  | [] => some []
  | .char c :: rest => (text? rest).map (c :: ·)
  | .hole _ :: _ => none

theorem literal_of_text {pieces : List Piece} {text : List Char}
    (found : text? pieces = some text) : pieces = literal text := by
  induction pieces generalizing text with
  | nil =>
    cases found
    rfl
  | cons piece rest ih =>
    cases piece with
    | hole hole => cases found
    | char c =>
      obtain ⟨behind, later, rfl⟩ := Option.map_eq_some_iff.mp found
      exact congrArg (Piece.char c :: ·) (ih later)

/-- Something that is defined, its name being given in pieces. -/
abbrev PieceHead := Kind × List Piece

/-- The function that a line opens whose name begins with a hole. -/
def functionHead? (shell : Shell) (line : List Piece) : Option PieceHead :=
  match (literal (functionWord shell)).isPrefixOf? line with
  | some (.hole hole :: behind) =>
    (text? behind).bind fun text =>
      if hole.part = .name ∧ functionEnds shell (readName text).2 = true then
        some (.function, .hole hole :: literal (readName text).1)
      else none
  | _ => none

/-- What a line with holes opens, if that can be told before the holes are filled. -/
def pieceHead? (shell : Shell) (line : List Piece) : Option (Option PieceHead) :=
  match text? line with
  | some text => some ((opened? shell text).map fun head => (head.1, literal head.2))
  | none =>
    match functionHead? shell line with
    | some head => some (some head)
    | none =>
      match line with
      | .char c :: _ =>
        if isNameCharacter c = false ∨
            (literal ['c', 'o', 'm', 'p', 'l', 'e', 't', 'e', ' ']).isPrefixOf line = true then
          some none
        else none
      | .hole hole :: _ => if hole.part = .word then some none else none
      | [] => none

/-- What the lines of some pieces open, if that can be told before the holes are filled and the
pieces end their last line. Of the line that is begun the last piece comes first. -/
def pieceHeads? (shell : Shell) (mode : Mode) (begun : List Piece) :
    List Piece → Option (List PieceHead)
  | [] => if mode = .between ∧ begun = [] then some [] else none
  | .char c :: rest =>
    if c = '\n' && mode.isOpen then
      (pieceHead? shell begun.reverse).bind fun head =>
        (pieceHeads? shell .between [] rest).map (head.toList ++ ·)
    else pieceHeads? shell (mode.next shell c) (.char c :: begun) rest
  | .hole hole :: rest =>
    match hole.part with
    | .name =>
      mode.afterName?.bind fun after => pieceHeads? shell after (.hole hole :: begun) rest
    | .word =>
      if mode = .between ∨ mode = .word then pieceHeads? shell .word (.hole hole :: begun) rest
      else none
    | .lines => if mode = .between ∧ begun = [] then pieceHeads? shell .between [] rest else none

section Filled

variable {shell : Shell} {value : Hole → List Char}

/-- What is opened once the holes are filled. -/
def PieceHead.filled (value : Hole → List Char) (head : PieceHead) : Head :=
  (head.1, assemble value head.2)

theorem opened?_of_functionHead {line : List Piece} {head : PieceHead}
    (found : functionHead? shell line = some head)
    (fills : ∀ hole, .hole hole ∈ line → Fills shell (value hole) hole.part) :
    opened? shell (assemble value line) = some (head.filled value) := by
  unfold functionHead? at found
  split at found
  · rename_i hole behind stripped
    have line_eq := List.isPrefixOf?_eq_some_iff_append_eq.mp stripped
    obtain ⟨text, spelled, found⟩ := Option.bind_eq_some_iff.mp found
    split at found
    · rename_i ends
      cases found
      have own := fills hole (by rw [← line_eq]; simp)
      rw [ends.1] at own
      obtain ⟨nonempty, valid⟩ := own
      have assembled : assemble value line = functionWord shell ++ (value hole ++ text) := by
        rw [← line_eq, literal_of_text spelled]
        simp
      have name : readName (value hole ++ text) =
          (value hole ++ (readName text).1, (readName text).2) := by
        rw [readName, List.takeWhile_append_of_pos valid, List.dropWhile_append_of_pos valid]
        rfl
      rw [assembled, opened?, functionOpened?, skip_append, Option.bind_some, name,
        if_pos ⟨by simp [nonempty], ends.2⟩]
      simp [PieceHead.filled]
    · cases found
  · cases found

theorem opened?_of_pieceHead {line : List Piece} {head : Option PieceHead}
    (found : pieceHead? shell line = some head)
    (fills : ∀ hole, .hole hole ∈ line → Fills shell (value hole) hole.part) :
    opened? shell (assemble value line) = head.map (·.filled value) := by
  unfold pieceHead? at found
  split at found
  · rename_i text spelled
    cases found
    rw [literal_of_text spelled, assemble_literal]
    cases opened? shell text with
    | none => rfl
    | some own => simp [PieceHead.filled]
  · split at found
    · rename_i own named
      cases found
      exact opened?_of_functionHead named fills
    · split at found
      · rename_i c rest _ _
        split at found
        · rename_i closed
          cases found
          rcases closed with special | complete
          · exact opened?_of_not_isNameCharacter shell special _
          · obtain ⟨behind, same⟩ := List.isPrefixOf_iff_prefix.mp complete
            rw [← same, assemble_append, assemble_literal]
            exact opened?_complete shell _
        · cases found
      · rename_i hole rest _ _
        split at found
        · rename_i part
          cases found
          have own := fills hole List.mem_cons_self
          rw [part] at own
          obtain ⟨_, c, behind, text, special⟩ := own
          rw [assemble_hole, text]
          exact opened?_of_not_isNameCharacter shell special _
        · cases found
      · cases found

/-- What was found in pieces is opened, whatever the holes are filled with. -/
theorem opens_from_pieceHeads {mode : Mode} {begun pieces : List Piece} {heads : List PieceHead}
    (found : pieceHeads? shell mode begun pieces = some heads)
    (fills : ∀ hole, .hole hole ∈ begun.reverse ++ pieces → Fills shell (value hole) hole.part) :
    ∃ lines, (∀ rest, logicalLines shell mode (assemble value begun.reverse)
        (assemble value pieces ++ rest) = lines ++ logicalLines shell .between [] rest) ∧
      lines.filterMap (opened? shell) = heads.map (·.filled value) := by
  induction pieces generalizing mode begun heads with
  | nil =>
    rw [pieceHeads?] at found
    split at found
    · rename_i here
      obtain ⟨rfl, rfl⟩ := here
      cases found
      exact ⟨[], fun rest => rfl, rfl⟩
    · cases found
  | cons piece pieces ih =>
    have later : ∀ hole, .hole hole ∈ [].reverse ++ pieces → Fills shell (value hole) hole.part :=
      fun hole member => fills hole (List.mem_append_right _ (List.mem_cons_of_mem _ member))
    have moved : ∀ hole, .hole hole ∈ (piece :: begun).reverse ++ pieces →
        Fills shell (value hole) hole.part := by
      rw [List.reverse_cons, List.append_assoc]
      exact fills
    -- A piece that ends no line is read by its run, and the line goes on behind it.
    have continued {text : List Char} {after : Mode} (run : Runs shell mode text after)
        (spelled : assemble value [piece] = text)
        (found : pieceHeads? shell after (piece :: begun) pieces = some heads) :
        ∃ lines, (∀ rest, logicalLines shell mode (assemble value begun.reverse)
            (assemble value (piece :: pieces) ++ rest) =
              lines ++ logicalLines shell .between [] rest) ∧
          lines.filterMap (opened? shell) = heads.map (·.filled value) := by
      obtain ⟨lines, read, same⟩ := ih found moved
      refine ⟨lines, fun rest => ?_, same⟩
      have parts : assemble value (piece :: pieces) = text ++ assemble value pieces := by
        rw [← spelled, ← assemble_append]
        rfl
      rw [parts, List.append_assoc, run, ← read rest, List.reverse_cons, assemble_append, spelled]
    cases piece with
    | char c =>
      rw [pieceHeads?] at found
      split at found
      · rename_i ends
        obtain ⟨head, own, found⟩ := Option.bind_eq_some_iff.mp found
        obtain ⟨others, below, rfl⟩ := Option.map_eq_some_iff.mp found
        obtain ⟨lines, read, same⟩ := ih below later
        have opens := opened?_of_pieceHead own fun hole member =>
          fills hole (List.mem_append_left _ member)
        refine ⟨assemble value begun.reverse :: lines, fun rest => ?_, ?_⟩
        · rw [assemble_char, List.cons_append, logicalLines, if_pos ends]
          exact congrArg (assemble value begun.reverse :: ·) (read rest)
        · rw [List.filterMap_cons, opens, List.map_append, ← same]
          cases head <;> rfl
      · rename_i inside
        refine continued (.cons (fun newline => ?_) .nil) rfl found
        simpa [newline] using inside
    | hole hole =>
      have own := fills hole (List.mem_append_right _ List.mem_cons_self)
      have spelled : assemble value [.hole hole] = value hole := List.append_nil _
      rw [pieceHeads?] at found
      split at found <;> rename_i part <;> rw [part] at own
      · obtain ⟨after, named, found⟩ := Option.bind_eq_some_iff.mp found
        exact continued (runs_name own.1 own.2 named) spelled found
      · split at found
        · rename_i takes
          exact continued (own.1 mode takes) spelled found
        · cases found
      · split at found
        · rename_i here
          obtain ⟨rfl, rfl⟩ := here
          obtain ⟨block, whole, none⟩ := own
          obtain ⟨lines, read, same⟩ := ih found later
          refine ⟨block ++ lines, fun rest => ?_, ?_⟩
          · rw [assemble_hole, List.append_assoc, List.reverse_nil, assemble_nil, whole,
              List.append_assoc]
            exact congrArg (block ++ ·) (read rest)
          · rw [List.filterMap_append, none, List.nil_append, same]
        · cases found

/-- The templates of a script open what their pieces do. -/
theorem opens_of_pieceHeads {pieces : List Piece} {heads : List PieceHead}
    (found : pieceHeads? shell .between [] pieces = some heads)
    (fills : ∀ hole, .hole hole ∈ pieces → Fills shell (value hole) hole.part) :
    Opens shell (assemble value pieces) (heads.map (·.filled value)) := by
  obtain ⟨lines, read, same⟩ := opens_from_pieceHeads found fills
  exact ⟨lines, read, same⟩

end Filled

/-! ## Sessions -/

/-- What is defined in a shell: the lines of each function and table that there is. -/
abbrev Session := Head → Option (List (List Char))

/-- A definition of a script with its lines, from the one that opens it up to the line that closes
it. -/
structure Definition where
  head : Head
  body : List (List Char)

/-- The line that closes a definition. -/
def closingLine : Shell → Kind → List Char
  | .bash, .function | .zsh, .function => ['\x7d']
  | .bash, .table | .zsh, .table => [')']
  | .fish, _ => ['e', 'n', 'd']

/-- The definitions in some lines. -/
def definitions (shell : Shell) : List (List Char) → List Definition
  | [] => []
  | line :: later =>
    match opened? shell line with
    | some head =>
      ⟨head, line :: later.takeWhile (· != closingLine shell head.1)⟩ :: definitions shell later
    | none => definitions shell later

theorem heads_definitions (shell : Shell) (lines : List (List Char)) :
    (definitions shell lines).map (·.head) = lines.filterMap (opened? shell) := by
  induction lines with
  | nil => rfl
  | cons line later ih =>
    rw [definitions, List.filterMap_cons]
    split <;> rename_i found
    · rw [found, List.map_cons, ih]
    · rw [found, ih]

namespace Session

/-- The session in which nothing is defined. -/
def empty : Session := fun _ => none

/-- A session after one more definition. -/
def define (session : Session) (definition : Definition) : Session :=
  Function.update session definition.head (some definition.body)

/-- A session after a script was read. -/
def source (session : Session) (shell : Shell) (text : List Char) : Session :=
  (definitions shell (logicalLines shell .between [] text)).foldl define session

theorem foldl_define_of_notMem {session : Session} {made : List Definition} {head : Head}
    (other : head ∉ made.map (·.head)) : made.foldl define session head = session head := by
  induction made generalizing session with
  | nil => rfl
  | cons first rest ih =>
    obtain ⟨apart, others⟩ := not_or.mp (mt List.mem_cons.mpr other)
    rw [List.foldl_cons, ih others, define, Function.update_of_ne apart]

theorem foldl_define_of_mem {session earlier : Session} {made : List Definition} {head : Head}
    (listed : head ∈ made.map (·.head)) :
    made.foldl define session head = made.foldl define earlier head := by
  induction made generalizing session earlier with
  | nil => cases listed
  | cons first rest ih =>
    rw [List.foldl_cons, List.foldl_cons]
    by_cases again : head ∈ rest.map (·.head)
    · exact ih again
    · have here : head = first.head := (List.mem_cons.mp listed).resolve_right again
      rw [foldl_define_of_notMem again, foldl_define_of_notMem again, here, define, define,
        Function.update_self, Function.update_self]

theorem mem_heads_iff {shell : Shell} {text : List Char} {head : Head} :
    head ∈ (definitions shell (logicalLines shell .between [] text)).map (·.head) ↔
      head ∈ definedIn shell text := by
  rw [heads_definitions, definedIn]

/-- A script changes nothing but what it defines. -/
theorem source_of_notMem {session : Session} {shell : Shell} {text : List Char} {head : Head}
    (other : head ∉ definedIn shell text) : session.source shell text head = session head :=
  foldl_define_of_notMem (mt mem_heads_iff.mp other)

/-- What a script defines does not depend on the session in which it is read. -/
theorem source_of_mem (session : Session) {shell : Shell} {text : List Char} {head : Head}
    (own : head ∈ definedIn shell text) :
    session.source shell text head = empty.source shell text head :=
  foldl_define_of_mem (mem_heads_iff.mpr own)

end Session

end CommandCompletion.Script
