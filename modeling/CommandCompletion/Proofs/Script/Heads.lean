import CommandCompletion.Proofs.Script.Defined
import CommandCompletion.Proofs.Script.Parts
import CommandCompletion.Proofs.Text.Words

/-!
# The names that a script defines

What a script defines does not depend on its index, its description or its program, but for
the stem of the names: after the functions of the built-in providers come the five tables,
which are functions in fish, with one more for the keys of all commands, then the helper
functions, and at last the completion function (`definedIn_render`).

The parts of a script are gone through one by one. Every line of a header is a comment, a
row of a table begins with a blank and holds the texts of the user in quotes, and of the
templates the lines can be told before the holes are filled.
-/

set_option autoImplicit false

namespace CommandCompletion.Script

/-! ## The names in a script -/

/-- The names of the tables. -/
def tableNames : List String :=
  ["subcommands", "options", "choices", "providers", "arity"]

/-- What is defined for a table. -/
def tableHead (shell : Shell) (stem : List Char) (name : String) : Head :=
  match shell with
  | .bash | .zsh => (.table, tableName stem name)
  | .fish => (.function, tableName stem name)

/-- The names of what is looked up; in fish there is a list of all keys, too. -/
def lookUpNames : Shell → List String
  | .bash | .zsh => tableNames
  | .fish => "prefixes" :: tableNames

/-- The name of the completion function. -/
def completionName (shell : Shell) (stem : List Char) : List Char :=
  match shell with
  | .bash | .zsh => stem
  | .fish => tableName stem "complete"

/-- What a script defines under the stem of its program. -/
def ownHeads (shell : Shell) (stem : List Char) : List Head :=
  (lookUpNames shell).map (tableHead shell stem) ++
    (helperNames shell).map (fun name => (.function, tableName stem name)) ++
    [(.function, completionName shell stem)]

/-! ## Lines -/

/-- Texts that open nothing, one after the other. -/
theorem opens_blocks {α : Type} {shell : Shell} {block : α → List Char}
    (each : ∀ item, Opens shell (block item) []) (items : List α) :
    Opens shell (items.flatMap block) [] := by
  have opens : Opens shell (items.flatMap block) (items.flatMap fun _ => []) :=
    Opens.flatMap fun item _ => each item
  rwa [List.flatMap_eq_nil_iff.mpr fun _ _ => rfl] at opens

theorem opens_nil_line (shell : Shell) : Opens shell ['\n'] [] := by
  have empty : opened? shell [] = none := by cases shell <;> rfl
  exact Opens.plainLine .nil rfl empty

/-! ## Headers -/

theorem newline_notMem_asciiForm (text : String) : '\n' ∉ (Text.asciiForm text).toList := by
  rw [Text.asciiForm, String.toList_ofList]
  intro member
  obtain ⟨c, _, written⟩ := List.mem_flatMap.mp member
  by_cases newline : c = '\n'
  · rw [newline] at written
    revert written
    decide
  · have digits : '\n' ∉ Nat.toDigits 16 c.toNat :=
      Text.notMem_toDigits (fun _ => Nat.digitChar_ne '\n' (by decide)) (by decide) c.toNat
    unfold Text.asciiFormChar Text.numberedForm Text.hexadecimal at written
    split_ifs at written <;> simp [Ne.symm newline, digits] at written

/-- A comment on a line of its own opens nothing. -/
theorem opens_comment (shell : Shell) {text : String} (begins : text.toList.head? = some '#')
    (free : '\n' ∉ text.toList) : Opens shell (text.toList ++ ['\n']) [] := by
  generalize text.toList = characters at begins free
  cases characters with
  | nil => cases begins
  | cons c rest =>
    cases begins
    have inside : Runs shell .comment rest .comment := by
      refine .of_forall fun c member => ⟨fun newline => absurd ?_ free, rfl⟩
      exact newline ▸ List.mem_cons_of_mem _ member
    have runs : Runs shell .between ('#' :: rest) .comment := .cons (by decide) inside
    exact Opens.specialLine rfl runs rfl

theorem opens_header (shell : Shell) (program : String) :
    Opens shell ((emitterFor shell).header program) [] := by
  have shown := newline_notMem_asciiForm program
  have generated : Opens shell (generatedLine.toList ++ ['\n']) [] :=
    opens_comment shell rfl (by decide)
  have named (before : String) (begins : before.toList.head? = some '#')
      (free : '\n' ∉ before.toList) :
      Opens shell ((before ++ Text.asciiForm program).toList ++ ['\n']) [] := by
    refine opens_comment shell ?_ ?_
    · rw [String.toList_append, List.head?_append, begins]
      rfl
    · rw [String.toList_append, List.mem_append, not_or]
      exact ⟨free, shown⟩
  cases shell with
  | bash =>
    exact (named "# bash completion for " (by decide) (by decide)).append (generated.append .nil)
  | zsh =>
    exact (named "#compdef " (by decide) (by decide)).append
      ((named "# zsh completion for " (by decide) (by decide)).append (generated.append .nil))
  | fish =>
    exact (named "# fish completion for " (by decide) (by decide)).append (generated.append .nil)

/-! ## Tables of bash and zsh -/

/-- A row of a table opens nothing: it begins with a blank, and what it holds is quoted. -/
theorem opens_row {shell : Shell} (posix : shell ≠ .fish) {layout : RowLayout}
    (blank : layout.opening.head? = some ' ') (ends : layout.closing = ['\n'])
    {first second : Mode} (opening : Runs shell .between layout.opening first)
    (takes : first.TakesWord) (between : Runs shell .word layout.between second)
    (takesToo : second.TakesWord) (row : String × List String) :
    Opens shell (layout.write row) [] := by
  have runs := opening.append ((runs_posixQuote posix takes row.1.toList).append
    (between.append (runs_ansiLines posix takesToo (row.2.map String.toList))))
  have written : layout.write row = layout.opening ++ (posixQuote row.1.toList ++
      (layout.between ++ ansiLines (row.2.map String.toList))) ++ ['\n'] := by
    simp [RowLayout.write, ends]
  obtain ⟨rest, begins⟩ := List.head?_eq_some_iff.mp blank
  rw [begins] at runs
  rw [written, begins]
  exact Opens.specialLine rfl runs rfl

theorem opens_bracket (shell : Shell) : Opens shell ([')'] ++ ['\n']) [] :=
  Opens.specialLine rfl (runs_of_modeAfter rfl) rfl

/-! ## Tables of fish -/

/-- A line that begins with a blank and goes on with items opens nothing if the items are quoted. -/
theorem opens_items {α : Type} {quote : α → List Char} (before : List Char)
    (blank : before.head? = some ' ') (opening : Runs .fish .between before .word)
    (quoted : ∀ item, Runs .fish .between (quote item) .word) (items : List α) :
    Opens .fish (before ++ items.flatMap (fun item => Fish.continued (quote item)) ++ ['\n'])
      [] := by
  have item (item : α) : Runs .fish .word (Fish.continued (quote item)) .word := by
    have joint : Runs .fish .word " \\\n        ".toList .between := runs_of_modeAfter rfl
    exact joint.append (quoted item)
  have runs := opening.append (runs_flatMap item items)
  obtain ⟨rest, rfl⟩ : ∃ rest, before = ' ' :: rest := List.head?_eq_some_iff.mp blank
  exact Opens.specialLine rfl runs rfl

/-! ## Lines with names -/

/-- A text without a blank opens no table. -/
theorem tableOpened?_of_notMem {shell : Shell} {line : List Char} (free : ' ' ∉ line) :
    tableOpened? shell line = none := by
  have none (word : List Char) (blank : ' ' ∈ word) : skip word line = none := by
    cases found : skip word line with
    | none => rfl
    | some rest =>
      have same := List.isPrefixOf?_eq_some_iff_append_eq.mp found
      exact absurd (same ▸ List.mem_append_left rest blank) free
  cases shell with
  | bash => simp [tableOpened?, tableWord?, none]
  | zsh => simp [tableOpened?, tableWord?, none]
  | fish => rfl

theorem tableName_ne_nil (stem : List Char) (name : String) : tableName stem name ≠ [] := by
  simp [tableName]

theorem readName_self {name : List Char} (valid : ∀ c ∈ name, isNameCharacter c = true) :
    readName name = (name, []) := by
  have none : [].takeWhile isNameCharacter = [] := rfl
  have read := readName_append valid none
  rwa [List.append_nil] at read

section Named

variable {name : List Char} (nonempty : name ≠ []) (valid : ∀ c ∈ name, isNameCharacter c = true)
include nonempty valid

theorem runs_name_word (shell : Shell) {mode : Mode} (takes : mode.TakesWord) :
    Runs shell mode name .word := by
  refine runs_name nonempty valid ?_
  rcases takes with rfl | rfl <;> rfl

/-- The line of bash that declares and fills a table. -/
theorem opens_declare :
    Opens .bash ("declare -gA ".toList ++ (name ++ ['=', '(']) ++ ['\n']) [(.table, name)] := by
  have opened : opened? .bash ("declare -gA ".toList ++ (name ++ ['=', '('])) =
      some (.table, name) := by
    have function : functionOpened? .bash ("declare -gA ".toList ++ (name ++ ['=', '('])) = none :=
      rfl
    have word : tableWord? .bash = some "declare -gA ".toList := rfl
    rw [opened?, function, tableOpened?, word, Option.bind_some, skip_append, Option.map_some,
      readName_append valid rfl]
    rfl
  have word : Runs .bash .between "declare -gA ".toList .between := runs_of_modeAfter rfl
  have named := runs_name_word nonempty valid .bash (.inl rfl)
  have bracket : Runs .bash .word ['=', '('] .between := runs_of_modeAfter rfl
  exact Opens.headLine (word.append (named.append bracket)) rfl opened

/-- The line of zsh that declares a table. -/
theorem opens_typeset :
    Opens .zsh ("typeset -gA ".toList ++ name ++ ['\n']) [(.table, name)] := by
  have opened : opened? .zsh ("typeset -gA ".toList ++ name) = some (.table, name) := by
    have function : functionOpened? .zsh ("typeset -gA ".toList ++ name) = none := rfl
    have word : tableWord? .zsh = some "typeset -gA ".toList := rfl
    rw [opened?, function, tableOpened?, word, Option.bind_some, skip_append, Option.map_some,
      readName_self valid]
    rfl
  have word : Runs .zsh .between "typeset -gA ".toList .between := runs_of_modeAfter rfl
  exact Opens.headLine (word.append (runs_name_word nonempty valid .zsh (.inl rfl))) rfl opened

/-- The line of zsh that fills a table. -/
theorem opens_assignment : Opens .zsh (name ++ ['=', '('] ++ ['\n']) [] := by
  have opened : opened? .zsh (name ++ ['=', '(']) = none := by
    have free : ' ' ∉ name ++ ['=', '('] := by
      intro member
      rcases List.mem_append.mp member with own | fixed
      · exact absurd (valid ' ' own) (by decide)
      · exact absurd fixed (by decide)
    have word : skip (functionWord .zsh) (name ++ ['=', '(']) = some (name ++ ['=', '(']) := rfl
    have ends : functionEnds .zsh ['=', '('] = false := rfl
    have function : functionOpened? .zsh (name ++ ['=', '(']) = none := by
      rw [functionOpened?, word, Option.bind_some, readName_append valid rfl, ends]
      simp
    rw [opened?, function, tableOpened?_of_notMem free]
    rfl
  have bracket : Runs .zsh .word ['=', '('] .between := runs_of_modeAfter rfl
  exact Opens.plainLine ((runs_name_word nonempty valid .zsh (.inl rfl)).append bracket) rfl opened

/-- The line of fish that opens a function. -/
theorem opens_fishFunction :
    Opens .fish ("function ".toList ++ name ++ ['\n']) [(.function, name)] := by
  have opened : opened? .fish ("function ".toList ++ name) = some (.function, name) := by
    have word : functionWord .fish = "function ".toList := rfl
    rw [opened?, functionOpened?, word, skip_append, Option.bind_some,
      readName_self valid, if_pos ⟨nonempty, rfl⟩]
    rfl
  have word : Runs .fish .between "function ".toList .between := runs_of_modeAfter rfl
  exact Opens.headLine (word.append (runs_name_word nonempty valid .fish (.inl rfl))) rfl opened

end Named

section Tables

variable {stem : List Char} {table : ScriptTable}
  (valid : ∀ c ∈ (table.written stem).name, isNameCharacter c = true)
include valid

theorem opens_bashTable :
    Opens .bash (Bash.table stem table) [tableHead .bash stem table.name] := by
  have parts : Bash.table stem table =
      ("declare -gA ".toList ++ ((table.written stem).name ++ ['=', '(']) ++ ['\n']) ++
        (table.rows.flatMap bashRow.write ++ ([')'] ++ ['\n'])) := by
    unfold Bash.table
    simp only [ScriptTable.written, tableName, List.append_assoc]
    rfl
  have posix : Shell.bash ≠ .fish := by decide
  have row : ∀ row, Opens .bash (bashRow.write row) [] :=
    opens_row posix rfl rfl (runs_of_modeAfter rfl) (.inr rfl) (runs_of_modeAfter rfl) (.inr rfl)
  rw [parts]
  exact (opens_declare (tableName_ne_nil stem table.name) valid).append
    ((opens_blocks row table.rows).append (opens_bracket .bash))

theorem opens_zshTable :
    Opens .zsh (Zsh.table stem table) [tableHead .zsh stem table.name] := by
  have parts : Zsh.table stem table =
      ("typeset -gA ".toList ++ (table.written stem).name ++ ['\n']) ++
        (((table.written stem).name ++ ['=', '('] ++ ['\n']) ++
          (table.rows.flatMap zshRow.write ++ ([')'] ++ ['\n']))) := by
    unfold Zsh.table
    simp only [ScriptTable.written, tableName, List.append_assoc]
    rfl
  have posix : Shell.zsh ≠ .fish := by decide
  have row : ∀ row, Opens .zsh (zshRow.write row) [] :=
    opens_row posix rfl rfl (runs_of_modeAfter rfl) (.inl rfl) (runs_of_modeAfter rfl) (.inl rfl)
  have nonempty := tableName_ne_nil stem table.name
  rw [parts]
  exact (opens_typeset nonempty valid).append ((opens_assignment nonempty valid).append
    ((opens_blocks row table.rows).append (opens_bracket .zsh)))

theorem opens_fishTable :
    Opens .fish (Fish.table stem table) [tableHead .fish stem table.name] := by
  have parts : Fish.table stem table =
      ['\n'] ++ (("function ".toList ++ (table.written stem).name ++ ['\n']) ++
        (("    set -l keys".toList ++
            table.rows.flatMap (fun row => Fish.continued (fishQuote row.1.toList)) ++ ['\n']) ++
          (("    set -l values".toList ++ table.rows.flatMap (fun row =>
              Fish.continued (fishLines (row.2.map String.toList))) ++ ['\n']) ++
            fishLookUp))) := by
    unfold Fish.table
    simp only [ScriptTable.written, tableName, List.append_assoc]
    rfl
  have keys := opens_items "    set -l keys".toList rfl (runs_of_modeAfter rfl)
    (fun row : String × List String => runs_fishQuote (.inl rfl) row.1.toList) table.rows
  have values := opens_items "    set -l values".toList rfl (runs_of_modeAfter rfl)
    (fun row : String × List String => runs_fishLines (.inl rfl) (row.2.map String.toList))
    table.rows
  rw [parts]
  exact (opens_nil_line .fish).append
    ((opens_fishFunction (tableName_ne_nil stem table.name) valid).append
      (keys.append (values.append sound_texts.lookUp.opens_text)))

end Tables

/-- The list of all keys in fish. -/
theorem opens_keyList {plan : Plan} (valid : ∀ c ∈ plan.function, isNameCharacter c = true) :
    Opens .fish (Fish.keyList plan) [tableHead .fish plan.function "prefixes"] := by
  have parts : Fish.keyList plan =
      ("function ".toList ++ tableName plan.function "prefixes" ++ ['\n']) ++
        (("    printf '%s\\n'".toList ++
            plan.keys.flatMap (fun key => Fish.continued (fishQuote key.toList)) ++ ['\n']) ++
          (['e', 'n', 'd'] ++ ['\n'])) := by
    unfold Fish.keyList tableName
    simp only [List.append_assoc]
    rfl
  have named : ∀ c ∈ tableName plan.function "prefixes", isNameCharacter c = true := by
    intro c member
    rw [tableName, List.append_assoc] at member
    rcases List.mem_append.mp member with own | added
    · exact valid c own
    · have all : ("_".toList ++ "prefixes".toList).all isNameCharacter = true := by decide
      exact List.all_eq_true.mp all c added
  have keys := opens_items "    printf '%s\\n'".toList rfl (runs_of_modeAfter rfl)
    (fun key : String => runs_fishQuote (.inl rfl) key.toList) plan.keys
  have closing : Opens .fish (['e', 'n', 'd'] ++ ['\n']) [] :=
    Opens.plainLine (runs_of_modeAfter rfl) rfl rfl
  rw [parts]
  exact (opens_fishFunction (tableName_ne_nil plan.function "prefixes") named).append
    (keys.append closing)

/-- All tables of a script. -/
theorem opens_tables (shell : Shell) {plan : Plan} (named : plan.Named)
    (names : plan.tables.map (·.name) = tableNames) :
    Opens shell ((emitterFor shell).tables plan)
      ((lookUpNames shell).map (tableHead shell plan.function)) := by
  have each (table : ScriptTable) (member : table ∈ plan.tables) :
      Opens shell (writeTable shell plan.function table)
        [tableHead shell plan.function table.name] := by
    have valid := named.written member
    cases shell with
    | bash => exact opens_bashTable valid
    | zsh => exact opens_zshTable valid
    | fish => exact opens_fishTable valid
  have listed : (plan.tables.flatMap fun table => [tableHead shell plan.function table.name]) =
      tableNames.map (tableHead shell plan.function) := by
    rw [← names, List.map_map, List.map_eq_flatMap]
    rfl
  have tables := listed ▸ Opens.flatMap each
  cases shell with
  | bash | zsh => exact tables
  | fish => exact (opens_keyList named.stem).append tables

/-! ## The texts of the holes -/

theorem fills_quote (shell : Shell) (text : List Char) :
    Fills shell ((emitterFor shell).quote text) .word := by
  refine ⟨fun mode takes => runs_quote shell takes text, ?_⟩
  cases shell <;> exact ⟨'\'', _, rfl, rfl⟩

theorem fills_comparison {shell : Shell} (posix : shell ≠ .fish) (matchCase : MatchCase) :
    Fills shell (comparisonText shell matchCase) .word := by
  cases shell with
  | bash | zsh =>
    refine ⟨fun mode takes => ?_, ?_⟩
    · rcases takes with rfl | rfl <;> cases matchCase <;>
        exact runs_of_modeAfter rfl
    · cases matchCase <;> exact ⟨'[', _, rfl, rfl⟩
  | fish => exact absurd rfl posix

theorem fills_optionTest (marker : String) : Fills .fish (Fish.optionTest marker) .word := by
  rw [Fish.optionTest]
  split
  · refine ⟨fun mode takes => ?_, ' ', _, rfl, rfl⟩
    rcases takes with rfl | rfl <;> exact runs_of_modeAfter rfl
  · refine ⟨fun mode takes => ?_, ' ', _, rfl, rfl⟩
    have before : Runs .fish mode "    string match -qr -- ".toList .between := by
      rcases takes with rfl | rfl <;> exact runs_of_modeAfter rfl
    have behind : Runs .fish .word " \"$word\"".toList .word := runs_of_modeAfter rfl
    exact (before.append (runs_fishQuote (.inl rfl) _)).append behind

section Filled

variable (index : Index) (description : Description) (shell : Shell) {plan : Plan}
  (nonempty : plan.function ≠ []) (named : plan.Named)
include nonempty named

theorem fills_holeText :
    ∀ hole ∈ commonNames ++ (templates shell).tests,
      Fills shell (holeText index description shell plan hole) hole.part := by
  intro hole member
  rcases List.mem_append.mp member with common | test
  · simp only [commonNames, List.mem_cons, List.not_mem_nil, or_false] at common
    rcases common with rfl | rfl | rfl | rfl | rfl
    · exact ⟨nonempty, named.stem⟩
    all_goals exact fills_quote shell _
  · cases shell with
    | bash =>
      rw [List.mem_singleton.mp test]
      exact fills_comparison (by decide) description.matchCase
    | zsh =>
      rw [List.mem_singleton.mp test]
      exact fills_comparison (by decide) description.matchCase
    | fish =>
      rcases List.mem_pair.mp test with rfl | rfl
      · exact fills_optionTest description.marker
      · exact (sound_texts.caseFolding description.matchCase).opens_text

/-- A template without tests that defines nothing. -/
theorem opens_block {template : List Char} (sound : SoundTemplate shell commonNames [] template) :
    Opens shell (assembleTemplate index description shell plan template) [] :=
  sound.opens_filled fun hole member => fills_holeText index description shell nonempty named hole
    (List.mem_append_left _ member)

theorem fills_mainText :
    ∀ hole ∈ commonNames ++ [.walk, .sources],
      Fills shell (mainText index description shell plan hole) hole.part := by
  intro hole member
  rcases List.mem_append.mp member with common | block
  · rw [mainText_of_common index description shell plan common]
    exact fills_holeText index description shell nonempty named hole
      (List.mem_append_left _ common)
  · rcases List.mem_pair.mp block with rfl | rfl
    · exact opens_blocks (fun rule => opens_block index description shell nonempty named
        (sound_templates.walk shell rule)) description.rules
    · exact opens_blocks (fun source => opens_block index description shell nonempty named
        (sound_templates.sources shell source)) description.sources

theorem opens_helpers :
    Opens shell (assembleTemplate index description shell plan (templates shell).helpers)
      ((helperNames shell).map fun name => (.function, tableName plan.function name)) := by
  have opens := (sound_templates.helpers shell).opens_filled
    (fills_holeText index description shell nonempty named)
  rw [List.map_map] at opens
  have same (name : String) : PieceHead.filled (holeText index description shell plan)
      (.function, suffixed name) = (.function, tableName plan.function name) := by
    simp [PieceHead.filled, suffixed, tableName, holeText]
  rw [assembleTemplate]
  simpa [Function.comp_def, same] using opens

theorem opens_main :
    Opens shell (assemble (mainText index description shell plan) (split (templates shell).main))
      [(.function, completionName shell plan.function)] := by
  have opens := (sound_templates.main shell).opens_filled
    (fills_mainText index description shell nonempty named)
  have same : PieceHead.filled (mainText index description shell plan)
      (.function, completionPieces shell) = (.function, completionName shell plan.function) := by
    cases shell <;>
      simp [PieceHead.filled, completionPieces, completionName, suffixed, tableName, mainText,
        holeText]
  rwa [List.map_singleton, same] at opens

theorem opens_registration : Opens shell (registrationText shell plan) [] := by
  -- The template shows neither the index nor the description, so any of them will do.
  have opens := opens_block ⟨plan.program, .empty⟩ .standard shell nonempty named
    (sound_templates.registration shell)
  rwa [assemble_registration] at opens

/-- The own code of a script defines its tables, its helper functions and its completion function,
behind the functions of the built-in providers. -/
theorem opens_ownCode (listed : plan.tables.map (·.name) = tableNames) :
    Opens shell (ownCode index description shell plan)
      (builtinHeads ++ ownHeads shell plan.function) := by
  have blank := opens_nil_line shell
  have first : Opens shell (firstPart shell plan.program) builtinHeads := by
    have opens := (((opens_header shell plan.program).append blank).append
      (sound_texts.functions shell).opens_text).append blank
    simpa only [firstPart, List.nil_append, List.append_nil] using opens
  have helpers := opens_helpers index description shell nonempty named
  have main := opens_main index description shell nonempty named
  have behind := (((blank.append helpers).append blank).append main).append blank
  have opens := (first.append (opens_tables shell named listed)).append behind
  simpa only [ownCode, codeBehind, ownHeads, List.nil_append, List.append_nil, List.append_assoc]
    using opens

end Filled

/-! ## The whole script -/

theorem functionStem_ne_nil (shell : Shell) (program : String) :
    (Plan.functionStem shell program).toList ≠ [] := by
  cases shell <;> simp [Plan.functionStem]

/-- **What a script defines.** Without code of the caller's own a script defines the functions of
the built-in providers, and under the stem of its program the tables, the helper functions and the
completion function, in this order and nothing else. -/
theorem definedIn_render (index : Index) (description : Description) (shell : Shell)
    {options : ScriptOptions} (plain : options.preamble = none) :
    definedIn shell (render index description shell options).toList =
      builtinHeads ++
        ownHeads shell (Plan.functionStem shell (options.program.getD index.root)).toList := by
  have named := Plan.named_of index shell options.program options.bindings
  have nonempty := functionStem_ne_nil shell (options.program.getD index.root)
  have opens := ((opens_ownCode index description shell nonempty named rfl).append .nil).append
    (opens_registration shell nonempty named)
  rw [render_eq_parts, plain, preambleBlock, opens.definedIn_eq, List.append_nil, List.append_nil]
  rfl

end CommandCompletion.Script
