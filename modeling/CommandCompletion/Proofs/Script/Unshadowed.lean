import CommandCompletion.Proofs.Script.Together

/-!
# No function of a script shadows another

A shell keeps of every name the function that was defined last, so a script that defines two
functions under one name loses the first of them. The names in a script are put together
from a fixed word, the name of the program as far as a name can hold it, and a name of their
own behind an underscore. No two of them come out equal, whatever the program is called
(`nodup_heads`): behind one stem the own names tell them apart, and no name with a stem is
that of a function of the built-in providers.

All of this is about the code that comes before the caller's own. What the caller's code
defines comes after it (`functions_unshadowed`).
-/

set_option autoImplicit false

namespace CommandCompletion.Script

/-! ## Functions -/

/-- The name of a function that is defined. -/
def functionName? (head : Head) : Option (List Char) :=
  if head.1 = .function then some head.2 else none

/-- The functions that a text defines, in order. -/
def functionsIn (shell : Shell) (text : List Char) : List (List Char) :=
  (definedIn shell text).filterMap functionName?

/-- The names of the functions of the built-in providers. -/
def builtinFunctionNames : List (List Char) :=
  [Bindings.filesFunction.toList, Bindings.directoriesFunction.toList]

/-- The names of the functions under the stem of a program. In fish a list of all keys and the
tables are functions, too. -/
def ownFunctionNames (shell : Shell) (stem : List Char) : List (List Char) :=
  match shell with
  | .bash | .zsh => (helperNames shell).map (tableName stem) ++ [stem]
  | .fish => (lookUpNames .fish ++ helperNames .fish ++ ["complete"]).map (tableName stem)

theorem functionName?_eq_some_iff {head : Head} {name : List Char} :
    functionName? head = some name ↔ head = (.function, name) := by
  obtain ⟨kind, own⟩ := head
  cases kind with
  | function => simp [functionName?]
  | table => simp [functionName?]

theorem mem_functionsIn_iff {shell : Shell} {text name : List Char} :
    name ∈ functionsIn shell text ↔ (.function, name) ∈ definedIn shell text := by
  simp only [functionsIn, List.mem_filterMap, functionName?_eq_some_iff, exists_eq_right]

theorem Opens.definedIn_append {shell : Shell} {text : List Char} {heads : List Head}
    (opens : Opens shell text heads) (rest : List Char) :
    definedIn shell (text ++ rest) = heads ++ definedIn shell rest := by
  obtain ⟨lines, whole, rfl⟩ := opens
  rw [definedIn, whole, List.filterMap_append, definedIn]

/-! ## Names that differ -/

theorem tableName_injective (stem : List Char) : Function.Injective (tableName stem) := by
  intro name other same
  exact String.toList_inj.mp (List.append_cancel_left same)

/-- A name with something behind the stem is longer than the stem. -/
theorem tableName_ne_stem (stem : List Char) (name : String) : tableName stem name ≠ stem := by
  intro same
  have lengths : (tableName stem name).length = stem.length := congrArg List.length same
  simp [tableName] at lengths

theorem nodup_ownNames (shell : Shell) :
    (lookUpNames shell ++ helperNames shell ++ ["complete"]).Nodup := by
  cases shell <;> decide

/-- Under one stem a script defines nothing twice. -/
theorem nodup_ownHeads (shell : Shell) (stem : List Char) : (ownHeads shell stem).Nodup := by
  have named (kind : Kind) : Function.Injective fun name => (kind, tableName stem name) := by
    intro name other same
    exact tableName_injective stem (congrArg Prod.snd same)
  cases shell with
  | bash | zsh =>
    obtain ⟨names, -, -⟩ := List.nodup_append.mp (nodup_ownNames .bash)
    obtain ⟨tables, helpers, -⟩ := List.nodup_append.mp names
    refine List.nodup_append.mpr ⟨List.nodup_append.mpr ⟨tables.map (named .table),
      helpers.map (named .function), ?_⟩, List.nodup_singleton _, ?_⟩
    · intro head table other function same
      obtain ⟨_, _, rfl⟩ := List.mem_map.mp table
      obtain ⟨_, _, rfl⟩ := List.mem_map.mp function
      cases congrArg Prod.fst same
    · intro head listed other completion same
      cases List.mem_singleton.mp completion
      rcases List.mem_append.mp listed with table | helper
      · obtain ⟨_, _, rfl⟩ := List.mem_map.mp table
        cases congrArg Prod.fst same
      · obtain ⟨name, _, rfl⟩ := List.mem_map.mp helper
        exact tableName_ne_stem stem name (congrArg Prod.snd same)
  | fish =>
    have all : ownHeads .fish stem = (lookUpNames .fish ++ helperNames .fish ++ ["complete"]).map
        fun name => (.function, tableName stem name) := by
      rw [List.map_append, List.map_append]
      rfl
    rw [all]
    exact (nodup_ownNames .fish).map (named .function)

/-- A script of a program defines nothing twice. -/
theorem nodup_heads (shell : Shell) (program : String) :
    (builtinHeads ++ ownHeads shell (Plan.functionStem shell program).toList).Nodup := by
  refine List.nodup_append.mpr ⟨by decide, nodup_ownHeads shell _, ?_⟩
  intro head builtin other own same
  exact own_notMem_builtinHeads own (same ▸ builtin)

/-! ## What names are made of -/

/-- Names in a script are made of letters, digits and underscores of ASCII. -/
theorem isNameCharacter_of_mem_heads {shell : Shell} {program : String} {head : Head}
    (member : head ∈ builtinHeads ++ ownHeads shell (Plan.functionStem shell program).toList) :
    ∀ c ∈ head.2, isNameCharacter c = true := by
  have stem := isNameCharacter_functionStem shell program
  have fixed : (lookUpNames shell ++ helperNames shell ++ ["complete"]).all
      (fun name => name.toList.all isNameCharacter) = true := by
    cases shell <;> decide
  have behind {name : String}
      (listed : name ∈ lookUpNames shell ++ helperNames shell ++ ["complete"]) :
      ∀ c ∈ tableName (Plan.functionStem shell program).toList name, isNameCharacter c = true := by
    intro c inside
    rcases List.mem_append.mp inside with before | own
    · rcases List.mem_append.mp before with inStem | joint
      · exact stem c inStem
      · exact List.mem_singleton.mp joint ▸ rfl
    · exact List.all_eq_true.mp (List.all_eq_true.mp fixed name listed) c own
  rcases List.mem_append.mp member with builtin | own
  · have valid : builtinHeads.all (fun head => head.2.all isNameCharacter) = true := by decide
    exact List.all_eq_true.mp (List.all_eq_true.mp valid head builtin)
  · simp only [ownHeads, List.mem_append, List.mem_map, List.mem_singleton] at own
    rcases own with (⟨name, listed, rfl⟩ | ⟨name, listed, rfl⟩) | rfl
    · have valid := behind (List.mem_append_left _ (List.mem_append_left _ listed))
      cases shell <;> exact valid
    · exact behind (List.mem_append_left _ (List.mem_append_right _ listed))
    · have valid := behind (List.mem_append_right _ (List.mem_singleton.mpr rfl))
      cases shell with
      | bash | zsh => exact stem
      | fish => exact valid

/-! ## The functions of a script -/

theorem filterMap_functions (shell : Shell) (stem : List Char) :
    (builtinHeads ++ ownHeads shell stem).filterMap functionName? =
      builtinFunctionNames ++ ownFunctionNames shell stem := by
  cases shell <;> rfl

/-- **No function of a script shadows another.** The own code of a script comes before the caller's
code and the registration, which defines nothing. It defines the functions of the built-in providers
and those under the stem of the program: no two of them under one name, all under names that a shell
can read, and none under the name of a built-in one, whatever the program is called. -/
theorem functions_unshadowed (index : Index) (description : Description) (shell : Shell)
    (options : ScriptOptions) :
    let plan := Plan.of index shell options.program options.bindings
    let own := ownCode index description shell plan
    let behind := preambleBlock options.preamble ++ registrationText shell plan
    (render index description shell options).toList = own ++ behind ∧
      functionsIn shell (own ++ behind) = functionsIn shell own ++ functionsIn shell behind ∧
      functionsIn shell (registrationText shell plan) = [] ∧
      functionsIn shell own = builtinFunctionNames ++ ownFunctionNames shell plan.function ∧
      (functionsIn shell own).Nodup ∧
      (∀ name ∈ functionsIn shell own, ∀ c ∈ name, isNameCharacter c = true) ∧
      ∀ name ∈ ownFunctionNames shell plan.function, name ∉ builtinFunctionNames := by
  intro plan own behind
  have named := Plan.named_of index shell options.program options.bindings
  have nonempty := functionStem_ne_nil shell (options.program.getD index.root)
  have opens := opens_ownCode index description shell nonempty named rfl
  have heads : definedIn shell own = builtinHeads ++ ownHeads shell plan.function :=
    opens.definedIn_eq
  have functions : functionsIn shell own =
      builtinFunctionNames ++ ownFunctionNames shell plan.function := by
    rw [functionsIn, heads, filterMap_functions]
  have distinct : (functionsIn shell own).Nodup := by
    rw [functionsIn, heads]
    refine (nodup_heads shell (options.program.getD index.root)).filterMap ?_
    intro head other shared found foundToo
    rw [functionName?_eq_some_iff.mp found, functionName?_eq_some_iff.mp foundToo]
  refine ⟨?_, ?_, ?_, functions, distinct, ?_, ?_⟩
  · rw [render_eq_parts, List.append_assoc]
  · rw [functionsIn, opens.definedIn_append, List.filterMap_append, ← heads]
    rfl
  · rw [functionsIn, (opens_registration shell nonempty named).definedIn_eq]
    rfl
  · intro name member
    rw [mem_functionsIn_iff, heads] at member
    exact isNameCharacter_of_mem_heads member
  · intro name ownName builtin
    rw [functions] at distinct
    exact (List.nodup_append.mp distinct).2.2 name builtin name ownName rfl

/-- A program that is called like the end of a built-in function keeps a name apart from it. -/
theorem functions_unshadowed_files : ∃ index, sampleProgram.index = .ok index ∧
    let own := ownCode index .standard .bash
      (Plan.of index .bash (some "_files") Bindings.builtin)
    "_tabgen__files".toList ∈ functionsIn .bash own ∧
      (∀ c ∈ "_tabgen__files".toList, isNameCharacter c = true) ∧
      "_tabgen__files".toList ∉ builtinFunctionNames := by
  obtain ⟨index, built⟩ := sampleProgram_accepted
  obtain ⟨_, _, _, functions, _, valid, apart⟩ :=
    functions_unshadowed index .standard .bash { program := some "_files" }
  have stem : (Plan.of index .bash (some "_files") Bindings.builtin).function =
      "_tabgen__files".toList := by
    simp only [Plan.of, Option.getD_some]
    decide
  dsimp only at functions valid apart
  rw [stem] at functions apart
  have completion : "_tabgen__files".toList ∈ ownFunctionNames .bash "_tabgen__files".toList :=
    List.mem_append_right _ (List.mem_singleton.mpr rfl)
  have listed := List.mem_append_right builtinFunctionNames completion
  rw [← functions] at listed
  exact ⟨index, built, listed, valid _ listed, apart _ completion⟩

end CommandCompletion.Script
