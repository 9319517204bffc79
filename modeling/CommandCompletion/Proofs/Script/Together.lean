import CommandCompletion.Proofs.Script.Heads
import CommandCompletion.Proofs.Index.Content

/-!
# Scripts of different programs in one session

Two scripts can be read into one session if they define nothing together but the functions of
the built-in providers. The names that a script defines are the stem of its program with an
underscore and a name of their own behind it, and in bash and zsh the bare stem, which is the
name of the completion function there.

The names behind the stem hold no underscore, so two such names are equal only if their stems
are. Tables of different programs therefore never meet. Functions meet in bash and zsh if the
name of one program is that of the other with an underscore and the name of a helper function
behind it, as `git_match` is that of `git`: the completion function of the one has the name of
a helper function of the other (`Clash`). Where this is not the case, and in fish always, each
program keeps in the session all that its own script defined (`scripts_apart_iff`).
-/

set_option autoImplicit false

namespace CommandCompletion.Script

/-! ## Names behind a stem -/

theorem stem_eq_of_tableName_eq {stem other : List Char} {name further : String}
    (free : '_' ∉ name.toList) (freeToo : '_' ∉ further.toList)
    (same : tableName stem name = tableName other further) : stem = other := by
  -- If one stem went on behind the other, an underscore would stand in the name behind it.
  have longer {added : List Char} {name further : String} (free : '_' ∉ name.toList)
      (behind : '_' :: name.toList = added ++ '_' :: further.toList) : added = [] := by
    cases added with
    | nil => rfl
    | cons c added =>
      have tail : name.toList = added ++ '_' :: further.toList := (List.cons.inj behind).2
      exact absurd (tail ▸ List.mem_append_right added List.mem_cons_self) free
  have same : stem ++ '_' :: name.toList = other ++ '_' :: further.toList := by
    simpa [tableName] using same
  rcases List.append_eq_append_iff.mp same with ⟨added, rfl, behind⟩ | ⟨added, rfl, behind⟩
  · rw [longer free behind, List.append_nil]
  · rw [longer freeToo behind, List.append_nil]

/-- The stem is the name of the program behind a word of the shell. -/
theorem exists_functionStem (shell : Shell) : ∃ word : List Char, ∀ program,
    (Plan.functionStem shell program).toList = word ++ (sanitize program).toList := by
  cases shell with
  | bash | zsh => exact ⟨"_tabgen_".toList, fun program => String.toList_append⟩
  | fish => exact ⟨"__tabgen_".toList, fun program => String.toList_append⟩

theorem underscore_notMem (shell : Shell) :
    ∀ name ∈ lookUpNames shell ++ helperNames shell ++ ["complete"], '_' ∉ name.toList := by
  have all : (lookUpNames shell ++ helperNames shell ++ ["complete"]).all
      (fun name => !name.toList.contains '_') = true := by
    cases shell <;> decide
  intro name member inside
  simpa [inside] using List.all_eq_true.mp all name member

/-- What is defined under a stem has a name behind the stem, or is the completion function. -/
theorem own_cases {shell : Shell} {stem : List Char} {head : Head}
    (own : head ∈ ownHeads shell stem) :
    (∃ name : String, '_' ∉ name.toList ∧ head.2 = tableName stem name ∧
      (shell ≠ .fish → head.1 = .function → name ∈ helperNames shell)) ∨
    (shell ≠ .fish ∧ head = (.function, stem)) := by
  have free := underscore_notMem shell
  simp only [List.mem_append, List.mem_singleton] at free
  simp only [ownHeads, List.mem_append, List.mem_map, List.mem_singleton] at own
  rcases own with (⟨name, listed, rfl⟩ | ⟨name, listed, rfl⟩) | rfl
  · refine .inl ⟨name, free name (.inl (.inl listed)), ?_, fun posix function => ?_⟩
    · cases shell <;> rfl
    · cases shell with
      | bash | zsh => cases function
      | fish => exact absurd rfl posix
  · exact .inl ⟨name, free name (.inl (.inr listed)), rfl, fun _ _ => listed⟩
  · cases shell with
    | bash | zsh => exact .inr ⟨by decide, rfl⟩
    | fish => exact .inl ⟨"complete", free _ (.inr rfl), rfl, fun posix => absurd rfl posix⟩

/-- Under the stem of a program no function of a built-in provider is defined. -/
theorem own_notMem_builtinHeads {shell : Shell} {program : String} {head : Head}
    (own : head ∈ ownHeads shell (Plan.functionStem shell program).toList) :
    head ∉ builtinHeads := by
  intro builtin
  obtain ⟨name, free, spelled⟩ : ∃ name : String, '_' ∉ name.toList ∧
      head = (.function, tableName "__tabgen".toList name) := by
    rcases List.mem_pair.mp builtin with rfl | rfl
    · exact ⟨"files", by decide, rfl⟩
    · exact ⟨"dirs", by decide, rfl⟩
  -- The built-in functions begin with two underscores, as names do in fish only, and there another
  -- underscore stands behind the word.
  rcases own_cases own with ⟨further, freeToo, named, _⟩ | ⟨posix, bare⟩
  · have stem := stem_eq_of_tableName_eq freeToo free (named.symm.trans (congrArg Prod.snd spelled))
    cases shell <;> simp [Plan.functionStem] at stem
  · have stem : (Plan.functionStem shell program).toList = tableName "__tabgen".toList name :=
      congrArg Prod.snd (bare.symm.trans spelled)
    cases shell with
    | bash | zsh => simp [Plan.functionStem, tableName] at stem
    | fish => exact absurd rfl posix

/-! ## Programs that clash -/

/-- The name of one program is that of the other with the name of a helper function behind it, and
the completion functions have bare stems as names. -/
def Clash (shell : Shell) (first second : String) : Prop :=
  shell ≠ .fish ∧ ∃ name ∈ helperNames shell,
    first = second ++ "_" ++ name ∨ second = first ++ "_" ++ name

instance (shell : Shell) (first second : String) : Decidable (Clash shell first second) :=
  inferInstanceAs (Decidable (_ ∧ ∃ name ∈ helperNames shell, _))

/-- Stems of which one is the other with the name of a helper function behind it are those of
programs that clash. -/
theorem clash_iff {shell : Shell} (posix : shell ≠ .fish) {first second : String} :
    Clash shell (sanitize first) (sanitize second) ↔ ∃ name ∈ helperNames shell,
      (Plan.functionStem shell first).toList =
          tableName (Plan.functionStem shell second).toList name ∨
        (Plan.functionStem shell second).toList =
          tableName (Plan.functionStem shell first).toList name := by
  obtain ⟨word, split⟩ := exists_functionStem shell
  have behind (one two : String) (name : String) :
      one = two ++ "_" ++ name ↔ word ++ one.toList = tableName (word ++ two.toList) name := by
    rw [← String.toList_inj, tableName]
    simp
  simp only [Clash, posix, ne_eq, not_false_eq_true, true_and, split, behind]

theorem functionStem_ne {shell : Shell} {first second : String}
    (differ : sanitize first ≠ sanitize second) :
    (Plan.functionStem shell first).toList ≠ (Plan.functionStem shell second).toList := by
  obtain ⟨word, split⟩ := exists_functionStem shell
  rw [split, split]
  intro same
  exact differ (String.toList_inj.mp (List.append_cancel_left same))

/-- What is defined under two stems is the completion function of the one and a helper function of
the other. -/
theorem shared_own {shell : Shell} {stem other : List Char} (differ : stem ≠ other) {head : Head}
    (own : head ∈ ownHeads shell stem) (ownToo : head ∈ ownHeads shell other) :
    shell ≠ .fish ∧ head.1 = .function ∧
      ∃ name ∈ helperNames shell, stem = tableName other name ∨ other = tableName stem name := by
  rcases own_cases own with ⟨name, free, named, helper⟩ | ⟨posix, rfl⟩
  · rcases own_cases ownToo with ⟨further, freeToo, namedToo, _⟩ | ⟨posix, rfl⟩
    · exact absurd (stem_eq_of_tableName_eq free freeToo (named.symm.trans namedToo)) differ
    · exact ⟨posix, rfl, name, helper posix rfl, .inr named⟩
  · rcases own_cases ownToo with ⟨further, freeToo, namedToo, helper⟩ | ⟨_, same⟩
    · exact ⟨posix, rfl, further, helper posix rfl, .inl namedToo⟩
    · exact absurd (congrArg Prod.snd same) differ

/-- The completion function of a program whose stem is that of another with the name of a helper
function behind it is defined under both stems. -/
theorem own_of_helper {shell : Shell} (posix : shell ≠ .fish) (stem : List Char) {name : String}
    (helper : name ∈ helperNames shell) :
    (Kind.function, tableName stem name) ∈ ownHeads shell stem ∧
      (Kind.function, tableName stem name) ∈ ownHeads shell (tableName stem name) := by
  have bare : completionName shell (tableName stem name) = tableName stem name := by
    cases shell with
    | bash | zsh => rfl
    | fish => exact absurd rfl posix
  refine ⟨?_, ?_⟩
  · simp only [ownHeads, List.mem_append, List.mem_map]
    exact .inl (.inr ⟨name, helper, rfl⟩)
  · simp [ownHeads, bare]

/-! ## Scripts in one session -/

/-- Two texts define nothing of a kind together but the functions of the built-in providers. -/
def Apart (shell : Shell) (kind : Kind) (first second : List Char) : Prop :=
  ∀ name, (kind, name) ∉ builtinHeads → (kind, name) ∈ definedIn shell first →
    (kind, name) ∉ definedIn shell second

/-- A session has what a text defines as it is defined there, but for the functions of the built-in
providers. -/
def Session.Keeps (session : Session) (shell : Shell) (text : List Char) : Prop :=
  ∀ head ∈ definedIn shell text, head ∉ builtinHeads →
    session head = Session.empty.source shell text head

/-- A text keeps what it defines if the texts behind it define nothing of it. -/
theorem Session.keeps_source (session : Session) {shell : Shell} {first second : List Char}
    (apart : ∀ kind, Apart shell kind first second) :
    ((session.source shell first).source shell second).Keeps shell first ∧
      ((session.source shell first).source shell second).Keeps shell second := by
  refine ⟨fun head own other => ?_, fun head own _ => source_of_mem _ own⟩
  rw [source_of_notMem (apart head.1 head.2 other own)]
  exact source_of_mem session own

/-- What a script is made from, without code of the caller's own. -/
structure Completed where
  index : Index
  description : Description
  options : ScriptOptions
  plain : options.preamble = none

namespace Completed

/-- The name of the program. -/
def program (made : Completed) : String :=
  made.options.program.getD made.index.root

/-- The text of the script. -/
def script (made : Completed) (shell : Shell) : List Char :=
  (render made.index made.description shell made.options).toList

theorem mem_definedIn_iff (made : Completed) (shell : Shell) {head : Head} :
    head ∈ definedIn shell (made.script shell) ↔ head ∈ builtinHeads ∨
      head ∈ ownHeads shell (Plan.functionStem shell made.program).toList := by
  rw [script, definedIn_render made.index made.description shell made.plain, List.mem_append]
  rfl

variable {shell : Shell} {first second : Completed}

/-- What two scripts define together shows that the programs clash. -/
theorem clash_of_shared (differ : sanitize first.program ≠ sanitize second.program) {head : Head}
    (fixed : head ∉ builtinHeads) (own : head ∈ definedIn shell (first.script shell))
    (ownToo : head ∈ definedIn shell (second.script shell)) :
    head.1 = .function ∧ Clash shell (sanitize first.program) (sanitize second.program) := by
  have own := ((first.mem_definedIn_iff shell).mp own).resolve_left fixed
  have ownToo := ((second.mem_definedIn_iff shell).mp ownToo).resolve_left fixed
  obtain ⟨posix, function, behind⟩ := shared_own (functionStem_ne differ) own ownToo
  exact ⟨function, (clash_iff posix).mpr behind⟩

/-- Programs that clash share a function. -/
theorem shared_of_clash (clash : Clash shell (sanitize first.program) (sanitize second.program)) :
    ∃ name, (Kind.function, name) ∉ builtinHeads ∧
      (Kind.function, name) ∈ definedIn shell (first.script shell) ∧
      (Kind.function, name) ∈ definedIn shell (second.script shell) := by
  obtain ⟨name, helper, behind⟩ := (clash_iff clash.1).mp clash
  rcases behind with longer | longer
  · obtain ⟨helps, completes⟩ :=
      own_of_helper clash.1 (Plan.functionStem shell second.program).toList helper
    rw [← longer] at helps completes
    exact ⟨_, own_notMem_builtinHeads helps, (first.mem_definedIn_iff shell).mpr (.inr completes),
      (second.mem_definedIn_iff shell).mpr (.inr helps)⟩
  · obtain ⟨helps, completes⟩ :=
      own_of_helper clash.1 (Plan.functionStem shell first.program).toList helper
    rw [← longer] at helps completes
    exact ⟨_, own_notMem_builtinHeads helps, (first.mem_definedIn_iff shell).mpr (.inr helps),
      (second.mem_definedIn_iff shell).mpr (.inr completes)⟩

end Completed

/-- **Scripts of different programs.** Two scripts of programs that differ, written as names are in
shells, define no table together, and no function but those of the built-in providers unless the
programs clash. Then both can be read into any session, and what either of them defined stays as it
is defined there. -/
theorem scripts_apart_iff (shell : Shell) (first second : Completed)
    (differ : sanitize first.program ≠ sanitize second.program) :
    Apart shell .table (first.script shell) (second.script shell) ∧
      (Apart shell .function (first.script shell) (second.script shell) ↔
        ¬Clash shell (sanitize first.program) (sanitize second.program)) ∧
      (¬Clash shell (sanitize first.program) (sanitize second.program) →
        ∀ session : Session,
          let both := (session.source shell (first.script shell)).source shell (second.script shell)
          both.Keeps shell (first.script shell) ∧ both.Keeps shell (second.script shell)) := by
  have tables : Apart shell .table (first.script shell) (second.script shell) := by
    intro name fixed own ownToo
    cases (Completed.clash_of_shared differ fixed own ownToo).1
  have functions : Apart shell .function (first.script shell) (second.script shell) ↔
      ¬Clash shell (sanitize first.program) (sanitize second.program) := by
    constructor
    · intro apart clash
      obtain ⟨name, fixed, own, ownToo⟩ := Completed.shared_of_clash clash
      exact apart name fixed own ownToo
    · intro free name fixed own ownToo
      exact free (Completed.clash_of_shared differ fixed own ownToo).2
  refine ⟨tables, functions, fun free session => session.keeps_source fun kind => ?_⟩
  cases kind with
  | table => exact tables
  | function => exact functions.mpr free

theorem scripts_apart_iff_git_cargo : ∃ index, sampleProgram.index = .ok index ∧
    ∀ session : Session,
      let git : Completed := ⟨index, .standard, { program := some "git" }, rfl⟩
      let cargo : Completed := ⟨index, .standard, { program := some "cargo" }, rfl⟩
      let both := (session.source .zsh (git.script .zsh)).source .zsh (cargo.script .zsh)
      both.Keeps .zsh (git.script .zsh) ∧ both.Keeps .zsh (cargo.script .zsh) := by
  obtain ⟨index, built⟩ := sampleProgram_accepted
  have differ : sanitize "git" ≠ sanitize "cargo" := by decide
  have free : ¬Clash .zsh (sanitize "git") (sanitize "cargo") := by decide
  obtain ⟨_, _, kept⟩ := scripts_apart_iff .zsh ⟨index, .standard, { program := some "git" }, rfl⟩
    ⟨index, .standard, { program := some "cargo" }, rfl⟩ differ
  exact ⟨index, built, kept free⟩

/-- In bash the completion function of `git_match` has the name of a helper function of `git`. -/
theorem git_match_not_apart : ∃ index, sampleProgram.index = .ok index ∧
    sanitize "git" ≠ sanitize "git_match" ∧
    ¬Apart .bash .function
      (render index .standard .bash { program := some "git" }).toList
      (render index .standard .bash { program := some "git_match" }).toList := by
  obtain ⟨index, built⟩ := sampleProgram_accepted
  refine ⟨index, built, by decide, fun apart => ?_⟩
  -- A helper function of the one, and the completion function of the other.
  have helps : (Kind.function, "_tabgen_git_match".toList) ∈
      definedIn .bash (render index .standard .bash { program := some "git" }).toList := by
    rw [definedIn_render index .standard .bash rfl, Option.getD_some]
    decide
  have completes : (Kind.function, "_tabgen_git_match".toList) ∈
      definedIn .bash (render index .standard .bash { program := some "git_match" }).toList := by
    rw [definedIn_render index .standard .bash rfl, Option.getD_some]
    decide
  exact apart _ (by decide) helps completes

end CommandCompletion.Script
