import CommandCompletion.Proofs.Script.Bindings
import CommandCompletion.Settings

/-!
# Bindings that settings make

Settings bind functions of the user's own to providers, shell by shell. What has no such
function keeps the built-in one, if there is one (`Settings.resolve_bindings`).

The check goes through all functions of the user, so settings that pass it bind usable names
only (`Settings.check_eq_ok_iff`). The built-in names are usable too. So whatever a provider
resolves to under settings that pass is usable (`Settings.isUsable_of_resolve`), and stands on
a line of its own in a script.
-/

set_option autoImplicit false

namespace CommandCompletion

theorem Shell.mem_all (shell : Shell) : shell ∈ Shell.all := by
  cases shell <;> decide

/-- Bindings made one after the other: the last one for a provider and a shell counts. -/
theorem Bindings.resolve_foldl_bind (functions : List (String × Shell × String))
    (bindings : Bindings) (provider : String) (shell : Shell) :
    (functions.foldl (fun bindings (provider, shell, function) =>
        Bindings.bind bindings provider shell function) bindings).resolve provider shell =
      ((functions.reverse.find? fun (other, otherShell, _) =>
        provider = other ∧ shell = otherShell).map (·.2.2)).or
          (bindings.resolve provider shell) := by
  induction functions generalizing bindings with
  | nil => rfl
  | cons first rest ih =>
    obtain ⟨other, otherShell, function⟩ := first
    rw [List.foldl_cons, ih, Bindings.resolve_bind, List.reverse_cons, List.find?_append,
      Option.map_or, Option.or_assoc]
    by_cases same : provider = other ∧ shell = otherShell
    · simp [same]
    · simp [same]

namespace Settings

variable {settings : Settings} {provider : String} {shell : Shell} {function : String}

/-! ## The functions of the user -/

theorem mem_functions_iff : (provider, shell, function) ∈ settings.functions ↔
    Bindings.resolve settings.providers provider shell = some function := by
  simp only [functions, List.mem_flatMap, List.mem_filterMap, Option.map_eq_some_iff,
    Bindings.resolve, Option.bind_eq_some_iff]
  constructor
  · rintro ⟨⟨_, functions⟩, member, _, _, _, found, same⟩
    cases same
    exact ⟨functions, (Table.lookup_eq_some_iff_mem settings.providers.nodup_keys).mpr member, found⟩
  · rintro ⟨functions, given, found⟩
    refine ⟨(provider, functions), ?_, shell, shell.mem_all, function, found, rfl⟩
    exact (Table.lookup_eq_some_iff_mem settings.providers.nodup_keys).mp given

theorem isUsable_iff :
    isUsable function = true ↔ function ≠ "" ∧ ∀ c ∈ function.toList, Text.isBlank c = false := by
  simp [isUsable]

/-- Settings pass the check if every function of the user is usable. -/
theorem check_eq_ok_iff : settings.check = .ok () ↔ ∀ provider shell function,
    Bindings.resolve settings.providers provider shell = some function →
      isUsable function = true := by
  constructor
  · intro accepted provider shell function given
    rw [check] at accepted
    split at accepted
    · cases accepted
    · next none =>
      have passed := List.find?_eq_none.mp none _ (mem_functions_iff.mpr given)
      simpa using passed
  · intro usable
    have none : settings.functions.find? (fun (_, _, function) => !isUsable function) = none := by
      refine List.find?_eq_none.mpr ?_
      rintro ⟨provider, shell, function⟩ member
      simp [usable provider shell function (mem_functions_iff.mp member)]
    rw [check, none]

/-- Only the bindings of the user are checked. -/
theorem check_congr {other : Settings} (same : settings.providers = other.providers) :
    settings.check = other.check := by
  rw [check, check, functions, functions, same]

/-! ## All bindings -/

/-- A function of the user's own comes first, then the built-in one. -/
theorem resolve_bindings (settings : Settings) (provider : String) (shell : Shell) :
    settings.bindings.resolve provider shell =
      (Bindings.resolve settings.providers provider shell).or
        (Bindings.builtin.resolve provider shell) := by
  rw [bindings, Bindings.resolve_foldl_bind]
  congr 1
  cases given : Bindings.resolve settings.providers provider shell with
  | none =>
    rw [Option.map_eq_none_iff, List.find?_eq_none]
    rintro ⟨other, otherShell, function⟩ member
    have bound := mem_functions_iff.mp (List.mem_reverse.mp member)
    simp only [decide_eq_true_eq]
    rintro ⟨rfl, rfl⟩
    rw [given] at bound
    cases bound
  | some function =>
    rw [Option.map_eq_some_iff]
    have listed := List.mem_reverse.mpr (mem_functions_iff.mpr given)
    cases found : settings.functions.reverse.find? fun (other, otherShell, _) =>
        provider = other ∧ shell = otherShell with
    | none => exact absurd (List.find?_eq_none.mp found _ listed) (by simp)
    | some entry =>
      obtain ⟨other, otherShell, bound⟩ := entry
      have same := List.find?_some found
      simp only [decide_eq_true_eq] at same
      obtain ⟨rfl, rfl⟩ := same
      have member := mem_functions_iff.mp (List.mem_reverse.mp (List.mem_of_find?_eq_some found))
      exact ⟨_, rfl, Option.some.inj (member.symm.trans given)⟩

theorem isUsable_of_resolve_builtin
    (resolved : Bindings.builtin.resolve provider shell = some function) :
    isUsable function = true := by
  have all : ∀ entry ∈ Bindings.builtin.entries, ∀ shell ∈ Shell.all,
      (entry.2.get? shell).all isUsable = true := by
    decide +kernel
  obtain ⟨functions, given, found⟩ := Option.bind_eq_some_iff.mp resolved
  have member := (Table.lookup_eq_some_iff_mem Bindings.builtin.nodup_keys).mp given
  have usable := all _ member shell shell.mem_all
  rwa [found, Option.all_some] at usable

/-- Under settings that pass the check every function is usable. -/
theorem isUsable_of_resolve (accepted : settings.check = .ok ())
    (resolved : settings.bindings.resolve provider shell = some function) :
    isUsable function = true := by
  rw [resolve_bindings, Option.or_eq_some_iff] at resolved
  rcases resolved with own | ⟨_, builtin⟩
  · exact check_eq_ok_iff.mp accepted provider shell function own
  · exact isUsable_of_resolve_builtin builtin

/-- A usable name stands on one line. -/
theorem oneLine_of_isUsable (usable : isUsable function = true) : Script.OneLine function := by
  obtain ⟨nonempty, unblank⟩ := isUsable_iff.mp usable
  refine ⟨nonempty, fun newline => ?_⟩
  cases unblank '\n' newline

end Settings

end CommandCompletion
