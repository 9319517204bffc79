import CommandCompletion.Files
import CommandCompletion.Proofs.Index.Checks
import CommandCompletion.Proofs.Text.ByteOrder

/-!
# Writing to a file tree

A text that could be written to a path stands at the place that the path leads to, and
every other place is as it was (`FileTree.written_of_write`). The path still leads to that
place: its names lead through directories, and none of them has been written to
(`FileTree.locate_congr`). So the text is read back from the path.
-/

set_option autoImplicit false

namespace CommandCompletion.FileTree

variable {tree changed : FileTree} {path text : String}

/-! ## Entries -/

theorem lookup_setEntry (place other : List String) (entry : FileEntry)
    (entries : List (List String × FileEntry)) :
    (setEntry place entry entries).lookup other =
      if other = place then some entry else entries.lookup other := by
  induction entries with
  | nil =>
    by_cases here : other = place
    · subst here
      simp [setEntry]
    · simp [setEntry, List.lookup_cons, here, beq_eq_false_iff_ne.mpr here]
  | cons first rest ih =>
    obtain ⟨firstPlace, firstEntry⟩ := first
    rw [setEntry]
    by_cases replaced : firstPlace = place
    · subst replaced
      by_cases here : other = firstPlace
      · subst here
        simp
      · simp [List.lookup_cons, here, beq_eq_false_iff_ne.mpr here]
    · by_cases here : other = firstPlace
      · subst here
        simp [replaced]
      · simp [List.lookup_cons, replaced, beq_eq_false_iff_ne.mpr here, ih]

/-! ## Where a path leads -/

/-- A path without a slash at its end is not cut. -/
theorem trimmed_eq_self (plain : Path.endsInSlash path = false) :
    String.ofList (path.toList.reverse.dropWhile (· == '/')).reverse = path := by
  have stays : path.toList.reverse.dropWhile (· == '/') = path.toList.reverse := by
    rw [Path.endsInSlash, ← List.head?_reverse] at plain
    cases backwards : path.toList.reverse with
    | nil => rfl
    | cons last rest =>
      rw [backwards] at plain
      have other : (last == '/') = false := by simpa using plain
      rw [List.dropWhile_cons_of_neg (by simp [other])]
  rw [stays, List.reverse_reverse, String.ofList_toList]

theorem enter_congr {place : List String} (same : changed.entryAt place = tree.entryAt place)
    (name : String) : changed.enter place name = tree.enter place name := by
  rw [enter, enter, same]

/-- Only a directory can be entered. -/
theorem directory_of_enter {place further : List String} {name : String}
    (entered : tree.enter place name = .ok further) : tree.entryAt place = some .directory := by
  rw [enter] at entered
  split at entered
  · cases entered
  · cases entered
  · assumption

/-- Names lead where they led if every directory stays one. -/
theorem follow_congr (stays : ∀ place, tree.entryAt place = some .directory →
    changed.entryAt place = some .directory) {names : List String} {place reached : List String}
    (led : tree.follow place names = .ok reached) : changed.follow place names = .ok reached := by
  induction names generalizing place with
  | nil => exact led
  | cons name rest ih =>
    rw [follow] at led ⊢
    cases entered : tree.enter place name with
    | error fault =>
      rw [entered] at led
      cases led
    | ok further =>
      have stands := directory_of_enter entered
      rw [entered] at led
      rw [enter_congr ((stays place stands).trans stands.symm), entered]
      exact ih led

theorem locate_congr (stays : ∀ place, tree.entryAt place = some .directory →
    changed.entryAt place = some .directory) (working : changed.working = tree.working)
    {place : List String} (led : tree.locate path = .ok place) :
    changed.locate path = .ok place := by
  rw [locate] at led ⊢
  split at led
  · cases led
  · split at led
    · cases led
    · rename_i given usable
      rw [if_neg given, if_neg usable, working]
      exact follow_congr stays led

/-! ## Reading back -/

/-- A text is read from the file that holds its bytes. -/
theorem read_of_file {place : List String} (led : tree.locate path = .ok place)
    (stands : tree.entryAt place = some (.file text.toUTF8)) : tree.read path = .ok text := by
  refine bind_eq_ok_iff.mpr ⟨place, led, ?_⟩
  simp only [stands, Text.fromUTF8?_toUTF8]

/-! ## Writing -/

/-- A tree after a text was written to a path: the text stands where the path leads, every other
place is as it was, and the text is read back from the path. -/
structure Written (tree : FileTree) (path text : String) (changed : FileTree) : Prop where
  stands : ∃ place, tree.locate path = .ok place ∧
    changed.entryAt place = some (.file text.toUTF8) ∧
    ∀ other, other ≠ place → changed.entryAt other = tree.entryAt other
  working : changed.working = tree.working
  home : changed.home = tree.home
  back : changed.read path = .ok text

/-- A text is written where the path leads, and only if no directory stands there. -/
theorem write_ok (done : tree.write path text = .ok changed) :
    ∃ place, tree.locate path = .ok place ∧ tree.entryAt place ≠ some .directory ∧
      changed = { tree with entries := setEntry place (.file text.toUTF8) tree.entries } := by
  obtain ⟨place, led, done⟩ := bind_eq_ok_iff.mp done
  cases plain : Path.endsInSlash path with
  | true =>
    rw [plain, if_pos rfl] at done
    cases done
  | false =>
    rw [trimmed_eq_self plain, ite_self] at led
    rw [plain, if_neg Bool.false_ne_true] at done
    split at done
    · cases done
    · next free =>
      exact ⟨place, led, free, (Except.ok.inj done).symm⟩

/-- **What is written to a path stands there, and nothing else changes.** -/
theorem written_of_write (done : tree.write path text = .ok changed) :
    Written tree path text changed := by
  obtain ⟨place, led, free, made⟩ := write_ok done
  have inside : place ≠ [] := by
    intro root
    subst root
    exact free rfl
  have target : changed.entryAt place = some (.file text.toUTF8) := by
    rw [made, entryAt, if_neg (by simpa using inside), lookup_setEntry, if_pos rfl]
  have elsewhere : ∀ other, other ≠ place → changed.entryAt other = tree.entryAt other := by
    intro other apart
    rw [made, entryAt, entryAt, lookup_setEntry, if_neg apart]
  have stays : ∀ other, tree.entryAt other = some .directory →
      changed.entryAt other = some .directory := by
    intro other stands
    rw [elsewhere other fun same => free (same ▸ stands), stands]
  have working : changed.working = tree.working := by rw [made]
  have home : changed.home = tree.home := by rw [made]
  exact ⟨⟨place, led, target, elsewhere⟩, working, home,
    read_of_file (locate_congr stays working led) target⟩

end CommandCompletion.FileTree
