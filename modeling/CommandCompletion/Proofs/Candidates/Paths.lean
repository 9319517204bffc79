import CommandCompletion.Proofs.Candidates.Collecting
import CommandCompletion.Proofs.Index.Content
import CommandCompletion.Proofs.Text.ByteOrder
import Mathlib.Data.String.Basic

/-!
# Paths as candidates

A word that is completed as a path consists of a directory, up to its last slash, and a name. The
provider lists the directory and keeps it in front of every entry; the name only tells it whether
hidden entries are wanted. Which entries begin with the name is left to the engine.

Put together, the two leave exactly the entries that begin with the name, the hidden ones only if
the name is hidden itself (`path_candidates`). The test of the provider leaves out nothing else that
the engine would have offered: an entry that begins with a hidden name is hidden.
-/

set_option autoImplicit false

namespace CommandCompletion

/-! ## Words that are cut after their last slash -/

namespace Path

/-- The directory that the first part of a word names: the base if it is empty, itself if it is
absolute, and otherwise the place below the base. -/
def named (base directory : String) : String :=
  if directory = "" then base else if isAbsolute directory then directory else join base directory

/-- A word is cut after its last slash if the first part is empty or ends in a slash, and the
second part has none. -/
theorem splitLast_append {directory name : String}
    (cut : directory = "" ∨ endsInSlash directory = true) (bare : '/' ∉ name.toList) :
    splitLast (directory ++ name) = (directory, name) := by
  have nameOnly : ((directory ++ name).toList.reverse.takeWhile (· != '/')).reverse =
      name.toList := by
    have passes : ∀ c ∈ name.toList.reverse, (c != '/') = true := by
      intro c member
      exact bne_iff_ne.mpr fun same => bare (same ▸ List.mem_reverse.mp member)
    have stops : directory.toList.reverse.takeWhile (· != '/') = [] := by
      rcases cut with rfl | slash
      · rfl
      · rw [endsInSlash, ← List.head?_reverse] at slash
        cases backwards : directory.toList.reverse with
        | nil => rfl
        | cons last rest =>
          rw [backwards] at slash
          simpa [List.takeWhile_cons] using slash
    rw [String.toList_append, List.reverse_append, List.takeWhile_append_of_pos passes, stops,
      List.append_nil, List.reverse_reverse]
  rw [splitLast, nameOnly]
  simp

end Path

theorem DirectoryEntry.ne_empty_of_name? {entry : DirectoryEntry} {own : String}
    (spelled : entry.name? = some own) : own ≠ "" := by
  rintro rfl
  rw [name?, String.fromUTF8?] at spelled
  split at spelled
  · have noBytes : entry.bytes = .empty := congrArg String.toByteArray (Option.some.inj spelled)
    exact absurd entry.named (by rw [noBytes]; exact Nat.lt_irrefl 0)
  · cases spelled

namespace Provider

variable {list : Lister} {base directory name : String} {directoriesOnly : Bool}

theorem listedDirectory_append (cut : directory = "" ∨ Path.endsInSlash directory = true)
    (bare : '/' ∉ name.toList) :
    listedDirectory base (directory ++ name) = Path.named base directory := by
  rw [listedDirectory, Path.splitLast_append cut bare, Path.named]
  by_cases absolute : Path.isAbsolute directory = true <;> simp [Path.join, absolute]

/-- What the provider answers for a word that is cut after its last slash. -/
theorem paths_append (list : Lister) (base : String) (directoriesOnly : Bool)
    (cut : directory = "" ∨ Path.endsInSlash directory = true) (bare : '/' ∉ name.toList) :
    paths list base directoriesOnly (directory ++ name) =
      (list (Path.named base directory)).map fun entries =>
        (entries.filterMap (path? directoriesOnly directory name)).mergeSort
          (fun first second => first ≤ second) := by
  rw [paths, Path.splitLast_append cut bare, listedDirectory_append cut bare]
  cases list (Path.named base directory) with
  | error fault => rfl
  | ok entries => rfl

theorem path?_eq_some_iff {entry : DirectoryEntry} {value : String} :
    path? directoriesOnly directory name entry = some value ↔
      ∃ own, entry.name? = some own ∧ hiddenLike name own = true ∧
        (directoriesOnly = true → entry.isDirectory = true) ∧ directory ++ own = value := by
  rw [path?, Option.bind_eq_some_iff]
  refine exists_congr fun own => and_congr_right fun _ => ?_
  rw [Option.ite_none_right_eq_some, Bool.and_eq_true, and_assoc]
  cases directoriesOnly <;> simp

end Provider

/-- The built-in providers of paths and of directories. -/
theorem Registry.get?_builtin (list : Lister) (base : String) (directoriesOnly : Bool) :
    (Registry.builtin list base).get?
        (if directoriesOnly then directoryCompleter else fileCompleter) =
      some (Provider.paths list base directoriesOnly) := by
  have apart : fileCompleter ≠ directoryCompleter := by decide
  cases directoriesOnly <;> simp [Registry.builtin, Table.get?_insert, apart]

/-! ## Candidates -/

variable {index : Index} {registry : Registry} {typed : List String} {word : String}

/-- If only the provider of the slot has something to give, its answer is all that is drawn on. -/
theorem complete_of_provider {node key : String} {subcommands : Bool} {provider : Provider}
    (context : (WalkState.run index .standard typed).context index .standard word =
      .slot node key subcommands word)
    (noSubcommands : subcommands = true → index.subcommands node = [])
    (noChoices : index.choices node key = [])
    (bound : (index.provider node key).bind registry.get? = some provider) :
    complete index .standard registry typed word =
      (((provider word).toOption.getD []).filter
        (Description.offers .standard word)).eraseDups := by
  have nothing : (if subcommands then index.subcommands node else []) = [] := by
    cases subcommands with
    | false => rfl
    | true => exact noSubcommands rfl
  have answers : registry.answer (index.provider node key) word =
      (provider word).toOption.getD [] := by
    rw [Registry.answer, bound, Option.bind_some]
  rw [complete, context, Context.candidates_eq_drawn]
  simp only [Context.drawn, Description.standard, List.flatMap_cons, List.flatMap_nil, nothing,
    noChoices, answers, List.nil_append, List.append_nil]
  rfl

theorem offers_path_iff {directory name own : String} (named : own ≠ "") :
    Description.offers .standard (directory ++ name) (directory ++ own) = true ↔
      Text.startsWith own name = true := by
  rw [Description.offers_iff, ← Text.startsWith_append_left directory own name]
  simp [Description.standard, Description.accepts, named]

/-- An entry that begins with the name is left out by the provider only if it is hidden and the
name is not. -/
theorem Provider.hiddenLike_eq_false_iff {name own : String}
    (begins : Text.startsWith own name = true) :
    hiddenLike name own = false ↔
      Text.startsWith own "." = true ∧ Text.startsWith name "." = false := by
  have hidden : Text.startsWith name "." = true → Text.startsWith own "." = true :=
    Text.startsWith_trans begins
  rw [hiddenLike]
  cases wanted : Text.startsWith name "." with
  | true => simp [hidden wanted]
  | false => simp

/-- The paths that a directory has for a name: those of the entries whose names are texts that begin
with the name, of the hidden ones only if the name is hidden itself, and of directories only if
nothing else is wanted. -/
def PathOf (entries : List DirectoryEntry) (directoriesOnly : Bool) (directory name value : String) :
    Prop :=
  ∃ entry ∈ entries, ∃ own, entry.name? = some own ∧ Text.startsWith own name = true ∧
    (Text.startsWith own "." = true → Text.startsWith name "." = true) ∧
    (directoriesOnly = true → entry.isDirectory = true) ∧ value = directory ++ own

/-- What is left of the answer of the provider when it is filtered for the word. -/
theorem mem_offered_paths_iff {entries : List DirectoryEntry} {directoriesOnly : Bool}
    {directory name value : String} :
    value ∈ ((entries.filterMap (Provider.path? directoriesOnly directory name)).mergeSort
        (fun first second => first ≤ second)).filter
          (Description.offers .standard (directory ++ name)) ↔
      PathOf entries directoriesOnly directory name value := by
  simp only [List.mem_filter, List.mem_mergeSort, List.mem_filterMap, Provider.path?_eq_some_iff]
  constructor
  · rintro ⟨⟨entry, member, own, spelled, alike, wanted, rfl⟩, offered⟩
    have begins := (offers_path_iff (entry.ne_empty_of_name? spelled)).mp offered
    refine ⟨entry, member, own, spelled, begins, ?_, wanted, rfl⟩
    intro hidden
    by_contra shown
    have dropped := (Provider.hiddenLike_eq_false_iff begins).mpr
      ⟨hidden, Bool.eq_false_iff.mpr shown⟩
    rw [alike] at dropped
    cases dropped
  · rintro ⟨entry, member, own, spelled, begins, hidden, wanted, rfl⟩
    refine ⟨⟨entry, member, own, spelled, ?_, wanted, rfl⟩, ?_⟩
    · by_contra dropped
      obtain ⟨dotted, plain⟩ := (Provider.hiddenLike_eq_false_iff begins).mp
        (Bool.eq_false_iff.mpr dropped)
      rw [hidden dotted] at plain
      cases plain
    · exact (offers_path_iff (entry.ne_empty_of_name? spelled)).mpr begins

/-- Sorting, filtering and dropping repetitions leaves texts in strictly ascending order. -/
theorem pairwise_bytes_lt (values : List String) (keep : String → Bool) :
    (((values.mergeSort (fun first second => first ≤ second)).filter keep).eraseDups).Pairwise
      fun earlier later => Text.bytes earlier < Text.bytes later := by
  have sorted : (values.mergeSort (fun first second => first ≤ second)).Pairwise (· ≤ ·) := by
    refine (List.pairwise_mergeSort ?_ ?_ values).imp of_decide_eq_true
    · intro first second third before after
      exact decide_eq_true (le_trans (of_decide_eq_true before) (of_decide_eq_true after))
    · intro first second
      simpa using le_total first second
  have kept := (sorted.sublist List.filter_sublist).sublist (eraseDups_sublist
    ((values.mergeSort (fun first second => first ≤ second)).filter keep))
  refine (kept.and (nodup_eraseDups _)).imp ?_
  intro earlier later ⟨before, apart⟩
  exact Text.bytes_lt_iff.mpr (lt_of_le_of_ne before apart)

/-- **Paths are offered exactly.** Let a word consist of a directory, up to its last slash, and a
name, and let the provider of paths, or of directories, be all that has something to give for it.
If the directory can be listed, the candidates are the paths that it has for the name, each once and
in ascending order of their bytes; if it cannot be listed, there are none. Of the entries that would
be offered, the test of the provider leaves out those that are hidden while the name is not, and no
others. -/
theorem path_candidates (index : Index) (registry : Registry) (list : Lister) (base : String)
    (typed : List String) (directoriesOnly : Bool) {directory name node key : String}
    {subcommands : Bool} (cut : directory = "" ∨ Path.endsInSlash directory = true)
    (bare : '/' ∉ name.toList)
    (context : (WalkState.run index .standard typed).context index .standard (directory ++ name) =
      .slot node key subcommands (directory ++ name))
    (noSubcommands : subcommands = true → index.subcommands node = [])
    (noChoices : index.choices node key = [])
    (bound : (index.provider node key).bind registry.get? =
      some (Provider.paths list base directoriesOnly)) :
    (∀ entries, list (Path.named base directory) = .ok entries →
      (complete index .standard registry typed (directory ++ name)).Pairwise
        (fun earlier later => Text.bytes earlier < Text.bytes later) ∧
      ∀ value, value ∈ complete index .standard registry typed (directory ++ name) ↔
        PathOf entries directoriesOnly directory name value) ∧
    (∀ fault, list (Path.named base directory) = .error fault →
      complete index .standard registry typed (directory ++ name) = []) ∧
    ∀ (entry : DirectoryEntry) (own : String), entry.name? = some own →
      Description.offers .standard (directory ++ name) (directory ++ own) = true →
        (Provider.hiddenLike name own = false ↔
          Text.startsWith own "." = true ∧ Text.startsWith name "." = false) := by
  have answered := complete_of_provider context noSubcommands noChoices bound
  rw [Provider.paths_append list base directoriesOnly cut bare] at answered
  refine ⟨?listed, ?refused, ?left⟩
  case listed =>
    intro entries readable
    rw [readable] at answered
    rw [answered]
    refine ⟨pairwise_bytes_lt _ _, fun value => ?_⟩
    rw [List.mem_eraseDups]
    exact mem_offered_paths_iff
  case refused =>
    intro fault refused
    rw [answered, refused]
    rfl
  case left =>
    intro entry own spelled offered
    have begins := (offers_path_iff (entry.ne_empty_of_name? spelled)).mp offered
    exact Provider.hiddenLike_eq_false_iff begins

/-- A directory with a file, a hidden file and a directory in it, below the place from which
relative paths start. -/
def sourceTree : FileTree where
  entries := [(["work"], .directory), (["work", "src"], .directory),
    (["work", "src", "main.rs"], .file .empty), (["work", "src", ".main"], .file .empty),
    (["work", "src", "mods"], .directory)]
  working := ["work"]
  home := "/home"

theorem path_candidates_sourceTree : ∃ (index : Index) (entries : List DirectoryEntry),
    sampleProgram.index = .ok index ∧ sourceTree.list (Path.named "." "src/") = .ok entries ∧
    index.provider "prog" (positionalKey 0) = some fileCompleter ∧
    "src/main.rs" ∈ complete index .standard (Registry.builtin sourceTree.list ".") ["x"] "src/" ∧
    "src/mods" ∈ complete index .standard (Registry.builtin sourceTree.list ".") ["x"] "src/" ∧
    "src/.main" ∉ complete index .standard (Registry.builtin sourceTree.list ".") ["x"] "src/" := by
  obtain ⟨index, built⟩ := sampleProgram_accepted
  have context : (WalkState.run index .standard ["x"]).context index .standard ("src/" ++ "") =
      .slot "prog" (positionalKey 0) false ("src/" ++ "") :=
    Command.index_observed built (fun index =>
      (WalkState.run index .standard ["x"]).context index .standard ("src/" ++ ""))
      (by decide +kernel)
  have noChoices : index.choices "prog" (positionalKey 0) = [] :=
    Command.index_observed built (·.choices "prog" (positionalKey 0)) (by decide +kernel)
  have provided : index.provider "prog" (positionalKey 0) = some fileCompleter :=
    Command.index_observed built (·.provider "prog" (positionalKey 0)) (by decide +kernel)
  have bound : (index.provider "prog" (positionalKey 0)).bind
      (Registry.builtin sourceTree.list ".").get? =
        some (Provider.paths sourceTree.list "." false) := by
    rw [provided]
    exact Registry.get?_builtin sourceTree.list "." false
  have seen : (sourceTree.list (Path.named "." "src/")).toOption.map
      (·.map fun entry => (entry.name?, entry.isDirectory)) =
        some [(some "main.rs", false), (some ".main", false), (some "mods", true)] := by
    decide +kernel
  cases readable : sourceTree.list (Path.named "." "src/") with
  | error fault =>
    rw [readable] at seen
    cases seen
  | ok entries =>
    rw [readable] at seen
    have shown : entries.map (fun entry => (entry.name?, entry.isDirectory)) =
        [(some "main.rs", false), (some ".main", false), (some "mods", true)] :=
      Option.some.inj seen
    have offered := ((path_candidates index (Registry.builtin sourceTree.list ".") sourceTree.list
      "." ["x"] false (.inr (by decide)) (by decide) context nofun noChoices bound).1 entries
        readable).2
    have entry_of : ∀ own isDirectory, (some own, isDirectory) ∈
        [(some "main.rs", false), (some ".main", false), (some "mods", true)] →
          ∃ entry ∈ entries, entry.name? = some own := by
      intro own isDirectory member
      rw [← shown] at member
      obtain ⟨entry, there, same⟩ := List.mem_map.mp member
      exact ⟨entry, there, congrArg Prod.fst same⟩
    refine ⟨index, entries, built, rfl, provided, ?_, ?_, ?_⟩
    · obtain ⟨entry, there, spelled⟩ := entry_of "main.rs" false (by simp)
      exact (offered _).mpr ⟨entry, there, _, spelled, rfl, nofun, nofun, rfl⟩
    · obtain ⟨entry, there, spelled⟩ := entry_of "mods" true (by simp)
      exact (offered _).mpr ⟨entry, there, _, spelled, rfl, nofun, nofun, rfl⟩
    · intro member
      obtain ⟨entry, _, own, _, _, hidden, _, same⟩ := (offered _).mp member
      have named : own = ".main" := (String.append_right_inj "src/").mp same.symm
      subst named
      exact absurd (hidden (by decide)) (by decide)

end CommandCompletion
