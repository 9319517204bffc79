import CommandCompletion.Proofs.Script.Answers
import CommandCompletion.Proofs.Text.ByteOrder

/-!
# The order of rows

The rows of a table about slots are written command by command, and under each command slot by
slot, but their keys are texts that are compared as a whole. In general these orders differ: one
key of a command may be the beginning of another, and what follows in the longer one is then
compared with the space. Here they are the same, because no character of a key is as small as a
space (`slotKey_lt_iff`), which is seen to when the index is built.

So all tables of a script list their rows in increasing order of the bytes of the keys, and the
functions of providers, which are sorted by their keys once more, are in that order before
(`rows_increasing`).
-/

set_option autoImplicit false

namespace CommandCompletion.Script

/-- **Rows stand in increasing order of their keys.** In all tables of the plan of a script the
bytes of the keys are strictly increasing. The functions of providers are sorted by these keys, and
that is the order of their commands and slots. For the keys of slots as a whole are ordered as their
commands are, and those of one command as the slots are, and no two slots have one key. -/
theorem rows_increasing {root : Command} {index : Index} (built : root.index = .ok index)
    (shell : Shell) (program : Option String) (bindings : Bindings) :
    (∀ table ∈ (Plan.of index shell program bindings).tables,
      table.rows.Pairwise fun earlier later => Text.bytes earlier.1 < Text.bytes later.1) ∧
    (Plan.boundProviders index shell bindings).entries =
      slotPairs index.providerTable (bindings.resolve · shell) ∧
    ∀ key other slot otherSlot, index.hasKey key = true → index.hasKey other = true →
      (Text.bytes (slotKey key slot) < Text.bytes (slotKey other otherSlot) ↔
        Text.bytes key < Text.bytes other ∨ key = other ∧ Text.bytes slot < Text.bytes otherSlot) ∧
      (slotKey key slot = slotKey other otherSlot ↔ key = other ∧ slot = otherSlot) := by
  obtain ⟨named, holds⟩ := Command.index_ok built
  refine ⟨?_, entries_boundProviders holds named shell bindings, ?_⟩
  · simp only [Text.bytes_lt_iff]
    exact increasing_rows holds named shell bindings
  · intro key other slot otherSlot known otherKnown
    have word := word_of_hasKey holds named known
    have otherWord := word_of_hasKey holds named otherKnown
    simp only [Text.bytes_lt_iff]
    exact ⟨slotKey_lt_iff word otherWord slot otherSlot,
      slotKey_inj word.space_notMem otherWord.space_notMem⟩

/-- A program with a subcommand whose name begins with that of another one and goes on with the
smallest character that a name can hold. -/
def urgentProgram : Command where
  name := "ask"
  subcommands := [
    { name := "now!", positionals := [{ name := "file", provider := some "file-completer" }] },
    { name := "now", options := [{ flags := ["-o"], provider := some "directory-completer" }] }]

theorem urgentProgram_accepted : ∃ index, urgentProgram.index = .ok index :=
  Command.accepted_of_isSome (by decide +kernel)

theorem rows_increasing_urgentProgram : ∃ index, urgentProgram.index = .ok index ∧
    index.hasKey "ask_now" = true ∧ index.hasKey "ask_now!" = true ∧
    Text.bytes (slotKey "ask_now" "pos_9") < Text.bytes (slotKey "ask_now!" "-o") ∧
    (Plan.boundProviders index .zsh Bindings.builtin).entries =
      [("ask_now -o", "__tabgen_dirs"), ("ask_now! pos_0", "__tabgen_files")] := by
  obtain ⟨index, built⟩ := urgentProgram_accepted
  obtain ⟨_, functions, ordered⟩ := rows_increasing built .zsh none Bindings.builtin
  have known : index.hasKey "ask_now" = true :=
    Command.index_observed built (·.hasKey "ask_now") (by decide +kernel)
  have otherKnown : index.hasKey "ask_now!" = true :=
    Command.index_observed built (·.hasKey "ask_now!") (by decide +kernel)
  refine ⟨index, built, known, otherKnown, ?_, ?_⟩
  · exact (ordered _ _ _ _ known otherKnown).1.mpr (.inl (by decide +kernel))
  · rw [functions]
    exact Command.index_observed built
      (fun index => slotPairs index.providerTable (Bindings.builtin.resolve · .zsh))
      (by decide +kernel)

end CommandCompletion.Script
