import CommandCompletion.Proofs.Document.Misfit
import CommandCompletion.Proofs.Document.Writable
import CommandCompletion.Proofs.Tree.Lowering

/-!
# Documents and their texts

A text writes a document if it writes, in JSON or in TOML, data or statements that say it. Fields
may stand in any order, defaults may be left out, an arity may be a text or a count, and there may
be white space and comments wherever the format allows them. Lists and records may only be inside
each other as far as the readers go.

Every such text is read as the document, whose arena is therefore the same for both formats, and
there are such texts for every document that is not nested too deep. A text of a misfit is read as
no document (`document_texts`).
-/

set_option autoImplicit false

namespace CommandCompletion

namespace CommandDocument

/-- A text that says a document in JSON. -/
def WrittenInJson (document : CommandDocument) (text : String) : Prop :=
  ∃ datum, document.SaidBy .json datum ∧
    Json.WrittenText Json.Building.maximalDepth datum text.toList

/-- A text that says a document in TOML, behind a mark of the byte order or not. -/
def WrittenInToml (document : CommandDocument) (text : String) : Prop :=
  ∃ members parts, document.StatedBy members parts ∧
    Toml.WrittenLines (Toml.statementsOf (Toml.Members.simple members) parts)
      (Toml.withoutMark text.toList)

/-- A text that says a misfit in JSON, however many lists and records are inside each other. -/
def MisfitInJson (text : String) : Prop :=
  ∃ room datum, Misfit datum ∧ Json.WrittenText room datum text.toList

variable {document : CommandDocument} {text : String}

theorem ofJson_eq (text : String) :
    ofJson text = (decode .json (Json.read text.toList).1 >>= fun found =>
      Datum.finish (Json.read text.toList).2 >>= fun _ => .ok found) := rfl

theorem ofJson_eq_of_writtenInJson (written : document.WrittenInJson text) :
    ofJson text = .ok document := by
  obtain ⟨datum, said, writes⟩ := written
  rcases Json.read_written writes with read | ⟨deep, _⟩
  · rw [ofJson_eq, read, document.decode_of_saidBy said]
    rfl
  · exact absurd deep (Nat.lt_irrefl _)

theorem ofToml_eq_of_writtenInToml (written : document.WrittenInToml text) :
    ofToml text = .ok document := by
  obtain ⟨members, parts, stated, lines⟩ := written
  obtain ⟨built, applied, said⟩ := document.built_of_statedBy stated
  have assigned := Toml.Members.assignAll_simple stated.fields.distinct
  rw [ofToml, Toml.decode, Toml.read_of_lines lines.reads assigned applied]
  exact document.decode_of_saidBy said

theorem refused_ofJson_of_misfitInJson (written : MisfitInJson text) : Refused (ofJson text) := by
  obtain ⟨room, datum, misfit, writes⟩ := written
  rw [ofJson_eq]
  rcases Json.read_written writes with read | ⟨_, unsound⟩
  · rw [read]
    exact (refused_of_misfit misfit).bind _
  · rw [unsound]
    exact refused_bind fun _ _ => ⟨_, rfl⟩

/-- A document that is not nested too deep can be written in JSON. -/
theorem exists_writtenInJson (document : CommandDocument) (inRange : document.InRange)
    (shallow : 2 * document.nesting + 2 ≤ Json.Building.maximalDepth) :
    ∃ text, document.WrittenInJson text := by
  obtain ⟨text, written⟩ := document.exists_written_datum shallow
  refine ⟨String.ofList text, document.datum, document.saidBy_datum inRange, [], text, [], .nil,
    written, .nil, ?_⟩
  rw [String.toList_ofList, List.nil_append, List.append_nil]

/-- A document that is not nested too deep can be written in TOML. -/
theorem exists_writtenInToml (document : CommandDocument) (inRange : document.InRange)
    (shallow : document.nesting ≤ Toml.KeyReading.maximalLength) :
    ∃ text, document.WrittenInToml text := by
  obtain ⟨text, lines⟩ := document.exists_writtenLines_sections shallow
  refine ⟨String.ofList ('\uFEFF' :: text), _, _, document.statedBy_sections inRange, ?_⟩
  rw [String.toList_ofList]
  exact lines

end CommandDocument

/-- **Documents are read as they are written.** However a document is written in JSON or in TOML,
reading the text gives the arena of this document, which holds the tree of the document. A document
can be written in both formats unless too many commands are inside each other. In JSON a text with
an unknown field, with a required field missing or with an arity that is none, at whatever depth,
is read as no document. -/
theorem document_texts :
    (∀ (document : CommandDocument) (text : String), document.WrittenInJson text →
      (CommandDocument.ofJson text).map CommandDocument.arena = .ok document.arena) ∧
    (∀ (document : CommandDocument) (text : String), document.WrittenInToml text →
      (CommandDocument.ofToml text).map CommandDocument.arena = .ok document.arena) ∧
    (∀ document : CommandDocument, document.arena.command = document.command) ∧
    (∀ document : CommandDocument, document.InRange →
      2 * document.nesting + 2 ≤ Json.Building.maximalDepth →
      ∃ json toml, document.WrittenInJson json ∧ document.WrittenInToml toml) ∧
    ∀ text : String, CommandDocument.MisfitInJson text →
      ∃ fault, CommandDocument.ofJson text = .error fault := by
  refine ⟨?_, ?_, CommandDocument.command_arena, ?_, ?_⟩
  · intro document text written
    rw [CommandDocument.ofJson_eq_of_writtenInJson written]
    rfl
  · intro document text written
    rw [CommandDocument.ofToml_eq_of_writtenInToml written]
    rfl
  · intro document inRange shallow
    have shallowToo : document.nesting ≤ Toml.KeyReading.maximalLength := by
      simp only [Json.Building.maximalDepth, Toml.KeyReading.maximalLength] at shallow ⊢
      omega
    obtain ⟨json, inJson⟩ := document.exists_writtenInJson inRange shallow
    obtain ⟨toml, inToml⟩ := document.exists_writtenInToml inRange shallowToo
    exact ⟨json, toml, inJson, inToml⟩
  · intro text written
    exact CommandDocument.refused_ofJson_of_misfitInJson written

/-- A command with an option that takes one word. -/
def runDocument : CommandDocument :=
  { name := "run", options := [{ flags := ["-j"], arity := .exactly 1 }] }

/-- A program with this command and a positional without a name. -/
def jobsDocument : CommandDocument :=
  { name := "tool", positionals := [{ arity := .zeroOrMore }], subcommands := [runDocument] }

/-- Data that say the command, with its name behind the options and the count as a text. -/
def runDatum : Datum :=
  .record [
    ("options", .list [.record [("nargs", .text "1"), ("flags", Datum.ofTexts ["-j"])] true] true),
    ("name", .text "run")] true

/-- Data that say the program, with its name behind the subcommands. -/
def jobsDatum : Datum :=
  .record [("subcommands", .list [runDatum] true), ("name", .text "tool"),
    ("positionals", .list [.record [("name", .nothing), ("nargs", .text "*")] true] true)] true

/-- The program in JSON, with its name behind the subcommands and a count as a text. -/
def jobsJson : String :=
  "\x7b\"subcommands\":[" ++
  "\x7b\"options\":[\x7b\"nargs\":\"1\",\"flags\":[\"-j\"]\x7d],\"name\":\"run\"\x7d]," ++
  "\"name\":\"tool\",\"positionals\":[\x7b\"name\":null,\"nargs\":\"*\"\x7d]\x7d"

/-- The program in TOML, with the positional in place and tables for the rest. -/
def jobsToml : String :=
  "name=\"tool\"\npositionals=[\x7bnargs=\"*\"\x7d]\n[[subcommands]]\nname=\"run\"\n" ++
  "[[subcommands.options]]\nnargs=1\nflags=[\"-j\"]\n"

/-- A program in JSON with an option whose count is given under a name that is no field. -/
def strayJson : String :=
  "\x7b\"name\":\"tool\",\"options\":[\x7b\"flags\":[\"-j\"],\"count\":1\x7d]\x7d"

theorem runDocument_saidBy : runDocument.SaidBy .json runDatum := by
  have arity : (Arity.exactly 1).SaidBy (.text "1") := Arity.decode_eq_ok_iff.mp rfl
  have option : ({ flags := ["-j"], arity := .exactly 1 } : OptionDocument).SaidBy .json
      (.record [("nargs", .text "1"), ("flags", Datum.ofTexts ["-j"])] true) :=
    .record ⟨by decide, by decide⟩ (.given (.tail _ (.head _)) rfl)
      ⟨.given (.head _) arity, .leftOut rfl (by simp), .leftOut rfl (by simp)⟩
  rw [runDocument, CommandDocument.SaidBy]
  exact ⟨_, rfl, ⟨by decide, by decide⟩, .given (.tail _ (.head _)) rfl,
    .given (.head _) ⟨_, rfl, .cons option .nil⟩, .leftOut rfl (by simp), .leftOut rfl (by simp)⟩

theorem jobsDocument_saidBy : jobsDocument.SaidBy .json jobsDatum := by
  have positional : ({ arity := .zeroOrMore } : PositionalDocument).SaidBy .json
      (.record [("name", .nothing), ("nargs", .text "*")] true) :=
    .record ⟨by decide, by decide⟩ (.given (.head _) (.nothing rfl))
      ⟨.given (.tail _ (.head _)) (.text .zeroOrMore), .leftOut rfl (by simp),
        .leftOut rfl (by simp)⟩
  rw [jobsDocument, CommandDocument.SaidBy]
  refine ⟨_, rfl, ⟨by decide, by decide⟩, .given (.tail _ (.head _)) rfl, .leftOut rfl (by simp),
    .given (.tail _ (.tail _ (.head _))) ⟨_, rfl, .cons positional .nil⟩,
    .given (.head _) ⟨_, rfl, ?_⟩⟩
  simp only [CommandDocument.AllSaidBy]
  exact ⟨_, _, rfl, runDocument_saidBy, rfl⟩

theorem jobsDocument_writtenInJson : jobsDocument.WrittenInJson jobsJson := by
  have option := Json.Written.record (.more (.quoted "nargs" (Json.written_quoted 122 "1"))
    (.last (.quoted "flags" (.list (.one (Json.written_quoted 121 "-j"))))))
  have run := Json.Written.record (.more (.quoted "options" (.list (.one option)))
    (.last (.quoted "name" (Json.written_quoted 124 "run"))))
  have slot := Json.Written.record (.more (.quoted "name" (.nothing 124))
    (.last (.quoted "nargs" (Json.written_quoted 124 "*"))))
  have written := Json.Written.record (.more (.quoted "subcommands" (.list (.one run)))
    (.more (.quoted "name" (Json.written_quoted 126 "tool"))
      (.last (.quoted "positionals" (.list (.one slot))))))
  exact ⟨_, jobsDocument_saidBy, [], _, [], .nil, written, .nil, by decide +kernel⟩

/-- A group that says the option of the command. -/
def runOptionSection : Toml.Section :=
  .oneMore "options" [("nargs", .count 1), ("flags", Datum.ofTexts ["-j"])]

/-- Members that say the name and the positional of the program. -/
def jobsMembers : List (String × Datum) :=
  [("name", .text "tool"), ("positionals", .list [Toml.tableDatum [("nargs", .text "*")]] true)]

theorem runDocument_statedBy : runDocument.StatedBy [("name", .text "run")] [runOptionSection] := by
  have sorted : Toml.tableDatum [("nargs", .count 1), ("flags", Datum.ofTexts ["-j"])] =
      .record [("flags", Datum.ofTexts ["-j"]), ("nargs", .count 1)] true := rfl
  have option : ({ flags := ["-j"], arity := .exactly 1 } : OptionDocument).SaidBy .toml
      (Toml.tableDatum [("nargs", .count 1), ("flags", Datum.ofTexts ["-j"])]) := by
    rw [sorted]
    exact .record ⟨by decide, by decide⟩ (.given (.head _) rfl)
      ⟨.given (.tail _ (.head _)) (.count 1), .leftOut rfl (by simp), .leftOut rfl (by simp)⟩
  rw [runDocument, CommandDocument.StatedBy]
  exact ⟨⟨by decide, by decide⟩, by decide, .given (.head _) rfl,
    .tables (by simp) (.cons ⟨_, rfl, by decide, option⟩ .nil), .tables (by simp) .nil,
    .tables (by simp) (by rw [CommandDocument.AllStatedBy]; rfl)⟩

theorem jobsDocument_statedBy : jobsDocument.StatedBy jobsMembers
    [.oneMore "subcommands" [("name", .text "run")], runOptionSection.under "subcommands"] := by
  have positional : ({ arity := .zeroOrMore } : PositionalDocument).SaidBy .toml
      (.record [("nargs", .text "*")] true) :=
    .record ⟨by decide, by decide⟩ (.leftOut rfl (by simp))
      ⟨.given (.head _) (.text .zeroOrMore), .leftOut rfl (by simp), .leftOut rfl (by simp)⟩
  rw [jobsDocument, CommandDocument.StatedBy]
  refine ⟨⟨by decide, by decide⟩, by decide, .given (.head _) rfl,
    .tables (by simp [jobsMembers]) .nil,
    .value (.tail _ (.head _)) ⟨_, rfl, .cons positional .nil⟩ rfl,
    .tables (by simp [jobsMembers]) ?_⟩
  simp only [CommandDocument.AllStatedBy]
  exact ⟨_, [runOptionSection], [], rfl, runDocument_statedBy, rfl⟩

theorem jobsDocument_writtenInToml : jobsDocument.WrittenInToml jobsToml := by
  have bare : ∀ name ∈ ["name", "positionals", "nargs", "flags"], Toml.isBareName name = true := by
    decide +kernel
  have heads : ∀ name ∈ ["subcommands", "options"],
      Toml.isBareName name = true ∧ '-' ∉ name.toList := by
    decide +kernel
  have assign : ∀ (name : String) {value : Datum} {text : List Char},
      name ∈ ["name", "positionals", "nargs", "flags"] → Toml.Written 80 value text →
      Toml.SpelledStatement (.assignment ⟨[], name⟩ value) (name.toList ++ '=' :: text) :=
    fun name _ _ listed => Toml.spelledStatement_of_bare (bare name listed)
  have subcommands := Toml.spelledKey_of_bare
    (show ∀ part ∈ [] ++ ["subcommands"], _ from fun part member => heads part (by simp_all))
    (by decide)
  have options := Toml.spelledKey_of_bare
    (show ∀ part ∈ ["subcommands"] ++ ["options"], _ from heads) (by decide)
  have arity := Toml.writtenMember_of_bare (bare "nargs" (by decide)) (Toml.written_basicLine 78 "*")
  have slot := Toml.Written.record (by decide) (.last arity)
  have one : Toml.Written 80 (.count 1) ['1'] := .count 80 (by decide)
  have flags := Toml.Written.list (.last (.item .nil (Toml.written_basicLine 79 "-j") .nil))
  have option := Toml.WrittenLines.cons (assign "nargs" (by decide) one)
    (.cons (assign "flags" (by decide) flags) (.finish .nil .none))
  have run := Toml.WrittenLines.cons (.oneMore subcommands .nil .nil)
    (.cons (assign "name" (by decide) (Toml.written_basicLine 80 "run"))
      (.cons (.oneMore options .nil .nil) option))
  have written := Toml.WrittenLines.cons
    (assign "name" (by decide) (Toml.written_basicLine 80 "tool"))
    (.cons (assign "positionals" (by decide) (.list (.last (.item .nil slot .nil)))) run)
  exact ⟨_, _, jobsDocument_statedBy,
    (congrArg (Toml.WrittenLines _) (by decide +kernel)).mp written⟩

theorem strayJson_misfit : CommandDocument.MisfitInJson strayJson := by
  have stray : OptionDocument.Misfit
      (.record [("flags", .list [.text "-j"] true), ("count", .count 1)] true) :=
    .unknown (.tail _ (.head _)) (by decide) true
  have one : Json.Written 1 (.count 1) ['1'] := .count 1 (by decide)
  have flags := Json.Written.list (.one (Json.written_quoted 0 "-j"))
  have option := Json.Written.record (.more (.quoted "flags" flags) (.last (.quoted "count" one)))
  have written := Json.Written.record (.more (.quoted "name" (Json.written_quoted 3 "tool"))
    (.last (.quoted "options" (.list (.one option)))))
  exact ⟨_, _, .option (.member (.tail _ (.head _)) true) (.head _) stray, [], _, [], .nil, written,
    .nil, by decide +kernel⟩

theorem document_texts_jobsDocument :
    jobsDocument.WrittenInJson jobsJson ∧ jobsDocument.WrittenInToml jobsToml ∧
    (CommandDocument.ofJson jobsJson).map CommandDocument.arena = .ok jobsDocument.arena ∧
    (CommandDocument.ofToml jobsToml).map CommandDocument.arena = .ok jobsDocument.arena ∧
    (jobsDocument.InRange ∧ 2 * jobsDocument.nesting + 2 ≤ Json.Building.maximalDepth ∧
      ∃ json toml, jobsDocument.WrittenInJson json ∧ jobsDocument.WrittenInToml toml) ∧
    CommandDocument.MisfitInJson strayJson ∧
    ∃ fault, CommandDocument.ofJson strayJson = .error fault := by
  have inRange : jobsDocument.InRange := by
    simp [jobsDocument, runDocument, CommandDocument.InRange, CommandDocument.AllInRange,
      Arity.InRange, UInt64.size]
  have shallow : 2 * jobsDocument.nesting + 2 ≤ Json.Building.maximalDepth := by decide
  obtain ⟨inJson, inToml, _, written, misfits⟩ := document_texts
  exact ⟨jobsDocument_writtenInJson, jobsDocument_writtenInToml,
    inJson _ _ jobsDocument_writtenInJson, inToml _ _ jobsDocument_writtenInToml,
    ⟨inRange, shallow, written jobsDocument inRange shallow⟩, strayJson_misfit,
    misfits _ strayJson_misfit⟩

end CommandCompletion
