import CommandCompletion.Arity
import CommandCompletion.Candidates
import CommandCompletion.Command
import CommandCompletion.Command.Arena
import CommandCompletion.Data
import CommandCompletion.Description
import CommandCompletion.Document
import CommandCompletion.Document.Load
import CommandCompletion.Failure
import CommandCompletion.Files
import CommandCompletion.Files.Path
import CommandCompletion.Index
import CommandCompletion.Index.Build
import CommandCompletion.Interface
import CommandCompletion.Interface.Implied
import CommandCompletion.Interface.Reading
import CommandCompletion.Json.Print
import CommandCompletion.Json.Read
import CommandCompletion.Json.Token
import CommandCompletion.Line
import CommandCompletion.Line.Words
import CommandCompletion.Main
import CommandCompletion.Program
import CommandCompletion.Program.Request
import CommandCompletion.Proofs.Candidates.Collecting
import CommandCompletion.Proofs.FirstOccurrences
import CommandCompletion.Proofs.Index.Acceptance
import CommandCompletion.Proofs.Index.Building
import CommandCompletion.Proofs.Index.Checks
import CommandCompletion.Proofs.Index.Content
import CommandCompletion.Proofs.Index.Entry
import CommandCompletion.Proofs.Index.Queries
import CommandCompletion.Proofs.Index.Renaming
import CommandCompletion.Proofs.Line.Cursor
import CommandCompletion.Proofs.Line.InProgress
import CommandCompletion.Proofs.Line.Quoted
import CommandCompletion.Proofs.Script.Answers
import CommandCompletion.Proofs.Text.Words
import CommandCompletion.Proofs.Tree.Agreement
import CommandCompletion.Proofs.Tree.Arena
import CommandCompletion.Proofs.Tree.Engine
import CommandCompletion.Proofs.Tree.Places
import CommandCompletion.Proofs.Walk.Absorbing
import CommandCompletion.Proofs.Walk.Aliases
import CommandCompletion.Proofs.Walk.Invariant
import CommandCompletion.Proofs.Walk.LockStep
import CommandCompletion.Proofs.Walk.Offered
import CommandCompletion.Proofs.Walk.Options
import CommandCompletion.Proofs.Walk.Renaming
import CommandCompletion.Proofs.Walk.Separator
import CommandCompletion.Proofs.Walk.Standard
import CommandCompletion.Provider
import CommandCompletion.Script
import CommandCompletion.Script.Bash
import CommandCompletion.Script.Emitter
import CommandCompletion.Script.Fish
import CommandCompletion.Script.Plan
import CommandCompletion.Script.PosixWalk
import CommandCompletion.Script.Quoting
import CommandCompletion.Script.Template
import CommandCompletion.Script.Zsh
import CommandCompletion.Settings
import CommandCompletion.Settings.Load
import CommandCompletion.Settings.Text
import CommandCompletion.Shell
import CommandCompletion.Table
import CommandCompletion.Text.Blank
import CommandCompletion.Text.CaseProperties
import CommandCompletion.Text.Decimal
import CommandCompletion.Text.Escaped
import CommandCompletion.Text.Lowercase
import CommandCompletion.Text.LowercaseRuns
import CommandCompletion.Text.Visible
import CommandCompletion.Toml.Draft
import CommandCompletion.Toml.Print
import CommandCompletion.Toml.Read
import CommandCompletion.Toml.Scalar
import CommandCompletion.Toml.Statement
import CommandCompletion.Toml.Token
import CommandCompletion.Walk
import CommandCompletion.Walk.Context
import CommandCompletion.Walk.Slot
import CommandCompletion.Proofs.Index.ByNumber
import CommandCompletion.Proofs.Script.Pieces
import CommandCompletion.Proofs.Script.Templates
import CommandCompletion.Proofs.Script.Assembled
import CommandCompletion.Proofs.Script.Unmarked
import CommandCompletion.Proofs.Script.Defined
import CommandCompletion.Proofs.Script.Together
import CommandCompletion.Proofs.Walk.Rules
import CommandCompletion.Proofs.Text.Lowercase
import CommandCompletion.Proofs.Walk.Dealing
import CommandCompletion.Proofs.Candidates.IgnoringCase
import CommandCompletion.Proofs.Candidates.Sources
import CommandCompletion.Proofs.Candidates.Narrowing
import CommandCompletion.Proofs.Text.ByteOrder
import CommandCompletion.Proofs.Candidates.Paths
import CommandCompletion.Proofs.Tree.Layout
import CommandCompletion.Proofs.Tree.Lowering
import CommandCompletion.Proofs.Index.Redeclaring
import CommandCompletion.Proofs.Tree.Reordering
import CommandCompletion.Proofs.Index.Reordering
import CommandCompletion.Proofs.Text.Decimal
import CommandCompletion.Proofs.Json.Strings
import CommandCompletion.Proofs.Json.Written
import CommandCompletion.Proofs.Text.Arity
import CommandCompletion.Proofs.Text.Scanning
import CommandCompletion.Proofs.Document.Said
import CommandCompletion.Proofs.Document.Misfit
import CommandCompletion.Proofs.Document.Stated
import CommandCompletion.Proofs.Document.Writable
import CommandCompletion.Proofs.Document.Texts
import CommandCompletion.Proofs.Toml.Strings
import CommandCompletion.Proofs.Toml.Tables
import CommandCompletion.Proofs.Toml.Atoms
import CommandCompletion.Proofs.Toml.Written
import CommandCompletion.Proofs.Toml.Lines
import CommandCompletion.Proofs.Toml.Printed
import CommandCompletion.Proofs.Script.Parts
import CommandCompletion.Proofs.Script.Heads
import CommandCompletion.Proofs.Script.Unshadowed
import CommandCompletion.Proofs.Script.OptionTest
import CommandCompletion.Proofs.Script.Bindings
import CommandCompletion.Proofs.Files.Writing
import CommandCompletion.Proofs.Program.Generating
import CommandCompletion.Proofs.Settings.Bindings
import CommandCompletion.Proofs.Program.Emitting
import CommandCompletion.Proofs.Toml.Quoting
import CommandCompletion.Proofs.Toml.Document
import CommandCompletion.Proofs.Settings.Text
import CommandCompletion.Proofs.Interface.Shows
import CommandCompletion.Proofs.Interface.Shown
import CommandCompletion.Proofs.Interface.Closest
import CommandCompletion.Proofs.Script.RowOrder
import CommandCompletion.Proofs.Script.Filling
import CommandCompletion.Proofs.Script.LiteralWords
