import CommandCompletion.Text.Blank
import CommandCompletion.Text.Lowercase

/-!
# The description of the completion algorithm

One description drives the completion inside this program and every script that is
generated. It fixes the order in which the rules are tried for each typed word, the
order in which the sources of candidates are asked, how candidates are compared with the
word being completed, the marker with which options begin, and the separator that ends
options and subcommands.
-/

set_option autoImplicit false

namespace CommandCompletion

/-- A rule for one typed word; the first rule that claims the word wins. -/
inductive WalkRule where
  /-- The active slot takes the word. -/
  | absorb
  /-- The bare separator: only positionals follow. -/
  | separator
  /-- The name of a subcommand descends into it. -/
  | subcommand
  /-- A flag opens its slot. -/
  | flag
  /-- Anything fills the next positional slot. -/
  | positional
  deriving DecidableEq

/-- Where candidates come from. -/
inductive CandidateSource where
  /-- The names of the subcommands, as long as a subcommand may follow. -/
  | subcommands
  /-- The literal choices of the current slot. -/
  | choices
  /-- The provider of the current slot. -/
  | provider
  deriving DecidableEq

/-- Whether upper and lower case are told apart. -/
inductive MatchCase where
  | sensitive
  | insensitive
  deriving DecidableEq

/-- Everything that fixes the completion algorithm. -/
structure Description where
  /-- Words that begin with it are completed as options; an empty marker marks nothing. -/
  marker : String := "-"
  /-- The bare word that ends options and subcommands. -/
  separator : String := "--"
  rules : List WalkRule := [.absorb, .separator, .subcommand, .flag, .positional]
  sources : List CandidateSource := [.subcommands, .choices, .provider]
  matchCase : MatchCase := .sensitive
  deriving DecidableEq

namespace Description

/-- The standard algorithm, with the given comparison of case. -/
def standard (matchCase : MatchCase := .sensitive) : Description :=
  { matchCase }

/-- Whether a candidate begins with the word being completed. -/
def accepts (description : Description) (candidate word : String) : Bool :=
  match description.matchCase with
  | .sensitive => Text.startsWith candidate word
  | .insensitive => (Text.lowercase word.toList).isPrefixOf (Text.lowercase candidate.toList)

/-- Whether a word begins like an option. -/
def looksLikeOption (description : Description) (word : String) : Bool :=
  !description.marker.isEmpty && Text.startsWith word description.marker

end Description

end CommandCompletion
