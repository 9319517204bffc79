import CommandCompletion.Script.Emitter
import CommandCompletion.Script.PosixWalk
import CommandCompletion.Text.Escaped

/-!
# Scripts for zsh

A script works both as a function file that is loaded on demand and when it is sourced
after the completion system was set up. Candidates are handed to the completion system,
so that its own matching still applies on top of the filter of the script.
-/

set_option autoImplicit false

namespace CommandCompletion.Script.Zsh

/-- The functions of the two built-in providers. -/
def builtinFunctions : List Char := lines [
  "__tabgen_files() \x7b",
  "    local dir=",
  "    local -a paths",
  "    [[ $1 == */* ]] && dir=$\x7b1%/*\x7d/",
  "    if [[ $\x7b1##*/\x7d == .* ]]; then",
  "        paths=( $\x7bdir\x7d.*(N) )",
  "    else",
  "        paths=( $\x7bdir\x7d*(N) )",
  "    fi",
  "    (( $\x7b#paths\x7d )) && print -rl -- \"$\x7bpaths[@]\x7d\"",
  "    return 0",
  "\x7d",
  "",
  "__tabgen_dirs() \x7b",
  "    local dir=",
  "    local -a paths",
  "    [[ $1 == */* ]] && dir=$\x7b1%/*\x7d/",
  "    if [[ $\x7b1##*/\x7d == .* ]]; then",
  "        paths=( $\x7bdir\x7d.*(N/) )",
  "    else",
  "        paths=( $\x7bdir\x7d*(N/) )",
  "    fi",
  "    (( $\x7b#paths\x7d )) && print -rl -- \"$\x7bpaths[@]\x7d\"",
  "    return 0",
  "\x7d"]

/-- The helper functions; the mark in the comparison is replaced by the test for the case
at hand. -/
def helperTemplate : List Char := lines [
  "@FN@_has() \x7b",
  "    local -a items",
  "    items=( $\x7b(f)1\x7d )",
  "    [[ -n $2 ]] && (( $\x7bitems[(Ie)$2]\x7d ))",
  "\x7d",
  "",
  "@FN@_optlike() \x7b",
  "    [[ -n @MARK@ && $1 == @MARK@* ]]",
  "\x7d",
  "",
  "@FN@_match() \x7b",
  "    @MATCHER@",
  "\x7d",
  "",
  "@FN@_release() \x7b",
  "    if [[ $kind == pos ]]; then",
  "        count=$((count + 1))",
  "    fi",
  "    slot= kind= arity= consumed=0",
  "\x7d",
  "",
  "@FN@_exhausted() \x7b",
  "    case $arity in",
  "        ('?') (( consumed >= 1 )) ;;",
  "        ('*' | '+' | '...') return 1 ;;",
  "        (*) (( consumed >= arity )) ;;",
  "    esac",
  "\x7d",
  "",
  "@FN@_pending() \x7b",
  "    [[ $kind == opt ]] || return 1",
  "    case $arity in",
  "        ('+') (( consumed == 0 )) ;;",
  "        ('?' | '*' | '...') return 1 ;;",
  "        (*) (( consumed < arity )) ;;",
  "    esac",
  "\x7d",
  "",
  "@FN@_absorbs() \x7b",
  "    case $arity in",
  "        ('*' | '+' | '...') return 0 ;;",
  "        ('?') (( consumed == 0 )) && ! @FN@_optlike \"$1\" ;;",
  "        (*) (( consumed < arity )) ;;",
  "    esac",
  "\x7d",
  "",
  "@FN@_collect() \x7b",
  "    local item",
  "    for item in $\x7b(f)1\x7d; do",
  "        @FN@_match \"$item\" || continue",
  "        @FN@_has \"$seen\" \"$item\" && continue",
  "        seen+=$item$'\\n'",
  "        reply+=( \"$item\" )",
  "    done",
  "\x7d"]

/-- The completion function. -/
def mainTemplate : List Char := lines [
  "@FN@() \x7b",
  "    emulate -L zsh",
  "    local cur=$\x7bwords[CURRENT]\x7d",
  "    local prefix=@ROOT@ slot= kind= arity= token key current provider seen=",
  "    local -i count=0 consumed=0 only=0 i",
  "    local -a reply",
  "",
  "    for (( i = 2; i < CURRENT; i++ )); do",
  "        token=$\x7bwords[i]\x7d",
  "        (( $\x7b+@FN@_subcommands[$prefix]\x7d )) || prefix=@ROOT@",
  "@WALK@    done",
  "",
  "    current=$\x7bslot:-pos_$count\x7d",
  "    if (( ! only )) && ! @FN@_pending && @FN@_optlike \"$cur\"; then",
  "        @FN@_collect \"$\x7b@FN@_options[$prefix]-\x7d\"",
  "    else",
  "@SOURCES@    fi",
  "",
  "    (( $\x7b#reply\x7d )) || return 1",
  "    compadd -- \"$\x7breply[@]\x7d\"",
  "\x7d"]

/-- Candidates from the subcommands. -/
def subcommandSource : List Char := lines [
  "        if (( count == 0 && ! only )) && [[ -z $slot ]]; then",
  "            @FN@_collect \"$\x7b@FN@_subcommands[$prefix]-\x7d\"",
  "        fi"]

/-- Candidates from the choices. -/
def choiceSource : List Char := lines [
  "        key=\"$prefix $current\"",
  "        @FN@_collect \"$\x7b@FN@_choices[$key]-\x7d\""]

/-- Candidates from the provider. -/
def providerSource : List Char := lines [
  "        key=\"$prefix $current\"",
  "        provider=$\x7b@FN@_providers[$key]-\x7d",
  "        if [[ -n $provider ]] && (( $\x7b+functions[$provider]\x7d )); then",
  "            @FN@_collect \"$(\"$provider\" \"$cur\" 2> /dev/null)\"",
  "        fi"]

/-- Registration, which also works when the script is loaded on demand. -/
def registrationTemplate : List Char := lines [
  "if [[ $\x7bzsh_eval_context[-1]\x7d == loadautofunc ]]; then",
  "    @FN@ \"$@\"",
  "else",
  "    compdef @FN@ @PROG@",
  "fi"]

/-- The block of a source of candidates. -/
def sourceBlock : CandidateSource → List Char
  | .subcommands => subcommandSource
  | .choices => choiceSource
  | .provider => providerSource

/-- The test whether a candidate begins with the word. -/
def comparison : MatchCase → List Char
  | .sensitive => "[[ $1 == \"$cur\"* ]]".toList
  | .insensitive => "[[ $\x7b(L)1\x7d == \"$\x7b(L)cur\x7d\"* ]]".toList

/-- The first lines of a script. -/
def header (program : String) : List Char :=
  lines ["#compdef " ++ Text.asciiForm program, "# zsh completion for " ++ Text.asciiForm program,
    generatedLine]

/-- One table of a script. -/
def table (function : List Char) (table : ScriptTable) : List Char :=
  let name := function ++ "_".toList ++ table.name.toList
  "typeset -gA ".toList ++ name ++ "\n".toList ++ name ++ "=(\n".toList ++
    table.rows.flatMap (fun row =>
      "    ".toList ++ posixQuote row.1.toList ++ " ".toList ++
        ansiLines (row.2.map String.toList) ++ "\n".toList) ++
    ")\n".toList

/-- How scripts for zsh are written. -/
def emitter : Emitter where
  header := header
  builtinFunctions := builtinFunctions
  tables plan := plan.tables.flatMap (table plan.function)
  helperTemplate description :=
    replaceMark "@MATCHER@".toList (comparison description.matchCase) 0 helperTemplate
  walkBlock := PosixWalk.block
  sourceBlock := sourceBlock
  mainTemplate := mainTemplate
  registrationTemplate := registrationTemplate
  quote := posixQuote

end CommandCompletion.Script.Zsh
