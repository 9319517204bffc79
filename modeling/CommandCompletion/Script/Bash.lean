import CommandCompletion.Script.Emitter
import CommandCompletion.Script.PosixWalk
import CommandCompletion.Text.Escaped

/-!
# Scripts for bash

Tables are associative arrays, which need bash 4. Slot tables are keyed by the key of the
command, a space and the key of the slot, and a list is held as lines. The helper
functions read the locals of the completion function, which bash shows to them.
-/

set_option autoImplicit false

namespace CommandCompletion.Script.Bash

/-- The functions of the two built-in providers. -/
def builtinFunctions : List Char := lines [
  "__tabgen_files() \x7b",
  "    local dir= path pattern='*'",
  "    [[ $1 == */* ]] && dir=$\x7b1%/*\x7d/",
  "    [[ $\x7b1##*/\x7d == .* ]] && pattern='.*'",
  "    for path in \"$dir\"$pattern; do",
  "        case $\x7bpath##*/\x7d in . | ..) continue ;; esac",
  "        [[ $pattern == '*' && $\x7bpath##*/\x7d == .* ]] && continue",
  "        if [[ -e $path || -L $path ]]; then",
  "            printf '%s\\n' \"$path\"",
  "        fi",
  "    done",
  "    return 0",
  "\x7d",
  "",
  "__tabgen_dirs() \x7b",
  "    local dir= path pattern='*/'",
  "    [[ $1 == */* ]] && dir=$\x7b1%/*\x7d/",
  "    [[ $\x7b1##*/\x7d == .* ]] && pattern='.*/'",
  "    for path in \"$dir\"$pattern; do",
  "        path=$\x7bpath%/\x7d",
  "        case $\x7bpath##*/\x7d in . | ..) continue ;; esac",
  "        [[ $pattern == '*/' && $\x7bpath##*/\x7d == .* ]] && continue",
  "        if [[ -d $path ]]; then",
  "            printf '%s\\n' \"$path\"",
  "        fi",
  "    done",
  "    return 0",
  "\x7d"]

/-- The helper functions; the mark in the comparison is replaced by the test for the case
at hand. -/
def helperTemplate : List Char := lines [
  "@FN@_has() \x7b",
  "    [[ -n $2 && $'\\n'\"$1\"$'\\n' == *$'\\n'\"$2\"$'\\n'* ]]",
  "\x7d",
  "",
  "@FN@_optlike() \x7b",
  "    [[ -n @MARK@ && $1 == @MARK@* ]]",
  "\x7d",
  "",
  "@FN@_match() \x7b",
  "    @MATCHER@",
  "\x7d",
  "",
  "@FN@_release() \x7b",
  "    if [[ $kind == pos ]]; then",
  "        count=$((count + 1))",
  "    fi",
  "    slot= kind= arity= consumed=0",
  "\x7d",
  "",
  "@FN@_exhausted() \x7b",
  "    case $arity in",
  "        '?') (( consumed >= 1 )) ;;",
  "        '*' | '+' | '...') return 1 ;;",
  "        *) (( consumed >= arity )) ;;",
  "    esac",
  "\x7d",
  "",
  "@FN@_pending() \x7b",
  "    [[ $kind == opt ]] || return 1",
  "    case $arity in",
  "        '+') (( consumed == 0 )) ;;",
  "        '?' | '*' | '...') return 1 ;;",
  "        *) (( consumed < arity )) ;;",
  "    esac",
  "\x7d",
  "",
  "@FN@_absorbs() \x7b",
  "    case $arity in",
  "        '*' | '+' | '...') return 0 ;;",
  "        '?') (( consumed == 0 )) && ! @FN@_optlike \"$1\" ;;",
  "        *) (( consumed < arity )) ;;",
  "    esac",
  "\x7d",
  "",
  "@FN@_collect() \x7b",
  "    local item",
  "    while IFS= read -r item; do",
  "        [[ -n $item ]] || continue",
  "        @FN@_match \"$item\" || continue",
  "        @FN@_has \"$seen\" \"$item\" && continue",
  "        seen+=$item$'\\n'",
  "        COMPREPLY+=(\"$item\")",
  "    done <<< \"$1\"",
  "\x7d"]

/-- The completion function. -/
def mainTemplate : List Char := lines [
  "@FN@() \x7b",
  "    local cur=$\x7bCOMP_WORDS[COMP_CWORD]\x7d",
  "    local prefix=@ROOT@ slot= kind= arity= token key current provider seen=",
  "    local -i count=0 consumed=0 only=0 i",
  "    COMPREPLY=()",
  "",
  "    for (( i = 1; i < COMP_CWORD; i++ )); do",
  "        token=$\x7bCOMP_WORDS[i]\x7d",
  "        [[ -n $\x7b@FN@_subcommands[$prefix]+x\x7d ]] || prefix=@ROOT@",
  "@WALK@    done",
  "",
  "    current=$\x7bslot:-pos_$count\x7d",
  "    if (( ! only )) && ! @FN@_pending && @FN@_optlike \"$cur\"; then",
  "        @FN@_collect \"$\x7b@FN@_options[$prefix]-\x7d\"",
  "        return 0",
  "    fi",
  "@SOURCES@    return 0",
  "\x7d"]

/-- Candidates from the subcommands. -/
def subcommandSource : List Char := lines [
  "    if (( count == 0 && ! only )) && [[ -z $slot ]]; then",
  "        @FN@_collect \"$\x7b@FN@_subcommands[$prefix]-\x7d\"",
  "    fi"]

/-- Candidates from the choices. -/
def choiceSource : List Char := lines [
  "    key=\"$prefix $current\"",
  "    @FN@_collect \"$\x7b@FN@_choices[$key]-\x7d\""]

/-- Candidates from the provider. -/
def providerSource : List Char := lines [
  "    key=\"$prefix $current\"",
  "    provider=$\x7b@FN@_providers[$key]-\x7d",
  "    if [[ -n $provider ]] && declare -F -- \"$provider\" > /dev/null; then",
  "        @FN@_collect \"$(\"$provider\" \"$cur\" 2> /dev/null)\"",
  "    fi"]

/-- The block of a source of candidates. -/
def sourceBlock : CandidateSource → List Char
  | .subcommands => subcommandSource
  | .choices => choiceSource
  | .provider => providerSource

/-- The test whether a candidate begins with the word. -/
def comparison : MatchCase → List Char
  | .sensitive => "[[ $1 == \"$cur\"* ]]".toList
  | .insensitive => "[[ $\x7b1,,\x7d == \"$\x7bcur,,\x7d\"* ]]".toList

/-- The first lines of a script. -/
def header (program : String) : List Char :=
  lines ["# bash completion for " ++ Text.asciiForm program, generatedLine]

/-- One table of a script. -/
def table (function : List Char) (table : ScriptTable) : List Char :=
  "declare -gA ".toList ++ function ++ "_".toList ++ table.name.toList ++ "=(\n".toList ++
    table.rows.flatMap (fun row =>
      "    [".toList ++ posixQuote row.1.toList ++ "]=".toList ++
        ansiLines (row.2.map String.toList) ++ "\n".toList) ++
    ")\n".toList

/-- How scripts for bash are written. -/
def emitter : Emitter where
  header := header
  builtinFunctions := builtinFunctions
  tables plan := plan.tables.flatMap (table plan.function)
  helperTemplate description :=
    replaceMark "@MATCHER@".toList (comparison description.matchCase) 0 helperTemplate
  walkBlock := PosixWalk.block
  sourceBlock := sourceBlock
  mainTemplate := mainTemplate
  registrationTemplate := lines ["complete -F @FN@ @PROG@"]
  quote := posixQuote

end CommandCompletion.Script.Bash
