import CommandCompletion.Script.Emitter
import CommandCompletion.Text.Escaped

/-!
# Scripts for fish

Fish has no associative arrays, so each table is a function that holds a list of keys and
a list of values side by side and looks a key up. A function of fish does not see the
locals of its caller, so the helper functions take the state of the walk as arguments,
and the code that closes a slot is written out where it is needed.
-/

set_option autoImplicit false

namespace CommandCompletion.Script.Fish

/-- The functions of the two built-in providers. -/
def builtinFunctions : List Char := lines [
  "function __tabgen_files --argument-names word",
  "    set -l dir ''",
  "    string match -q -- '*/*' \"$word\"; and set dir (string replace -r '[^/]*$' '' -- \"$word\")",
  "    set -l paths",
  "    if string match -q -- '.*' (string replace -r '^.*/' '' -- \"$word\")",
  "        set paths $dir.*",
  "    else",
  "        set paths $dir*",
  "    end",
  "    for path in $paths",
  "        contains -- (string replace -r '^.*/' '' -- $path) . ..; and continue",
  "        printf '%s\\n' $path",
  "    end",
  "end",
  "",
  "function __tabgen_dirs --argument-names word",
  "    set -l dir ''",
  "    string match -q -- '*/*' \"$word\"; and set dir (string replace -r '[^/]*$' '' -- \"$word\")",
  "    set -l paths",
  "    if string match -q -- '.*' (string replace -r '^.*/' '' -- \"$word\")",
  "        set paths $dir.*/",
  "    else",
  "        set paths $dir*/",
  "    end",
  "    for path in $paths",
  "        set path (string trim -r -c / -- $path)",
  "        contains -- (string replace -r '^.*/' '' -- $path) . ..; and continue",
  "        printf '%s\\n' $path",
  "    end",
  "end"]

/-- The helper functions; two marks in them are replaced by the test for options and by
the folding of case. -/
def helperTemplate : List Char := lines [
  "function @FN@_optlike --argument-names word",
  "@OPTLIKE@",
  "end",
  "",
  "function @FN@_match --argument-names item word",
  "    test -n \"$item\"; or return 1",
  "    test -z \"$word\"; and return 0",
  "    set -l head (string sub -l (string length -- \"$word\") -- \"$item\")",
  "@LOWER@",
  "    test \"$head\" = \"$word\"",
  "end",
  "",
  "function @FN@_exhausted --argument-names arity consumed",
  "    if test \"$arity\" = '?'",
  "        test $consumed -ge 1",
  "    else if contains -- \"$arity\" '*' '+' '...'",
  "        return 1",
  "    else",
  "        test $consumed -ge $arity",
  "    end",
  "end",
  "",
  "function @FN@_pending --argument-names kind arity consumed",
  "    test \"$kind\" = opt; or return 1",
  "    if test \"$arity\" = '+'",
  "        test $consumed -eq 0",
  "    else if contains -- \"$arity\" '?' '*' '...'",
  "        return 1",
  "    else",
  "        test $consumed -lt $arity",
  "    end",
  "end",
  "",
  "function @FN@_absorbs --argument-names arity consumed token",
  "    if contains -- \"$arity\" '*' '+' '...'",
  "        return 0",
  "    else if test \"$arity\" = '?'",
  "        test $consumed -eq 0; and not @FN@_optlike \"$token\"",
  "    else",
  "        test $consumed -lt $arity",
  "    end",
  "end"]

/-- The completion function. -/
def mainTemplate : List Char := lines [
  "function @FN@_complete",
  "    set -l words (commandline -opc)",
  "    set -l cur (commandline -ct)",
  "    set -q words[1]; and set -e words[1]",
  "    set -l prefix @ROOT@",
  "    set -l count 0",
  "    set -l slot ''",
  "    set -l kind ''",
  "    set -l arity ''",
  "    set -l consumed 0",
  "    set -l only 0",
  "    set -l reply",
  "",
  "    for token in $words",
  "        contains -- \"$prefix\" (@FN@_prefixes); or set prefix @ROOT@",
  "@WALK@    end",
  "",
  "    set -l current \"$slot\"",
  "    test -n \"$current\"; or set current pos_$count",
  "    if test $only -eq 0; and not @FN@_pending \"$kind\" \"$arity\" $consumed; and @FN@_optlike \"$cur\"",
  "        for item in (@FN@_options \"$prefix\")",
  "            @FN@_match \"$item\" \"$cur\"; or continue",
  "            contains -- \"$item\" $reply; and continue",
  "            set -a reply $item",
  "        end",
  "    else",
  "@SOURCES@    end",
  "",
  "    set -q reply[1]; and printf '%s\\n' $reply",
  "end"]

/-- The open slot takes the word or closes. -/
def absorbBlock : List Char := lines [
  "        if test -n \"$slot\"",
  "            if @FN@_absorbs \"$arity\" $consumed \"$token\"",
  "                set consumed (math $consumed + 1)",
  "                if @FN@_exhausted \"$arity\" $consumed",
  "                    test \"$kind\" = pos; and set count (math $count + 1)",
  "                    set slot ''",
  "                    set kind ''",
  "                    set arity ''",
  "                    set consumed 0",
  "                end",
  "                continue",
  "            end",
  "            test \"$kind\" = pos; and set count (math $count + 1)",
  "            set slot ''",
  "            set kind ''",
  "            set arity ''",
  "            set consumed 0",
  "        end"]

/-- The separator. -/
def separatorBlock : List Char := lines [
  "        if test $only -eq 0; and test \"$token\" = @SEP@",
  "            set only 1",
  "            continue",
  "        end"]

/-- The name of a subcommand. -/
def subcommandBlock : List Char := lines [
  "        if test $only -eq 0; and contains -- \"$token\" (@FN@_subcommands \"$prefix\")",
  "            set prefix \"$prefix\"_\"$token\"",
  "            set count 0",
  "            set slot ''",
  "            set kind ''",
  "            set arity ''",
  "            set consumed 0",
  "            continue",
  "        end"]

/-- A flag. -/
def flagBlock : List Char := lines [
  "        if test $only -eq 0; and contains -- \"$token\" (@FN@_options \"$prefix\")",
  "            set slot \"$token\"",
  "            set kind opt",
  "            set consumed 0",
  "            set arity (@FN@_arity \"$prefix $token\")",
  "            test -n \"$arity\"; or set arity 0",
  "            if test \"$arity\" = 0",
  "                set slot ''",
  "                set kind ''",
  "                set arity ''",
  "            end",
  "            continue",
  "        end"]

/-- Anything else. -/
def positionalBlock : List Char := lines [
  "        set slot pos_$count",
  "        set kind pos",
  "        set consumed 1",
  "        set arity (@FN@_arity \"$prefix $slot\")",
  "        test -n \"$arity\"; or set arity 1",
  "        if @FN@_exhausted \"$arity\" $consumed",
  "            set count (math $count + 1)",
  "            set slot ''",
  "            set kind ''",
  "            set arity ''",
  "            set consumed 0",
  "        end",
  "        continue"]

/-- Candidates from the subcommands. -/
def subcommandSource : List Char := lines [
  "        if test $count -eq 0; and test $only -eq 0; and test -z \"$slot\"",
  "            for item in (@FN@_subcommands \"$prefix\")",
  "                @FN@_match \"$item\" \"$cur\"; or continue",
  "                contains -- \"$item\" $reply; and continue",
  "                set -a reply $item",
  "            end",
  "        end"]

/-- Candidates from the choices. -/
def choiceSource : List Char := lines [
  "        for item in (@FN@_choices \"$prefix $current\")",
  "            @FN@_match \"$item\" \"$cur\"; or continue",
  "            contains -- \"$item\" $reply; and continue",
  "            set -a reply $item",
  "        end"]

/-- Candidates from the provider. -/
def providerSource : List Char := lines [
  "        set -l provider (@FN@_providers \"$prefix $current\")",
  "        if test -n \"$provider\"; and functions -q -- $provider",
  "            for item in ($provider \"$cur\" 2> /dev/null)",
  "                @FN@_match \"$item\" \"$cur\"; or continue",
  "                contains -- \"$item\" $reply; and continue",
  "                set -a reply $item",
  "            end",
  "        end"]

/-- The block of a rule. -/
def walkBlock : WalkRule → List Char
  | .absorb => absorbBlock
  | .separator => separatorBlock
  | .subcommand => subcommandBlock
  | .flag => flagBlock
  | .positional => positionalBlock

/-- The block of a source of candidates. -/
def sourceBlock : CandidateSource → List Char
  | .subcommands => subcommandSource
  | .choices => choiceSource
  | .provider => providerSource

/-- The first lines of a script. -/
def header (program : String) : List Char :=
  lines ["# fish completion for " ++ Text.asciiForm program, generatedLine]

/-- A continuation of a command on a line of its own. -/
def continued (word : List Char) : List Char :=
  " \\\n        ".toList ++ word

/-- The function that lists the keys of all commands. -/
def keyList (plan : Plan) : List Char :=
  "function ".toList ++ plan.function ++ "_prefixes\n    printf '%s\\n'".toList ++
    plan.keys.flatMap (fun key => continued (fishQuote key.toList)) ++ "\nend\n".toList

/-- The function that looks a key up in one table. -/
def table (function : List Char) (table : ScriptTable) : List Char :=
  "\nfunction ".toList ++ function ++ "_".toList ++ table.name.toList ++ "\n".toList ++
    "    set -l keys".toList ++
    table.rows.flatMap (fun row => continued (fishQuote row.1.toList)) ++
    "\n    set -l values".toList ++
    table.rows.flatMap (fun row => continued (fishLines (row.2.map String.toList))) ++
    "\n".toList ++
    lines [
      "    if set -l i (contains -i -- \"$argv[1]\" $keys)",
      "        string split --no-empty \\n -- $values[$i]",
      "    end",
      "end"]

/-- The body of the test whether a word looks like an option. -/
def optionTest (marker : String) : List Char :=
  if marker.isEmpty then "    return 1".toList
  else
    "    string match -qr -- ".toList ++ fishQuote ('^' :: regexLiteral marker.toList) ++
      " \"$word\"".toList

/-- The lines that fold the case of both sides before they are compared. -/
def caseFolding : MatchCase → List Char
  | .sensitive => []
  | .insensitive => lines [
      "    set -l head (string lower -- \"$head\")",
      "    set -l word (string lower -- \"$word\")"]

/-- How scripts for fish are written. -/
def emitter : Emitter where
  header := header
  builtinFunctions := builtinFunctions
  tables plan := keyList plan ++ plan.tables.flatMap (table plan.function)
  helperTemplate description :=
    replaceMark "@LOWER@\n".toList (caseFolding description.matchCase) 0
      (replaceMark "@OPTLIKE@".toList (optionTest description.marker) 0 helperTemplate)
  walkBlock := walkBlock
  sourceBlock := sourceBlock
  mainTemplate := mainTemplate
  registrationTemplate := lines [
    "complete -c @PROG@ -e",
    "complete -c @PROG@ -f -a '(@FN@_complete)'"]
  quote := fishQuote

end CommandCompletion.Script.Fish
