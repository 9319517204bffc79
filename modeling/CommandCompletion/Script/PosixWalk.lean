import CommandCompletion.Description
import CommandCompletion.Script.Template

/-!
# Walk rules in bash and zsh

For each rule of the walk there is a block of shell code that claims the word and goes on
with the next one, or falls through to the block behind it. The syntax used is common to
bash and zsh, so both have the same blocks.
-/

set_option autoImplicit false

namespace CommandCompletion.Script.PosixWalk

/-- The open slot takes the word or closes. -/
def absorbBlock : List Char := lines [
  "        if [[ -n $slot ]]; then",
  "            if @FN@_absorbs \"$token\"; then",
  "                consumed=$((consumed + 1))",
  "                if @FN@_exhausted; then",
  "                    @FN@_release",
  "                fi",
  "                continue",
  "            fi",
  "            @FN@_release",
  "        fi"]

/-- The separator. -/
def separatorBlock : List Char := lines [
  "        if (( ! only )) && [[ $token == @SEP@ ]]; then",
  "            only=1",
  "            continue",
  "        fi"]

/-- The name of a subcommand. -/
def subcommandBlock : List Char := lines [
  "        if (( ! only )) && @FN@_has \"$\x7b@FN@_subcommands[$prefix]-\x7d\" \"$token\"; then",
  "            prefix=$\x7bprefix\x7d_$token",
  "            count=0 slot= kind= arity= consumed=0",
  "            continue",
  "        fi"]

/-- A flag. -/
def flagBlock : List Char := lines [
  "        if (( ! only )) && @FN@_has \"$\x7b@FN@_options[$prefix]-\x7d\" \"$token\"; then",
  "            slot=$token kind=opt consumed=0",
  "            key=\"$prefix $token\"",
  "            arity=$\x7b@FN@_arity[$key]-0\x7d",
  "            if [[ $arity == 0 ]]; then",
  "                slot= kind= arity=",
  "            fi",
  "            continue",
  "        fi"]

/-- Anything else. -/
def positionalBlock : List Char := lines [
  "        slot=pos_$count kind=pos consumed=1",
  "        key=\"$prefix $slot\"",
  "        arity=$\x7b@FN@_arity[$key]-1\x7d",
  "        if @FN@_exhausted; then",
  "            @FN@_release",
  "        fi",
  "        continue"]

/-- The block of a rule. -/
def block : WalkRule → List Char
  | .absorb => absorbBlock
  | .separator => separatorBlock
  | .subcommand => subcommandBlock
  | .flag => flagBlock
  | .positional => positionalBlock

end CommandCompletion.Script.PosixWalk
