import CommandCompletion.Script.Bash
import CommandCompletion.Script.Fish
import CommandCompletion.Script.Zsh

/-!
# Completion scripts

A script is a self-contained file of shell code. It begins with a header and the
functions of the built-in providers; then come the lookup tables, the helper functions,
and the completion function, which holds one block for every rule of the walk and one for
every source of candidates, in the order of the description; at the end the caller's own
code, if there is any, stands right before the registration.

A script depends on nothing but the index, the description, the shell and the options,
and its tables are written in increasing order of their keys.
-/

set_option autoImplicit false

namespace CommandCompletion

/-- What a script depends on besides the index, the description and the shell. -/
structure ScriptOptions where
  /-- The command that is completed; the program of the index if none is given. -/
  program : Option String := none
  /-- Shell code that is put in right before the registration. -/
  preamble : Option String := none
  bindings : Bindings := Bindings.builtin

namespace Script

/-- The emitter of a shell. -/
def emitterFor : Shell → Emitter
  | .bash => Bash.emitter
  | .zsh => Zsh.emitter
  | .fish => Fish.emitter

/-- The values of the holes that occur everywhere. -/
def commonHoles (emitter : Emitter) (index : Index) (description : Description) (plan : Plan) :
    Holes :=
  [("FN".toList, plan.function),
    ("ROOT".toList, emitter.quote index.root.toList),
    ("PROG".toList, emitter.quote plan.program.toList),
    ("SEP".toList, emitter.quote description.separator.toList),
    ("MARK".toList, emitter.quote description.marker.toList)]

/-- The caller's code, ended by a newline and followed by an empty line. -/
def preambleBlock : Option String → List Char
  | none => []
  | some preamble =>
    preamble.toList ++ (if preamble.toList.getLast? == some '\n' then [] else ['\n']) ++ ['\n']

/-- The characters of a script written from a plan. -/
def write (emitter : Emitter) (index : Index) (description : Description) (plan : Plan)
    (preamble : Option String) : List Char :=
  let holes := commonHoles emitter index description plan
  let walk := description.rules.flatMap fun rule => fill holes (emitter.walkBlock rule)
  let sources := description.sources.flatMap fun source => fill holes (emitter.sourceBlock source)
  emitter.header plan.program ++ ['\n'] ++
    emitter.builtinFunctions ++ ['\n'] ++
    emitter.tables plan ++ ['\n'] ++
    fill holes (emitter.helperTemplate description) ++ ['\n'] ++
    fill (holes ++ [("WALK".toList, walk), ("SOURCES".toList, sources)]) emitter.mainTemplate ++
    ['\n'] ++
    preambleBlock preamble ++
    fill holes emitter.registrationTemplate

/-- The completion script of a program for a shell. -/
def render (index : Index) (description : Description) (shell : Shell)
    (options : ScriptOptions) : String :=
  let plan := Plan.of index shell options.program options.bindings
  String.ofList (write (emitterFor shell) index description plan options.preamble)

end Script

end CommandCompletion
