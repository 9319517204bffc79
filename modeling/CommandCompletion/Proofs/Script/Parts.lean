import CommandCompletion.Proofs.Script.Assembled

/-!
# The parts of a script

A script has three parts: its own code, the code of the caller, and the registration
(`render_eq_parts`). The own code (`ownCode`) consists of the first lines with the built-in
functions, of the tables, and of the helper functions with the completion function.

Only the tables show how providers are bound. Everything else is written from the name of
the program, the stem of the names, the root of the index and the description
(`codeBehind_congr`).
-/

set_option autoImplicit false

namespace CommandCompletion.Script

/-! ## Registration -/

/-- The text that registers a completion. -/
def registrationText (shell : Shell) (plan : Plan) : List Char :=
  match shell with
  | .bash =>
    "complete -F ".toList ++ plan.function ++ " ".toList ++ posixQuote plan.program.toList ++
      "\n".toList
  | .zsh =>
    "if [[ $\x7bzsh_eval_context[-1]\x7d == loadautofunc ]]; then\n    ".toList ++ plan.function ++
      " \"$@\"\nelse\n    compdef ".toList ++ plan.function ++ " ".toList ++
      posixQuote plan.program.toList ++ "\nfi\n".toList
  | .fish =>
    "complete -c ".toList ++ fishQuote plan.program.toList ++ " -e\ncomplete -c ".toList ++
      fishQuote plan.program.toList ++ " -f -a '(".toList ++ plan.function ++
      "_complete)'\n".toList

/-! ## The parts -/

/-- The first lines of a script and the functions of the built-in providers. -/
def firstPart (shell : Shell) (program : String) : List Char :=
  (emitterFor shell).header program ++ ['\n'] ++ (emitterFor shell).builtinFunctions ++ ['\n']

section Parts

variable (index : Index) (description : Description) (shell : Shell) (plan : Plan)

/-- The helper functions and the completion function. -/
def codeBehind : List Char :=
  ['\n'] ++ assembleTemplate index description shell plan (templates shell).helpers ++ ['\n'] ++
    assemble (mainText index description shell plan) (split (templates shell).main) ++ ['\n']

/-- The code of a script that is not the caller's and comes before the registration. -/
def ownCode : List Char :=
  firstPart shell plan.program ++ (emitterFor shell).tables plan ++
    codeBehind index description shell plan

theorem assemble_registration :
    assembleTemplate index description shell plan (templates shell).registration =
      registrationText shell plan := by
  rw [assembleTemplate, sound_templates.registrationSplit]
  -- Not `simp`: it makes equations for the definitions, and evaluates the literals for them.
  cases shell <;> unfold registrationPieces registrationText <;>
    simp only [assemble_append, assemble_literal, assemble_hole, List.append_assoc] <;>
    rfl

/-- A script consists of its own code, the caller's code and the registration. -/
theorem write_eq_parts (preamble : Option String) :
    write (emitterFor shell) index description plan preamble =
      ownCode index description shell plan ++ preambleBlock preamble ++
        registrationText shell plan := by
  rw [write_eq_assembledFrom, assembledFrom, assemble_registration]
  simp only [ownCode, firstPart, codeBehind, List.append_assoc]

variable {plan} {other : Plan}

/-- Names and quoted texts show the program and the stem only. -/
theorem holeText_congr (sameStem : plan.function = other.function)
    (sameProgram : plan.program = other.program) :
    holeText index description shell plan = holeText index description shell other := by
  funext hole
  cases hole with
  | function => exact sameStem
  | program => exact congrArg (fun name => (emitterFor shell).quote name.toList) sameProgram
  | root | separator | marker | comparison | optionTest | caseFolding | walk | sources => rfl

/-- The code behind the tables shows nothing of them. -/
theorem codeBehind_congr (sameStem : plan.function = other.function)
    (sameProgram : plan.program = other.program) :
    codeBehind index description shell plan = codeBehind index description shell other := by
  have common := holeText_congr index description shell sameStem sameProgram
  have template (text : List Char) : assembleTemplate index description shell plan text =
      assembleTemplate index description shell other text := by
    rw [assembleTemplate, common, assembleTemplate]
  have main : mainText index description shell plan = mainText index description shell other := by
    funext hole
    cases hole with
    | walk | sources => simp only [mainText, template]
    | function | root | program | separator | marker | comparison | optionTest | caseFolding =>
      simp only [mainText, common]
  rw [codeBehind, template, main, codeBehind]

end Parts

/-- A script is written from a plan. -/
theorem render_eq_parts (index : Index) (description : Description) (shell : Shell)
    (options : ScriptOptions) :
    (render index description shell options).toList =
      ownCode index description shell (Plan.of index shell options.program options.bindings) ++
        preambleBlock options.preamble ++
        registrationText shell (Plan.of index shell options.program options.bindings) := by
  rw [render, String.toList_ofList, write_eq_parts]

end CommandCompletion.Script
