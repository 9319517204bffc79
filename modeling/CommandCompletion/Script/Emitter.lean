import CommandCompletion.Description
import CommandCompletion.Script.Plan
import CommandCompletion.Script.Quoting

/-!
# How scripts are written for a shell

The scripts of all shells are made of the same pieces in the same order. An emitter gives
the pieces for one shell: some are fixed, some depend on the plan or on the description,
and some are templates with holes for the stem of the names and for quoted texts.
-/

set_option autoImplicit false

namespace CommandCompletion.Script

/-- The version of the program, which every script names. -/
def version : String := "0.9.0"

/-- The line of a script that says where it comes from. -/
def generatedLine : String :=
  "# Generated by tabgen " ++ version ++ ". Do not edit."

/-- The pieces of a script for one shell. -/
structure Emitter where
  header : String → List Char
  builtinFunctions : List Char
  tables : Plan → List Char
  helperTemplate : Description → List Char
  walkBlock : WalkRule → List Char
  sourceBlock : CandidateSource → List Char
  mainTemplate : List Char
  registrationTemplate : List Char
  /-- A text as one literal word. -/
  quote : List Char → List Char

end CommandCompletion.Script
