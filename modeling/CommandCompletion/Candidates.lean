import CommandCompletion.Provider
import CommandCompletion.Walk.Context

/-!
# Candidates for a word

The typed words are walked, the last state says what the word is completed as, and the
context says where candidates come from: the flags of the command, or the sources of the
description in their order. Of all the values found, those that are not empty and begin
with the word are offered, each once, in the order in which they were found first.
-/

set_option autoImplicit false

namespace CommandCompletion

/-- Whether a value is offered for a word. -/
def Description.offers (description : Description) (word value : String) : Bool :=
  !value.isEmpty && description.accepts value word

namespace Context

/-- The values collected so far, extended by those of a list that are offered for the word
and not among them yet. -/
def collect (description : Description) (word : String) (found values : List String) :
    List String :=
  values.foldl
    (fun found value =>
      if description.offers word value && !found.contains value then found ++ [value] else found)
    found

/-- What one source gives in a context of values. -/
def sourceValues (index : Index) (registry : Registry) (node key : String) (subcommands : Bool)
    (word : String) : CandidateSource → List String
  | .subcommands => if subcommands then index.subcommands node else []
  | .choices => index.choices node key
  | .provider =>
    match index.provider node key with
    | some name => registry.invoke name word
    | none => []

/-- The candidates in a context: those among the flags, or those of one source after the
other. -/
def candidates (index : Index) (description : Description) (registry : Registry) :
    Context → List String
  | .options node word => collect description word [] (index.flags node)
  | .slot node key subcommands word =>
    description.sources.foldl
      (fun found source =>
        collect description word found
          (sourceValues index registry node key subcommands word source))
      []

end Context

/-- The candidates for a word after the typed words, the program's name left out. -/
def complete (index : Index) (description : Description) (registry : Registry)
    (typed : List String) (word : String) : List String :=
  ((WalkState.run index description typed).context index description word).candidates
    index description registry

end CommandCompletion
