import Formulary.Bindings
import Formulary.Catalogue

/-
  Builders that write programs.

  A specification names a structure type and elements, and is written as a call
  of the catalogue's macro when there are enough elements for it. A workflow is
  a list of steps on one formula, written as a program that binds the formula
  anew at each step and ends with it.
-/

namespace Formulary

/-- An element's name without the colons before it. -/
def withoutColons (s : String) : String :=
  String.ofList (s.toList.dropWhile fun c => c = ':')

/-- What a material should be. -/
structure MaterialSpec where
  structureType : String
  elements : List String := []
  properties : Bindings Float := []
  constraints : List String := []

namespace MaterialSpec

/-- Adds an element, named with or without its colon. -/
def withElement (s : MaterialSpec) (element : String) : MaterialSpec :=
  { s with elements := s.elements ++ [withoutColons element] }

def withProperty (s : MaterialSpec) (name : String) (x : Float) : MaterialSpec :=
  { s with properties := s.properties.put name x }

def withConstraint (s : MaterialSpec) (constraint : String) : MaterialSpec :=
  { s with constraints := s.constraints ++ [constraint] }

/-- The program that builds the formula: a call of the structure type's macro
with as many elements as it takes, or one of each element when the type is
unknown or the elements do not suffice. -/
def program (s : MaterialSpec) : String :=
  let generic := "(material" ++ String.join (s.elements.map fun e => " :" ++ e ++ " 1") ++ ")"
  match structureType? s.structureType with
  | none => generic
  | some t =>
    if t.arity ≤ s.elements.length then
      "(" ++ s.structureType ++ " " ++
        " ".intercalate ((s.elements.take t.arity).map fun e => ":" ++ e) ++ ")"
    else generic

end MaterialSpec

/-- A step on a formula. -/
inductive WorkflowStep where
  | generate (spec : MaterialSpec)
  | substitute (old new : String)
  | combine (other : String)

def WorkflowStep.form : WorkflowStep → String
  | generate spec => spec.program
  | substitute old new =>
    "(substitute result :" ++ withoutColons old ++ " :" ++ withoutColons new ++ ")"
  | combine other => "(combine result " ++ (Value.str other).readable ++ ")"

/-- Steps to take one after the other. -/
abbrev Workflow := List WorkflowStep

namespace Workflow

def line (step : WorkflowStep) : String := "  (define result " ++ step.form ++ ")"

/-- The program that takes the steps and ends with the formula. -/
def program (w : Workflow) : String :=
  "\n".intercalate (["(begin"] ++ w.map line ++ ["  result)"])

end Workflow

end Formulary
