import Formulary.Error.Kind
import Formulary.Error.Reading
import Formulary.SpecialForm
import Formulary.Value.Print

/-
  What can go wrong while a form is evaluated.

  Each cause is a constructor that holds what its message needs. One failure is
  no error of the language: an integer, handed in by a host, that no double can
  hold.
-/

namespace Formulary

open Text

/-- Why an evaluation ended without a value. -/
inductive RunError where
  | unbound (name : String)
  | unknownOperator (name : String)
  | notAnOperator (v : Value)
  | formArity (form : SpecialForm)
  | defineTarget (v : Value)
  | bindingName (v : Value)
  | bindingsNotAList
  | malformedBinding (v : Value)
  | templateTarget (v : Value)
  | formalsNotAList
  | templateName (v : Value)
  | formalName (v : Value)
  | duplicateFormal (name : String)
  | templateArity (name : String) (expected got : Nat)
  | expansionTooDeep (bound : Int)
  | expansionUnsettled (bound : Int)
  | nestedTooDeeply
  | noArguments (op : String)
  | notTwoArguments (op : String) (got : Nat)
  | notOneArgument (op : String)
  | notANumber (op : String) (v : Value)
  | integerOverflow (op : String)
  | floatOverflow (op : String)
  | divisionByZero
  | notAList (op : String) (v : Value)
  | emptyList (op : String)
  | unpairedArguments (got : Nat)
  | notAnElement (position : Nat) (v : Value)
  | notACount (position : Nat) (v : Value)
  | countNotPositive (tag : String) (count : Int)
  | substituteArity (got : Nat)
  | substituteFormula (v : Value)
  | substituteTags
  | elementNotFound (tag formula : String)
  | combineArity (got : Nat)
  | combineFormula (v : Value)
  | notAFormula (v : Value)
  | unrepresentable
  deriving DecidableEq

namespace RunError

/-- The kind of an error of the language; none for an integer that no double can
hold. -/
def kind? : RunError → Option ErrorKind
  | unbound _ => some .unboundSymbol
  | unknownOperator _ | notAnOperator _ => some .unknownOperator
  | formArity _ | templateArity .. | noArguments _ | notTwoArguments .. | notOneArgument _
  | substituteArity _ | combineArity _ => some .arity
  | unpairedArguments _ => some .oddArity
  | defineTarget _ | bindingName _ | bindingsNotAList | malformedBinding _
  | templateTarget _ | formalsNotAList | templateName _ | formalName _
  | duplicateFormal _ | notANumber .. | notAList .. | notAnElement .. | notACount ..
  | countNotPositive .. | substituteFormula _ | substituteTags | combineFormula _
  | notAFormula _ => some .type
  | divisionByZero => some .divisionByZero
  | emptyList _ => some .emptyList
  | elementNotFound .. => some .elementNotFound
  | expansionTooDeep _ | expansionUnsettled _ | nestedTooDeeply => some .depthExceeded
  | integerOverflow _ | floatOverflow _ => some .overflow
  | unrepresentable => none

/-- What a special form with the wrong number of parts is told. -/
def formArityMessage : SpecialForm → String
  | .define => "define requires exactly 2 arguments"
  | .cond => "if requires a condition, a then-expression and an optional else-expression"
  | .quote => "quote requires exactly 1 argument"
  | .begin => "begin takes any number of forms"
  | .letIn => "let requires bindings and at least one body form"
  | .template => "defmacro requires a name, a parameter list and one body form"
  | .expandOnce => "macroexpand-1 expects exactly 1 argument"
  | .expandFully => "macroexpand expects exactly 1 argument"

def message : RunError → String
  | unbound name => "Unbound symbol: " ++ name
  | unknownOperator name => "Unknown operator: " ++ name
  | notAnOperator v => "Cannot apply " ++ v.inspected ++ ": not an operator"
  | formArity f => formArityMessage f
  | defineTarget v => "define requires a symbol as first argument, got " ++ v.inspected
  | bindingName v => "Cannot define " ++ v.inspected ++ ": binding names must be symbols"
  | bindingsNotAList => "let bindings must be a list"
  | malformedBinding v => "let binding must be (name value), got " ++ v.inspected
  | templateTarget v => "Macro name must be a Symbol, got " ++ v.inspected
  | formalsNotAList => "Macro parameter list must be a list"
  | templateName v => "Macro name must be a symbol, got " ++ v.inspected
  | formalName v => "Macro formals must be symbols, got " ++ v.inspected
  | duplicateFormal name => "Duplicate formal in macro " ++ name
  | templateArity name expected got =>
    "Macro " ++ name ++ " expects " ++ toString expected ++ " arguments, got " ++ toString got
  | expansionTooDeep bound => "Macro expansion nested deeper than " ++ toString bound
  | expansionUnsettled bound =>
    "Macro expansion did not settle within " ++ toString bound ++ " steps"
  | nestedTooDeeply => "Evaluation nested too deeply"
  | noArguments op => op ++ " requires at least 1 argument"
  | notTwoArguments op got =>
    op ++ " requires exactly 2 arguments, got " ++ toString got
  | notOneArgument op => op ++ " requires exactly 1 argument"
  | notANumber op v => "All arguments to " ++ op ++ " must be numbers, got " ++ v.inspected
  | integerOverflow op =>
    "Integer overflow in " ++ op ++ ": result leaves the signed 64-bit range"
  | floatOverflow op => "Float overflow in " ++ op
  | divisionByZero => "Division by zero"
  | notAList op v => op ++ " requires a list, got " ++ v.inspected
  | emptyList op => op ++ " of an empty list"
  | unpairedArguments got =>
    "material expects element/count pairs, got " ++ toString got ++ " arguments"
  | notAnElement i v =>
    "material argument " ++ toString i ++ " must be an element, got " ++ v.inspected
  | notACount i v =>
    "material argument " ++ toString i ++ " must be an integer count, got " ++ v.inspected
  | countNotPositive tag n =>
    "Count for :" ++ tag ++ " must be positive, got " ++ toString n
  | substituteArity got => "substitute requires 3 arguments, got " ++ toString got
  | substituteFormula v => "substitute requires a formula string, got " ++ v.inspected
  | substituteTags => "substitute requires two element tags"
  | elementNotFound tag formula =>
    "Element " ++ tag ++ " does not occur in " ++ formula
  | combineArity got => "combine requires at least 2 formulas, got " ++ toString got
  | combineFormula v => "combine requires formula strings, got " ++ v.inspected
  | notAFormula v => "Expected a formula string, got " ++ v.inspected
  | unrepresentable => "int too large to convert to float"

end RunError

/-- Any failure to read or to evaluate a program. -/
inductive Error where
  | reading (e : ReadError)
  | running (e : RunError)
  deriving DecidableEq

namespace Error

/-- The kind of an error of the language; none for a limit of the host. -/
def kind? : Error → Option ErrorKind
  | reading e => e.kind?
  | running e => e.kind?

def message : Error → String
  | reading e => e.message
  | running e => e.message

/-- The kind and the message of an error of the language, as a console shows
them; none for a limit of the host. -/
def report? (e : Error) : Option String :=
  e.kind?.map fun k => k.name ++ ": " ++ e.message

end Error

end Formulary
