import Formulary.Error.Running
import Formulary.Text.Replace

/-
  Formulas.

  A formula is a plain text such as `CaTiO3`. It is never normalised: elements
  stand in the order they were given, and repetitions are kept.
-/

namespace Formulary

open Text

/-- A tag and how often it is counted; a count of one is not written. -/
def partText (tag : String) (count : Int) : String :=
  if count = 1 then tag else tag ++ String.ofList (intChars count)

/-- The formula of element and count pairs, the first of them being argument
number `position`. -/
def materialFrom (position : Nat) : List Value → Except RunError String
  | element :: count :: rest =>
    match element with
    | .elem tag =>
      match count with
      | .int n =>
        if n < 1 then .error (.countNotPositive tag n)
        else (materialFrom (position + 2) rest).map fun s => partText tag n ++ s
      | v => .error (.notACount (position + 1) v)
    | v => .error (.notAnElement position v)
  | _ => .ok ""

/-- The formula of element and count pairs. -/
def material (args : List Value) : Except RunError Value :=
  if args.length % 2 = 1 then .error (.unpairedArguments args.length)
  else (materialFrom 1 args).map Value.str

/-- A formula with every occurrence of one tag replaced by another. Digits and
all else stay as they are. -/
def substituteTag (formula old new : String) : Except RunError String :=
  if occursIn old.toList formula.toList then
    .ok (String.ofList (replaceAll old.toList new.toList formula.toList))
  else .error (.elementNotFound old formula)

/-- Replaces one element by another in a formula. -/
def substitute : List Value → Except RunError Value
  | [formula, old, new] =>
    match formula with
    | .str f =>
      match old, new with
      | .elem a, .elem b => (substituteTag f a b).map Value.str
      | _, _ => .error .substituteTags
    | v => .error (.substituteFormula v)
  | args => .error (.substituteArity args.length)

/-- The texts of formulas, or an error at the first value that is none. -/
def formulaTexts : List Value → Except RunError (List String)
  | [] => .ok []
  | .str s :: vs => (formulaTexts vs).map fun ss => s :: ss
  | v :: _ => .error (.combineFormula v)

/-- Two or more formulas side by side. -/
def combine (args : List Value) : Except RunError Value :=
  if args.length < 2 then .error (.combineArity args.length)
  else (formulaTexts args).map fun ss => .str (String.join ss)

end Formulary
