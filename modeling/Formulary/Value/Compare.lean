import Formulary.Value.Basic
import Formulary.Decimal.Shortest

/-
  Comparing values.

  Numbers are compared exactly: an integer and a double as the rational numbers
  they are, no rounding of the integer. A double that is not a number compares
  with nothing, itself included.
-/

namespace Formulary

/-- How the integer `n` stands to the double `x`; `none` when `x` is not a
number. -/
def compareIntFloat (n : Int) (x : Float) : Option Ordering :=
  if x.isNaN then none
  else if x.isInf then some (if x < 0 then .gt else .lt)
  else
    let v := Fraction.ofFloat x
    let scaled : Int := if x < 0 then -(v.num : Int) else v.num
    some (compare (n * v.den) scaled)

def compareFloats (x y : Float) : Option Ordering :=
  if x < y then some .lt else if x == y then some .eq else if y < x then some .gt else none

namespace Value

/-- How two numbers stand to each other; `none` for anything else and for what
is not a number. -/
def compareNumbers : Value → Value → Option Ordering
  | int a, int b => some (compare a b)
  | int a, float b => compareIntFloat a b
  | float a, int b => (compareIntFloat b a).map Ordering.swap
  | float a, float b => compareFloats a b
  | _, _ => none

/-- The number a value counts as when two values are compared for equality: a
boolean is zero or one. -/
def asNumber : Value → Value
  | bool b => int (if b then 1 else 0)
  | v => v

mutual

/-- Whether two values are equal as the language's hosts see them: numbers by
their exact value, lists element by element, anything else only when it is of
the same kind. -/
def same : Value → Value → Bool
  | str a, b => match b with
    | str b => a == b
    | _ => false
  | nil, b => match b with
    | nil => true
    | _ => false
  | sym a, b => match b with
    | sym b => a == b
    | _ => false
  | elem a, b => match b with
    | elem b => a == b
    | _ => false
  | list as, b => match b with
    | list bs => sameList as bs
    | _ => false
  | a, b => a.asNumber.compareNumbers b.asNumber == some .eq

def sameList : List Value → List Value → Bool
  | [], [] => true
  | a :: as, b :: bs => same a b && sameList as bs
  | _, _ => false

end

end Value

end Formulary
