import Formulary.Error.Running
import Formulary.Reader.Form
import Formulary.Value.Compare

/-
  Arithmetic and comparison.

  Sums, differences and products of integers are exact, and only their result
  has to lie in the signed 64-bit range. One double among the operands makes
  all of them doubles; then the operations are those of doubles from left to
  right, and only an infinite result is refused. Quotients are of doubles.
-/

namespace Formulary

/-- Values that are numbers; booleans are none. -/
inductive Number where
  | int (n : Int)
  | float (x : Float)

def Value.number? : Value → Option Number
  | int n => some (.int n)
  | float x => some (.float x)
  | _ => none

/-- The arguments as numbers, or an error at the first that is none. -/
def checkNumbers (op : String) : List Value → Except RunError (List Number)
  | [] => .ok []
  | v :: vs =>
    match v.number? with
    | none => .error (.notANumber op v)
    | some n => (checkNumbers op vs).map fun ns => n :: ns

/-- The double nearest to an integer, if the integer is not beyond them all. -/
def floatOfInt (n : Int) : Except RunError Float :=
  let x := Float.ofInt n
  if x.isInf then .error .unrepresentable else .ok x

def Number.toFloat : Number → Except RunError Float
  | int n => floatOfInt n
  | float x => .ok x

def Number.int? : Number → Option Int
  | int n => some n
  | float _ => none

/-- Operands brought to one kind. -/
inductive Operands where
  | ints (ns : List Int)
  | floats (xs : List Float)

/-- Doubles when one of the numbers is a double, integers otherwise. -/
def operands (ns : List Number) : Except RunError Operands :=
  match ns.mapM Number.int? with
  | some is => .ok (.ints is)
  | none => (ns.mapM Number.toFloat).map .floats

/-- An integer result, which has to lie in the signed 64-bit range. -/
def checkedInt (op : String) (n : Int) : Except RunError Value :=
  if inInt64 n then .ok (.int n) else .error (.integerOverflow op)

/-- A double as a result, which must not be infinite. -/
def checkedFloat (op : String) (x : Float) : Except RunError Value :=
  if x.isInf then .error (.floatOverflow op) else .ok (.float x)

def arguments (op : String) (args : List Value) : Except RunError Operands :=
  match checkNumbers op args with
  | .error e => .error e
  | .ok ns => operands ns

/-- The sum; zero without operands. -/
def addNumbers (args : List Value) : Except RunError Value :=
  match arguments "+" args with
  | .error e => .error e
  | .ok (.ints ns) => checkedInt "+" (ns.foldl (· + ·) 0)
  | .ok (.floats xs) => checkedFloat "+" (xs.foldl (· + ·) 0.0)

/-- The first operand less the others; alone, its negative. -/
def subNumbers (args : List Value) : Except RunError Value :=
  match arguments "-" args with
  | .error e => .error e
  | .ok (.ints []) | .ok (.floats []) => .error (.noArguments "-")
  | .ok (.ints [n]) => checkedInt "-" (-n)
  | .ok (.ints (n :: ns)) => checkedInt "-" (ns.foldl (· - ·) n)
  | .ok (.floats [x]) => checkedFloat "-" (-x)
  | .ok (.floats (x :: xs)) => checkedFloat "-" (xs.foldl (· - ·) x)

/-- The product; one without operands. -/
def mulNumbers (args : List Value) : Except RunError Value :=
  match arguments "*" args with
  | .error e => .error e
  | .ok (.ints ns) => checkedInt "*" (ns.foldl (· * ·) 1)
  | .ok (.floats xs) => checkedFloat "*" (xs.foldl (· * ·) 1.0)

def divideBy (x : Float) : List Float → Except RunError Float
  | [] => .ok x
  | d :: ds => if d == 0 then .error .divisionByZero else divideBy (x / d) ds

/-- The first operand divided by the others; alone, its reciprocal. -/
def divNumbers (args : List Value) : Except RunError Value :=
  match checkNumbers "/" args with
  | .error e => .error e
  | .ok ns =>
    match ns.mapM Number.toFloat with
    | .error e => .error e
    | .ok [] => .error (.noArguments "/")
    | .ok [x] => (divideBy 1.0 [x]).bind (checkedFloat "/")
    | .ok (x :: xs) => (divideBy x xs).bind (checkedFloat "/")

inductive Comparison where
  | eq
  | lt
  | le
  | gt
  | ge
  deriving DecidableEq, Repr

namespace Comparison

def name : Comparison → String
  | eq => "="
  | lt => "<"
  | le => "<="
  | gt => ">"
  | ge => ">="

/-- Whether two numbers that stand so to each other satisfy the comparison. -/
def holds : Comparison → Ordering → Bool
  | eq, o => o == .eq
  | lt, o => o == .lt
  | le, o => o != .gt
  | gt, o => o == .gt
  | ge, o => o != .lt

/-- Compares two numbers; what is not a number satisfies no comparison. -/
def apply (c : Comparison) (args : List Value) : Except RunError Value :=
  match args with
  | [a, b] =>
    match checkNumbers c.name args with
    | .error e => .error e
    | .ok _ => .ok (.bool ((a.compareNumbers b).any c.holds))
  | _ => .error (.notTwoArguments c.name args.length)

end Comparison

end Formulary
