import Formulary.Bindings
import Formulary.Primitive.Formula
import Formulary.Primitive.Number

/-
  The primitives: operations on evaluated arguments.
-/

namespace Formulary

inductive Primitive where
  | add
  | sub
  | mul
  | div
  | compare (c : Comparison)
  | list
  | first
  | rest
  | material
  | substitute
  | combine
  deriving DecidableEq, Repr

namespace Primitive

/-- The names of the primitives; two of them have two names. -/
def table : List (String × Primitive) :=
  [("+", add), ("-", sub), ("*", mul), ("/", div), ("=", compare .eq), ("<", compare .lt),
   ("<=", compare .le), (">", compare .gt), (">=", compare .ge), ("list", list),
   ("car", first), ("first", first), ("cdr", rest), ("rest", rest), ("material", material),
   ("substitute", substitute), ("combine", combine)]

def ofName? (name : String) : Option Primitive := Bindings.get? name table

/-- The primitive that a value refers to: a symbol that names one. -/
def ofValue? : Value → Option Primitive
  | .sym name => ofName? name
  | _ => none

def names : List String := Bindings.keys (Bindings.sorted table)

/-- The head and the tail of the one argument, which has to be a list with
something in it. -/
def takeApart (op : String) : List Value → Except RunError (Value × List Value)
  | [.list (v :: vs)] => .ok (v, vs)
  | [.list []] => .error (.emptyList op)
  | [v] => .error (.notAList op v)
  | _ => .error (.notOneArgument op)

/-- What a primitive makes of its arguments. -/
def apply : Primitive → List Value → Except RunError Value
  | add, args => addNumbers args
  | sub, args => subNumbers args
  | mul, args => mulNumbers args
  | div, args => divNumbers args
  | compare c, args => c.apply args
  | list, args => .ok (.list args)
  | first, args => (takeApart "car" args).map Prod.fst
  | rest, args => (takeApart "cdr" args).map fun p => .list p.2
  | material, args => Formulary.material args
  | substitute, args => Formulary.substitute args
  | combine, args => Formulary.combine args

end Primitive

end Formulary
