/-
  Values of the formula language.

  A program is made of the same values that it computes: a form is a value that
  is about to be evaluated. Lists are proper and the empty list is not `nil`; an
  element such as `:Fe` is data of its own and no symbol.
-/

namespace Formulary

/-- A form, or what evaluating one gives. -/
inductive Value where
  | int (n : Int)
  | float (x : Float)
  | str (s : String)
  | bool (b : Bool)
  | nil
  | sym (name : String)
  | elem (tag : String)
  | list (items : List Value)
  deriving Inhabited, Repr

namespace Value

mutual

/-- Equality of values is decidable; two doubles are equal when their bits are. -/
def decEq : (a b : Value) → Decidable (a = b)
  | int a, int b => decidable_of_iff (a = b) (by simp)
  | float a, float b => decidable_of_iff (a = b) (by simp)
  | str a, str b => decidable_of_iff (a = b) (by simp)
  | bool a, bool b => decidable_of_iff (a = b) (by simp)
  | nil, nil => isTrue rfl
  | sym a, sym b => decidable_of_iff (a = b) (by simp)
  | elem a, elem b => decidable_of_iff (a = b) (by simp)
  | list a, list b =>
    match decEqList a b with
    | isTrue h => isTrue (by rw [h])
    | isFalse h => isFalse (by simpa using h)
  | int _, float _ | int _, str _ | int _, bool _ | int _, nil | int _, sym _
  | int _, elem _ | int _, list _ => isFalse (by simp)
  | float _, int _ | float _, str _ | float _, bool _ | float _, nil | float _, sym _
  | float _, elem _ | float _, list _ => isFalse (by simp)
  | str _, int _ | str _, float _ | str _, bool _ | str _, nil | str _, sym _
  | str _, elem _ | str _, list _ => isFalse (by simp)
  | bool _, int _ | bool _, float _ | bool _, str _ | bool _, nil | bool _, sym _
  | bool _, elem _ | bool _, list _ => isFalse (by simp)
  | nil, int _ | nil, float _ | nil, str _ | nil, bool _ | nil, sym _
  | nil, elem _ | nil, list _ => isFalse (by simp)
  | sym _, int _ | sym _, float _ | sym _, str _ | sym _, bool _ | sym _, nil
  | sym _, elem _ | sym _, list _ => isFalse (by simp)
  | elem _, int _ | elem _, float _ | elem _, str _ | elem _, bool _ | elem _, nil
  | elem _, sym _ | elem _, list _ => isFalse (by simp)
  | list _, int _ | list _, float _ | list _, str _ | list _, bool _ | list _, nil
  | list _, sym _ | list _, elem _ => isFalse (by simp)

def decEqList : (a b : List Value) → Decidable (a = b)
  | [], [] => isTrue rfl
  | [], _ :: _ => isFalse (by simp)
  | _ :: _, [] => isFalse (by simp)
  | a :: as, b :: bs =>
    match decEq a b, decEqList as bs with
    | isTrue h, isTrue hs => isTrue (by rw [h, hs])
    | isFalse h, _ => isFalse (by simp [h])
    | _, isFalse h => isFalse (by simp [h])

end

instance : DecidableEq Value := decEq

/-- The form that keeps `v` from being evaluated. -/
def quote (v : Value) : Value := list [sym "quote", v]

/-- Everything but `#f` and `nil` counts as true. -/
def isTruthy : Value → Bool
  | bool false => false
  | nil => false
  | _ => true

end Value

end Formulary
