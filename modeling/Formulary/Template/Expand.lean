import Formulary.Template.Basic

/-
  Expanding macro calls.

  `expandOnce` replaces a call by its expansion, `expandHead` goes on until the
  form is no call, and `expandAll` also expands the parts of what is left, but
  not inside `quote`. Expansions nest: `room` is how many more may be nested
  where an expansion starts, `bound` how many there are at all. Finding the
  head is one, and so is the descent into the parts of a list.
-/

namespace Formulary.Templates

/-- How many expansions may still be nested where `depth` of them are. -/
def roomAt (bound : Int) (depth : Nat) : Nat := (bound - depth).toNat

/-- The expansion of a call; any other form as it is. -/
def expandOnce (ts : Templates) (form : Value) : Except RunError Value :=
  match ts.call? form with
  | some (t, args) => t.apply args
  | none => .ok form

/-- Expands until the form is no call, looking at most `steps` times. -/
def settle (ts : Templates) (bound : Int) : Nat → Value → Except RunError Value
  | 0, _ => .error (.expansionUnsettled bound)
  | steps + 1, form =>
    match ts.call? form with
    | none => .ok form
    | some (t, args) =>
      match t.apply args with
      | .error e => .error e
      | .ok next => settle ts bound steps next

/-- Expands the head of a form until it is no call. -/
def expandHead (ts : Templates) (bound : Int) (room : Nat) (form : Value) : Except RunError Value :=
  if room = 0 then .error (.expansionTooDeep bound) else settle ts bound bound.toNat form

def isQuoted : List Value → Bool
  | .sym "quote" :: _ => true
  | _ => false

/-- Expands a form and all its parts, quoted data apart. -/
def expandAll (ts : Templates) (bound : Int) : Nat → Value → Except RunError Value
  | 0, _ => .error (.expansionTooDeep bound)
  | room + 1, form =>
    match expandHead ts bound (room + 1) form with
    | .ok (.list items) =>
      if isQuoted items then .ok (.list items)
      else (items.mapM (expandAll ts bound room)).map Value.list
    | r => r

end Formulary.Templates
