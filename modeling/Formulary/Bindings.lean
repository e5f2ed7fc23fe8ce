/-
  Names bound to things, in the order in which the names were first bound.

  Binding a name again keeps its place. The view is `get?`, and `get?_put` says
  what a binding changes.
-/

namespace Formulary

/-- An association list without order of its own but the order of arrival. -/
abbrev Bindings (α : Type) := List (String × α)

namespace Bindings

variable {α : Type}

/-- What `name` is bound to. -/
def get? (name : String) : Bindings α → Option α
  | [] => none
  | (n, a) :: rest => if n = name then some a else get? name rest

/-- Binds `name` to `a`: in its place when it is bound, at the end when not. -/
def put (name : String) (a : α) : Bindings α → Bindings α
  | [] => [(name, a)]
  | (n, b) :: rest => if n = name then (n, a) :: rest else (n, b) :: put name a rest

def has (name : String) (b : Bindings α) : Bool := (get? name b).isSome

def drop (name : String) (b : Bindings α) : Bindings α := b.filter fun p => p.1 ≠ name

def keys (b : Bindings α) : List String := b.map Prod.fst

def sorted (b : Bindings α) : Bindings α :=
  b.mergeSort fun p q => p.1 ≤ q.1

@[simp] theorem get?_nil (name : String) : get? name ([] : Bindings α) = none := rfl

theorem get?_cons (name n : String) (a : α) (b : Bindings α) :
    get? name ((n, a) :: b) = if n = name then some a else get? name b := rfl

/-- A binding changes what its own name is bound to and nothing else. -/
theorem get?_put (name n : String) (a : α) (b : Bindings α) :
    get? n (put name a b) = if name = n then some a else get? n b := by
  induction b with
  | nil => simp [put, get?]
  | cons p rest ih =>
    obtain ⟨m, c⟩ := p
    by_cases hm : m = name
    · subst hm
      by_cases hn : m = n <;> simp [put, get?_cons, hn]
    · by_cases hn : m = n
      · subst hn
        simp [put, get?_cons, hm, Ne.symm hm]
      · simp [put, get?_cons, hm, hn, ih]

end Bindings

end Formulary
