import Formulary.Scope
import Formulary.Template.Basic

/-
  The state of an evaluation, and computations over it.

  A computation ends in a value or in an error, and in a state either way: what
  was bound or defined before an error stays, until someone takes it back.
-/

namespace Formulary

/-- What a run records for those who watch it. -/
inductive Note where
  | redefining (name : String)
  | rollingBack
  | loading (path : String)
  deriving DecidableEq, Repr

/-- The bindings and macros that evaluation works with, how many expansions are
nested at present, and what was recorded so far. -/
structure State where
  scope : Scope
  templates : Templates
  depth : Nat := 0
  log : List Note := []
  deriving DecidableEq

/-- How far evaluation may go: `expansions` macro expansions nested in each
other, and evaluations nested `nesting` deep, if that is bounded at all. -/
structure Limits where
  expansions : Int
  nesting : Option Nat := none

/-- A computation over the state that ends in a value or an error. -/
def Run (α : Type) := State → Except RunError α × State

namespace Run

variable {α β : Type}

def ret (a : α) : Run α := fun st => (.ok a, st)

def fail (e : RunError) : Run α := fun st => (.error e, st)

/-- Goes on with the value of the first computation, if there is one. -/
def andThen (m : Run α) (f : α → Run β) : Run β := fun st =>
  match m st with
  | (.ok a, st) => f a st
  | (.error e, st) => (.error e, st)

instance : Monad Run where
  pure := ret
  bind := andThen

/-- A result that does not touch the state. -/
def lift (r : Except RunError α) : Run α := fun st => (r, st)

def read (f : State → α) : Run α := fun st => (.ok (f st), st)

def update (f : State → State) : Run Unit := fun st => (.ok (), f st)

/-- Runs one expansion deeper. -/
def nested (m : Run α) : Run α := fun st =>
  let (r, st) := m { st with depth := st.depth + 1 }
  (r, { st with depth := st.depth - 1 })

/-- Runs in a frame of its own inside of the current one. -/
def inFrame (frame : Frame) (m : Run α) : Run α := fun st =>
  let (r, st) := m { st with scope := st.scope.push frame }
  (r, { st with scope := st.scope.pop })

def define (name : String) (v : Value) : Run Unit :=
  update fun st => { st with scope := st.scope.define name v }

/-- Defines a macro, and records it when there was one of that name. -/
def addTemplate (t : Template) : Run Unit :=
  update fun st =>
    { st with
      templates := st.templates.put t.name t
      log := if st.templates.has t.name then st.log ++ [.redefining t.name] else st.log }

/-- Gives up when evaluation is nested too deeply. -/
def within (lim : Limits) (height : Nat) (m : Run α) : Run α :=
  if lim.nesting.any fun n => n < height then fail .nestedTooDeeply else m

@[simp] theorem pure_apply (a : α) (st : State) : (pure a : Run α) st = (.ok a, st) := rfl

@[simp] theorem fail_apply (e : RunError) (st : State) :
    (fail e : Run α) st = (.error e, st) := rfl

@[simp] theorem lift_apply (r : Except RunError α) (st : State) : lift r st = (r, st) := rfl

@[simp] theorem read_apply (f : State → α) (st : State) : read f st = (.ok (f st), st) := rfl

@[simp] theorem update_apply (f : State → State) (st : State) :
    update f st = (.ok (), f st) := rfl

theorem bind_apply (m : Run α) (f : α → Run β) (st : State) :
    (m >>= f) st = match m st with
      | (.ok a, st) => f a st
      | (.error e, st) => (.error e, st) := rfl

@[simp] theorem within_unbounded (bound height : Nat) (m : Run α) :
    within ⟨bound, none⟩ height m = m := rfl

end Run

end Formulary
