import Formulary.Catalogue
import Formulary.Eval.Basic

/-
  Sessions: programs run one after the other over one state.

  A program is read as a whole before anything of it is evaluated. Its forms
  are then evaluated in order, and a form that ends in an error of the language
  leaves the bindings and the macros as they were before it. The evaluator is
  a parameter, with a state of its own that is never taken back.
-/

namespace Formulary

/-- An evaluator with a state `σ` of its own. -/
abbrev Evaluator (σ : Type) := Value → State × σ → Except RunError Value × (State × σ)

/-- The evaluator of the language, which leaves the state of its host alone. -/
def Evaluator.standard {σ : Type} (lim : Limits) : Evaluator σ := fun form s =>
  let (r, st) := evaluate lim form s.1
  (r, (st, s.2))

/-- Evaluates nothing: records the text of each form, and answers how many were
recorded. -/
def Evaluator.recording : Evaluator (List String) := fun form s =>
  let texts := s.2 ++ [form.readable]
  (.ok (.int texts.length), (s.1, texts))

namespace State

/-- Takes back what happened to bindings and macros since `before`. -/
def rollBack (before now : State) : State :=
  { now with
    scope := before.scope
    templates := before.templates
    log := now.log ++ [.rollingBack] }

end State

/-- Evaluates one form; an error of the language takes its effects back. -/
def commit {σ : Type} (ev : Evaluator σ) : Evaluator σ := fun form s =>
  match ev form s with
  | (.ok v, s') => (.ok v, s')
  | (.error e, (st, x)) =>
    if e.kind?.isSome then (.error e, (s.1.rollBack st, x)) else (.error e, (st, x))

/-- Evaluates forms in order up to the first error. The value is that of the
last form, `last` when there is none. -/
def commitAll {σ : Type} (ev : Evaluator σ) (last : Value) :
    List Value → State × σ → Except RunError Value × (State × σ)
  | [], s => (.ok last, s)
  | form :: forms, s =>
    match commit ev form s with
    | (.ok v, s) => commitAll ev v forms s
    | (.error e, s) => (.error e, s)

/-- Runs a program: nothing of it when it cannot be read. -/
def runProgram {σ : Type} (readLimit : Option Nat) (ev : Evaluator σ) (code : String)
    (s : State × σ) : Except Error Value × (State × σ) :=
  match readAllWithin readLimit code with
  | .error e => (.error (.reading e), s)
  | .ok forms =>
    let (r, s) := commitAll ev .nil forms s
    (r.mapError .running, s)

def constants : Frame := [("pi", .float 3.141592653589793), ("e", .float 2.718281828459045)]

/-- The bindings and macros that every session starts with. -/
def State.initial : State := { scope := .root constants, templates := catalogueTemplates }

/-- How deep programs of a session may nest when they are read. -/
def readNesting : Nat := 980

/-- How deep evaluation in a session may nest. -/
def evalNesting : Nat := 970

/-- A state with the limits that its programs run under. -/
structure Session where
  limits : Limits
  state : State

namespace Session

/-- A new session whose expansions may nest up to `bound`. -/
def new (bound : Int) : Session := ⟨⟨bound, some evalNesting⟩, .initial⟩

/-- Runs a program with an evaluator of the host's choice. -/
def evalWith {σ : Type} (s : Session) (ev : Evaluator σ) (code : String) (x : σ) :
    Except Error Value × (Session × σ) :=
  let (r, (st, x)) := runProgram (some readNesting) ev code (s.state, x)
  (r, ({ s with state := st }, x))

def eval (s : Session) (code : String) : Except Error Value × Session :=
  let (r, (s, _)) := s.evalWith (.standard s.limits) code ()
  (r, s)

/-- Defines or replaces a macro from outside of a program. -/
def register (s : Session) (name : String) (formals : List Value) (body : Value) :
    Except RunError Template × Session :=
  match Template.make name formals body with
  | .error e => (.error e, s)
  | .ok t => (.ok t, { s with state := (Run.addTemplate t s.state).2 })

def expandAll (s : Session) (form : Value) : Except RunError Value :=
  s.state.templates.expandAll s.limits.expansions
    (Templates.roomAt s.limits.expansions s.state.depth) form

def bindings (s : Session) : Frame := s.state.scope.frame

end Session

/-- The macros that are not those of the catalogue, in the order of their
names. -/
def State.ownTemplates (st : State) : List Template :=
  (st.templates.sorted.filter fun p => catalogueTemplates.get? p.1 ≠ some p.2).map Prod.snd

end Formulary
