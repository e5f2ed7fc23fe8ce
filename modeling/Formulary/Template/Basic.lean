import Formulary.Bindings
import Formulary.Error.Running

/-
  Templates: macros that replace their formals by the argument forms.

  Replacing is simultaneous: what an argument brings in is not looked at again.
  A template is defined with distinct formals, so an application gives each
  formal one argument.
-/

namespace Formulary

/-- A macro: its formals are replaced in the body by the forms of a call. -/
structure Template where
  name : String
  formals : List String
  body : Value
  deriving DecidableEq

/-- Macros by name. -/
abbrev Templates := Bindings Template

namespace Value

mutual

/-- The value with every bound symbol replaced, at any depth. -/
def subst (b : Bindings Value) : Value → Value
  | sym name => (b.get? name).getD (sym name)
  | list items => list (substAll b items)
  | v => v

/-- The values of a list with every bound symbol replaced. -/
def substAll (b : Bindings Value) : List Value → List Value
  | [] => []
  | v :: vs => subst b v :: substAll b vs

end

/-- The name that a value gives where a host or a program names a macro or a
formal: a symbol's, or a text taken as one. -/
def asName? : Value → Option String
  | sym name => some name
  | str s => some s
  | _ => none

end Value

namespace Template

/-- The names of formals, or an error at the first that is no name. -/
def formalNames : List Value → Except RunError (List String)
  | [] => .ok []
  | v :: vs =>
    match v.asName? with
    | none => .error (.formalName v)
    | some n => (formalNames vs).map fun ns => n :: ns

/-- A template with the given name, formals and body, if the formals are
distinct names. -/
def make (name : String) (formals : List Value) (body : Value) : Except RunError Template :=
  match formalNames formals with
  | .error e => .error e
  | .ok names => if names.Nodup then .ok ⟨name, names, body⟩ else .error (.duplicateFormal name)

/-- A template whose name a host gives as a value. -/
def makeNamed (name : Value) (formals : List Value) (body : Value) : Except RunError Template :=
  match name.asName? with
  | none => .error (.templateName name)
  | some n => make n formals body

def arity (t : Template) : Nat := t.formals.length

/-- The form that a call with these arguments stands for. -/
def apply (t : Template) (args : List Value) : Except RunError Value :=
  if args.length = t.arity then .ok (t.body.subst (t.formals.zip args))
  else .error (.templateArity t.name t.arity args.length)

/-- The form that defines the template. -/
def definition (t : Template) : Value :=
  .list [.sym "defmacro", .sym t.name, .list (t.formals.map Value.sym), t.body]

def text (t : Template) : String := t.definition.readable

end Template

namespace Templates

def named? (ts : Templates) : Value → Option Template
  | .sym name => ts.get? name
  | _ => none

/-- The template and the arguments of a call, if the form is one. -/
def call? (ts : Templates) : Value → Option (Template × List Value)
  | .list (head :: args) => (ts.named? head).map fun t => (t, args)
  | _ => none

def names (ts : Templates) : List String := ts.sorted.keys

end Templates

end Formulary
