/-
  The special forms of the language.

  A list headed by one of their names is evaluated by a rule of its own; no
  macro and no binding can take such a name's place at the head of a list.
-/

namespace Formulary

inductive SpecialForm where
  | define
  | cond
  | quote
  | begin
  | letIn
  | template
  | expandOnce
  | expandFully
  deriving DecidableEq, Repr

namespace SpecialForm

/-- Every special form, in the order in which they are listed to users. -/
def all : List SpecialForm :=
  [define, cond, quote, begin, letIn, template, expandOnce, expandFully]

def name : SpecialForm → String
  | define => "define"
  | cond => "if"
  | quote => "quote"
  | begin => "begin"
  | letIn => "let"
  | template => "defmacro"
  | expandOnce => "macroexpand-1"
  | expandFully => "macroexpand"

def ofName? (name : String) : Option SpecialForm := all.find? fun f => f.name = name

theorem ofName?_name (f : SpecialForm) : ofName? f.name = some f := by
  cases f <;> decide

theorem name_of_ofName? {n : String} {f : SpecialForm} (h : ofName? n = some f) :
    f.name = n := by
  simpa [ofName?] using List.find?_some h

end SpecialForm

end Formulary
