import Formulary.Eval.Run
import Formulary.Primitive.Basic
import Formulary.Template.Expand

/-
  The evaluator.

  A list is taken by its head: a special form has a rule of its own, a macro
  call is replaced by its expansion, and anything else has to come down to a
  primitive that is applied to the values of the arguments, taken from left to
  right. `evalWith` works by recursion on the form and leaves expansions to
  the computation it is given; `evalAt` closes the loop by recursion on the
  room, the number of expansions that may still be nested. So evaluation ends,
  whatever macros there are or come to be.

  Heights count how deep the evaluation is nested: an argument, an operator or
  a part of a special form lies two below its list, an expansion one.
-/

namespace Formulary

def SpecialForm.ofHead? : Value → Option SpecialForm
  | .sym name => ofName? name
  | _ => none

/-- What a symbol evaluates to: its binding, or itself when it is not bound and
names a primitive. -/
def resolve (name : String) : Run Value := do
  match ← Run.read fun st => st.scope.lookup name with
  | some v => pure v
  | none => if (Primitive.ofName? name).isSome then pure (.sym name) else Run.fail (.unbound name)

/-- The form that an operand of the expanding forms stands for: a quoted form is
taken without its quote. -/
def unquoted : Value → Value
  | .list [.sym "quote", form] => form
  | form => form

def evalQuote : List Value → Run Value
  | [v] => pure v
  | _ => Run.fail (.formArity .quote)

/-- Defines the macro that the parts of a `defmacro` describe. -/
def evalTemplate : List Value → Run Value
  | [name, formals, body] =>
    match name with
    | .sym n =>
      match formals with
      | .list fs => do
        let t ← Run.lift (Template.make n fs body)
        Run.addTemplate t
        pure .nil
      | _ => Run.fail .formalsNotAList
    | v => Run.fail (.templateTarget v)
  | _ => Run.fail (.formArity .template)

/-- The operand of one of the expanding forms, expanded by `expand`. -/
def evalExpansion (form : SpecialForm) (expand : Templates → Value → Except RunError Value) :
    List Value → Run Value
  | [v] => do
    let ts ← Run.read State.templates
    Run.lift (expand ts (unquoted v))
  | _ => Run.fail (.formArity form)

def isUnbound (head : Value) (st : State) : Option String :=
  match head with
  | .sym name => if (st.scope.lookup name).isNone then some name else none
  | _ => none

section

variable (lim : Limits) (room : Nat) (expansion : Nat → Value → Run Value)

mutual

/-- The value of a form at a height. Expansions of macro calls are evaluated by
`expansion`. -/
def evalWith (height : Nat) : Value → Run Value
  | .sym name => resolve name
  | .list (head :: tail) => Run.within lim height <|
    match SpecialForm.ofHead? head with
    | some .define => evalDefine height tail
    | some .cond => evalCond height tail
    | some .quote => evalQuote tail
    | some .begin => evalBody height .nil tail
    | some .letIn => evalLet height tail
    | some .template => evalTemplate tail
    | some .expandOnce => evalExpansion .expandOnce Templates.expandOnce tail
    | some .expandFully =>
      evalExpansion .expandFully (fun ts => ts.expandAll lim.expansions room) tail
    | none => do
      match ← Run.read fun st => st.templates.named? head with
      | some t => do
        let form ← Run.lift (t.apply tail)
        expansion (height + 1) form
      | none => do
        let op ←
          match Primitive.ofValue? head with
          | some p => pure p
          | none => do
            match ← Run.read (isUnbound head) with
            | some name => Run.fail (.unknownOperator name)
            | none => do
              let target ← evalWith (height + 2) head
              match Primitive.ofValue? target with
              | some p => pure p
              | none => Run.fail (.notAnOperator target)
        let args ← evalArgs (height + 2) tail
        Run.lift (op.apply args)
  | v => pure v

/-- The values of forms, from left to right. -/
def evalArgs (height : Nat) : List Value → Run (List Value)
  | [] => pure []
  | f :: fs => do
    let v ← evalWith height f
    let vs ← evalArgs height fs
    pure (v :: vs)

/-- The value of the last form, `last` when there is none. -/
def evalBody (height : Nat) (last : Value) : List Value → Run Value
  | [] => pure last
  | f :: fs => do
    let v ← evalWith (height + 2) f
    evalBody height v fs

/-- Binds the value of a form in the current frame. -/
def evalDefine (height : Nat) : List Value → Run Value
  | [name, form] =>
    match name with
    | .sym n => do
      let v ← evalWith (height + 2) form
      Run.define n v
      pure v
    | target => Run.fail (.defineTarget target)
  | _ => Run.fail (.formArity .define)

/-- Evaluates one of two forms; a missing second one is `nil`. -/
def evalCond (height : Nat) : List Value → Run Value
  | [test, yes] => do
    let t ← evalWith (height + 2) test
    if t.isTruthy then evalWith (height + 2) yes else pure .nil
  | [test, yes, no] => do
    let t ← evalWith (height + 2) test
    if t.isTruthy then evalWith (height + 2) yes else evalWith (height + 2) no
  | _ => Run.fail (.formArity .cond)

/-- Evaluates the binding forms in the current frame and the body in a frame
that holds the bindings. -/
def evalLet (height : Nat) : List Value → Run Value
  | bindings :: body =>
    if body.isEmpty then Run.fail (.formArity .letIn)
    else match bindings with
      | .list bs => do
        let frame ← evalBindings height [] bs
        Run.inFrame frame (evalBody height .nil body)
      | _ => Run.fail .bindingsNotAList
  | [] => Run.fail (.formArity .letIn)

/-- The frame of a list of `(name form)` pairs, after the bindings of `frame`. -/
def evalBindings (height : Nat) (frame : Frame) : List Value → Run Frame
  | [] => pure frame
  | .list [.sym name, form] :: bs => do
    let v ← evalWith (height + 2) form
    evalBindings height (frame.put name v) bs
  | b :: _ => Run.fail (.malformedBinding b)

end

end

/-- The value of a form at a height, with `room` for nested expansions. -/
def evalAt (lim : Limits) : Nat → Nat → Value → Run Value
  | 0 => evalWith lim 0 fun _ _ => Run.fail (.expansionTooDeep lim.expansions)
  | room + 1 => evalWith lim (room + 1) fun height form =>
    Run.nested (evalAt lim room height form)

/-- The value of a form, or the error it ends in, and the state afterwards. -/
def evaluate (lim : Limits) (form : Value) : Run Value := fun st =>
  evalAt lim (Templates.roomAt lim.expansions st.depth) 0 form st

end Formulary
