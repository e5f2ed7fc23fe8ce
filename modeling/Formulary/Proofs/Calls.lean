import Formulary.Proofs.Evaluation

/-
  Evaluation as a tree of calls.

  The evaluator and the full expansion of macros call themselves. `body` says
  what one call does, without a bound on how deep calls go: it stops at each
  call that it makes, and goes on with what that call came to. The number of
  nested expansions is counted in the state, and an expansion that would take it
  beyond the bound is refused.

  `Runs` follows the calls to their end, so there is a run just when there is a
  finite tree of calls. A run has one outcome and one tree (`Runs.unique`).
-/

namespace Formulary

/-- A call of the evaluator, or of the full expansion of macros. -/
inductive Call where
  | evaluate (form : Value)
  | expandAll (form : Value)

def Call.form : Call → Value
  | evaluate form => form
  | expandAll form => form

/-- Where a computation stands: it has ended, or it makes a call and goes on with
what that gives. -/
inductive Step (α : Type) where
  | done (r : Except RunError α) (st : State)
  | call (c : Call) (st : State) (next : Except RunError Value → State → Step α)

namespace Step

variable {α β : Type}

def andThen (f : α → State → Step β) : Step α → Step β
  | done (.ok a) st => f a st
  | done (.error e) st => done (.error e) st
  | call c st next => call c st fun r st => andThen f (next r st)

/-- Changes the state in the end, whatever the outcome. -/
def after (f : State → State) : Step α → Step α
  | done r st => done r (f st)
  | call c st next => call c st fun r st => after f (next r st)

end Step

/-- A computation over the state that stops at each call. -/
def Script (α : Type) := State → Step α

namespace Script

variable {α β : Type}

instance : Monad Script where
  pure a := fun st => .done (.ok a) st
  bind s f := fun st => (s st).andThen f

def ofRun (m : Run α) : Script α := fun st => .done (m st).1 (m st).2

def call (c : Call) : Script Value := fun st => .call c st .done

/-- Runs one expansion deeper, unless there are too many already. -/
def guarded (bound : Int) (s : Script α) : Script α := fun st =>
  if bound < st.depth + 1 then .done (.error (.expansionTooDeep bound)) st
  else (s { st with depth := st.depth + 1 }).after fun st => { st with depth := st.depth - 1 }

def inFrame (frame : Frame) (s : Script α) : Script α := fun st =>
  (s { st with scope := st.scope.push frame }).after fun st => { st with scope := st.scope.pop }

def callAll (call : Value → Call) : List Value → Script (List Value)
  | [] => pure []
  | f :: fs => do
    let v ← Script.call (call f)
    let vs ← callAll call fs
    pure (v :: vs)

/-- The value of the last form, `last` when there is none. -/
def callBody (last : Value) : List Value → Script Value
  | [] => pure last
  | f :: fs => do
    let v ← call (.evaluate f)
    callBody v fs

end Script

open Script

/-! What one call does. -/

def defineBody : List Value → Script Value
  | [name, form] =>
    match name with
    | .sym n => do
      let v ← call (.evaluate form)
      ofRun (Run.define n v)
      pure v
    | target => ofRun (Run.fail (.defineTarget target))
  | _ => ofRun (Run.fail (.formArity .define))

def condBody : List Value → Script Value
  | [test, yes] => do
    let t ← call (.evaluate test)
    if t.isTruthy then call (.evaluate yes) else pure .nil
  | [test, yes, no] => do
    let t ← call (.evaluate test)
    if t.isTruthy then call (.evaluate yes) else call (.evaluate no)
  | _ => ofRun (Run.fail (.formArity .cond))

def bindingsBody (frame : Frame) : List Value → Script Frame
  | [] => pure frame
  | .list [.sym name, form] :: bs => do
    let v ← call (.evaluate form)
    bindingsBody (frame.put name v) bs
  | b :: _ => ofRun (Run.fail (.malformedBinding b))

def letBody : List Value → Script Value
  | bindings :: body =>
    if body.isEmpty then ofRun (Run.fail (.formArity .letIn))
    else match bindings with
      | .list bs => do
        let frame ← bindingsBody [] bs
        inFrame frame (callBody .nil body)
      | _ => ofRun (Run.fail .bindingsNotAList)
  | [] => ofRun (Run.fail (.formArity .letIn))

def specialBody : SpecialForm → List Value → Script Value
  | .define, tail => defineBody tail
  | .cond, tail => condBody tail
  | .quote, tail => ofRun (evalQuote tail)
  | .begin, tail => callBody .nil tail
  | .letIn, tail => letBody tail
  | .template, tail => ofRun (evalTemplate tail)
  | .expandOnce, tail => ofRun (evalExpansion .expandOnce Templates.expandOnce tail)
  | .expandFully, [v] => call (.expandAll (unquoted v))
  | .expandFully, _ => ofRun (Run.fail (.formArity .expandFully))

def operatorBody (head : Value) : Script Primitive :=
  match Primitive.ofValue? head with
  | some p => pure p
  | none => do
    match ← ofRun (Run.read (isUnbound head)) with
    | some name => ofRun (Run.fail (.unknownOperator name))
    | none => do
      let target ← call (.evaluate head)
      match Primitive.ofValue? target with
      | some p => pure p
      | none => ofRun (Run.fail (.notAnOperator target))

def applyBody (bound : Int) (head : Value) (tail : List Value) : Script Value := do
  match ← ofRun (Run.read fun st => st.templates.named? head) with
  | some t => do
    let form ← ofRun (Run.lift (t.apply tail))
    guarded bound (call (.evaluate form))
  | none => do
    let op ← operatorBody head
    let args ← callAll .evaluate tail
    ofRun (Run.lift (op.apply args))

/-- What a call of the evaluator does. -/
def evaluateBody (bound : Int) : Value → Script Value
  | .sym name => ofRun (resolve name)
  | .list (head :: tail) =>
    match SpecialForm.ofHead? head with
    | some f => specialBody f tail
    | none => applyBody bound head tail
  | v => pure v

/-- Settles the head of a form with the macros there are. -/
def settleHead (bound : Int) (form : Value) : Run Value := do
  let ts ← Run.read State.templates
  Run.lift (ts.settle bound bound.toNat form)

/-- What a call of the full expansion does: the head is settled inside of one
expansion and the parts are expanded inside of another. -/
def expandAllBody (bound : Int) (form : Value) : Script Value := do
  match ← guarded bound (ofRun (settleHead bound form)) with
  | .list items =>
    if Templates.isQuoted items then pure (.list items)
    else guarded bound do
      let vs ← callAll .expandAll items
      pure (.list vs)
  | v => pure v

def Call.body (bound : Int) : Call → Script Value
  | evaluate form => evaluateBody bound form
  | expandAll form => expandAllBody bound form

/-! Runs and their trees. -/

/-- A call, the number of expansions it is nested in, and the calls it makes. -/
inductive CallTree where
  | node (call : Call) (depth : Nat) (calls : List CallTree)

/-- A computation comes to an outcome and a state, through calls. -/
inductive Runs (bound : Int) :
    {α : Type} → Step α → Except RunError α → State → List CallTree → Prop where
  | done {α : Type} (r : Except RunError α) (st : State) : Runs bound (.done r st) r st []
  | call {α : Type} {c : Call} {st st' st'' : State} {next : Except RunError Value → State → Step α}
      {r : Except RunError Value} {r' : Except RunError α} {calls rest : List CallTree} :
      Runs bound (c.body bound st) r st' calls → Runs bound (next r st') r' st'' rest →
      Runs bound (.call c st next) r' st'' (.node c st.depth calls :: rest)

namespace Runs

variable {bound : Int} {α β : Type}

theorem andThen {s : Step α} {a : α} {st st' : State} {r : Except RunError β}
    {trees rest : List CallTree} {f : α → State → Step β} (h : Runs bound s (.ok a) st trees)
    (hf : Runs bound (f a st) r st' rest) : Runs bound (s.andThen f) r st' (trees ++ rest) := by
  generalize hr : Except.ok a = r₀ at h
  induction h with
  | done r₀ st => cases hr; exact hf
  | call hbody _ _ ih => exact .call hbody (ih hf hr)

theorem andThen_error {s : Step α} {e : RunError} {st : State} {trees : List CallTree}
    (h : Runs bound s (.error e) st trees) (f : α → State → Step β) :
    Runs bound (s.andThen f) (.error e) st trees := by
  generalize hr : Except.error e = r₀ at h
  induction h with
  | done r₀ st => cases hr; exact .done _ _
  | call hbody _ _ ih => exact .call hbody (ih f hr)

theorem after {s : Step α} {r : Except RunError α} {st : State} {trees : List CallTree}
    (h : Runs bound s r st trees) (f : State → State) :
    Runs bound (s.after f) r (f st) trees := by
  induction h with
  | done r st => exact .done r (f st)
  | call hbody _ _ ih => exact .call hbody ih

theorem unique {s : Step α} {r : Except RunError α} {st : State} {trees : List CallTree}
    (h : Runs bound s r st trees) : ∀ {r' : Except RunError α} {st' : State}
    {trees' : List CallTree}, Runs bound s r' st' trees' → r = r' ∧ st = st' ∧ trees = trees' := by
  induction h with
  | done r st =>
    intro r' st' trees' h'
    cases h'
    exact ⟨rfl, rfl, rfl⟩
  | call _ _ ihbody ihnext =>
    intro r' st' trees' h'
    cases h' with
    | call hbody hnext =>
      -- the call has one outcome, so the rest starts at the same place
      obtain ⟨rfl, rfl, rfl⟩ := ihbody hbody
      obtain ⟨rfl, rfl, rfl⟩ := ihnext hnext
      exact ⟨rfl, rfl, rfl⟩

end Runs

end Formulary
