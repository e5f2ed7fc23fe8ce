import Formulary.Eval.Basic
import Formulary.Proofs.Expansion

/-
  The evaluator by its equations.

  One equation for each shape of a form, in terms of the evaluator itself, so
  that nothing that is proved about it has to open its definition: atoms
  (`evalWith_atom`), lists headed by a special form (`evalWith_special`), and
  the other lists (`evalWith_apply`), which are macro calls or applications of
  an operator. `evalAt_eq` says how the expansions are evaluated.
-/

namespace Formulary

instance : LawfulMonad Run := LawfulMonad.mk' Run
  (fun m => by
    funext st
    show (m >>= fun a => pure (id a)) st = m st
    rw [Run.bind_apply]
    rcases m st with ⟨e | a, st'⟩ <;> rfl)
  (fun _ _ => rfl)
  (fun m f g => by
    funext st
    simp only [Run.bind_apply]
    rcases m st with ⟨e | a, st'⟩ <;> rfl)

theorem Run.bind_eq_ok {α β : Type} {m : Run α} {f : α → Run β} {st st' : State} {b : β}
    (h : (m >>= f) st = (.ok b, st')) :
    ∃ a mid, m st = (.ok a, mid) ∧ f a mid = (.ok b, st') := by
  rw [Run.bind_apply] at h
  generalize m st = p at h ⊢
  obtain ⟨r, mid⟩ := p
  cases r with
  | error e => cases h
  | ok a => exact ⟨a, mid, rfl, h⟩

theorem Run.depth_nested {α : Type} {m : Run α} {st : State}
    (h : (m { st with depth := st.depth + 1 }).2.depth = st.depth + 1) :
    (Run.nested m st).2.depth = st.depth := by
  show (m { st with depth := st.depth + 1 }).2.depth - 1 = st.depth
  rw [h, Nat.add_sub_cancel]

theorem Run.within_congr {α : Type} {lim : Limits} {height : Nat} {m m' : Run α} {st : State}
    (h : m st = m' st) : Run.within lim height m st = Run.within lim height m' st := by
  unfold Run.within
  split
  · rfl
  · exact h

theorem ofName?_of_primitive {name : String} {p : Primitive}
    (h : Primitive.ofName? name = some p) : SpecialForm.ofName? name = none := by
  have hnames : ∀ q ∈ Primitive.table, SpecialForm.ofName? q.1 = none := by decide +kernel
  exact hnames (name, p) (Bindings.mem_of_get? h)

theorem unquoted_eq_or_part (v : Value) : unquoted v = v ∨ Value.Part (unquoted v) v := by
  unfold unquoted
  split
  · exact .inr (.item (List.mem_cons_of_mem _ List.mem_cons_self))
  · exact .inl rfl

/-- How an expansion is evaluated where `room` of them may still be nested. -/
def expansionAt (lim : Limits) : Nat → Nat → Value → Run Value
  | 0 => fun _ _ => Run.fail (.expansionTooDeep lim.expansions)
  | room + 1 => fun height form => Run.nested (evalAt lim room height form)

theorem evalAt_eq (lim : Limits) (room : Nat) :
    evalAt lim room = evalWith lim room (expansionAt lim room) := by
  cases room with
  | zero => rw [evalAt]; rfl
  | succ room => rw [evalAt]; rfl

/-- The primitive that a head stands for, the head being evaluated by `ev` when
it is no primitive's name. -/
def operator (ev : Value → Run Value) (head : Value) : Run Primitive :=
  match Primitive.ofValue? head with
  | some p => pure p
  | none => do
    match ← Run.read (isUnbound head) with
    | some name => Run.fail (.unknownOperator name)
    | none => do
      let target ← ev head
      match Primitive.ofValue? target with
      | some p => pure p
      | none => Run.fail (.notAnOperator target)

section

variable (lim : Limits) (room : Nat) (expansion : Nat → Value → Run Value) (height : Nat)

def evalSpecial : SpecialForm → List Value → Run Value
  | .define => evalDefine lim room expansion height
  | .cond => evalCond lim room expansion height
  | .quote => evalQuote
  | .begin => evalBody lim room expansion height .nil
  | .letIn => evalLet lim room expansion height
  | .template => evalTemplate
  | .expandOnce => evalExpansion .expandOnce Templates.expandOnce
  | .expandFully => evalExpansion .expandFully fun ts => ts.expandAll lim.expansions room

def evalApply (head : Value) (tail : List Value) : Run Value := do
  match ← Run.read fun st => st.templates.named? head with
  | some t => do
    let form ← Run.lift (t.apply tail)
    expansion (height + 1) form
  | none => do
    let op ← operator (evalWith lim room expansion (height + 2)) head
    let args ← evalArgs lim room expansion (height + 2) tail
    Run.lift (op.apply args)

theorem evalWith_special {head : Value} {f : SpecialForm} (tail : List Value)
    (h : SpecialForm.ofHead? head = some f) :
    evalWith lim room expansion height (.list (head :: tail)) =
      Run.within lim height (evalSpecial lim room expansion height f tail) := by
  rw [evalWith, h]
  cases f <;> rfl

theorem evalWith_apply {head : Value} (tail : List Value)
    (h : SpecialForm.ofHead? head = none) :
    evalWith lim room expansion height (.list (head :: tail)) =
      Run.within lim height (evalApply lim room expansion height head tail) := by
  rw [evalWith, h]
  unfold evalApply operator
  -- the definition goes on with the arguments inside of each way to an operator
  refine congrArg (Run.within lim height) (bind_congr fun found => ?_)
  cases found with
  | some t => rfl
  | none =>
    cases Primitive.ofValue? head with
    | some p => rfl
    | none =>
      simp only [bind_assoc]
      refine bind_congr fun unbound => ?_
      cases unbound with
      | some name => rfl
      | none =>
        simp only [bind_assoc]
        refine bind_congr fun target => ?_
        cases Primitive.ofValue? target <;> rfl

theorem evalApply_call {st : State} {head : Value} {t : Template} (tail : List Value)
    (h : st.templates.named? head = some t) :
    evalApply lim room expansion height head tail st =
      (Run.lift (t.apply tail) >>= expansion (height + 1)) st := by
  simp only [evalApply, Run.bind_apply, Run.read_apply, h]

theorem evalApply_operator {st : State} {head : Value} (tail : List Value)
    (h : st.templates.named? head = none) :
    evalApply lim room expansion height head tail st =
      (do
        let op ← operator (evalWith lim room expansion (height + 2)) head
        let args ← evalArgs lim room expansion (height + 2) tail
        Run.lift (op.apply args) : Run Value) st := by
  simp only [evalApply, Run.bind_apply, Run.read_apply, h]

/-- A call of a primitive that no macro goes before, whatever its name is bound
to. -/
theorem evalWith_application {st : State} {name : String} {p : Primitive} (args : List Value)
    (hp : Primitive.ofName? name = some p) (ht : st.templates.get? name = none) :
    evalWith lim room expansion height (.list (.sym name :: args)) st =
      Run.within lim height (do
        let vs ← evalArgs lim room expansion (height + 2) args
        Run.lift (p.apply vs)) st := by
  have hhead : SpecialForm.ofHead? (.sym name) = none := ofName?_of_primitive hp
  have hmacro : st.templates.named? (.sym name) = none := ht
  have hop : operator (evalWith lim room expansion (height + 2)) (.sym name) = pure p := by
    simp only [operator, Primitive.ofValue?, hp]
  rw [evalWith_apply _ _ _ _ args hhead]
  apply Run.within_congr
  rw [evalApply_operator _ _ _ _ args hmacro, hop]
  rfl

theorem evalDefine_target {target : Value} (ht : ∀ name, target ≠ .sym name) (form : Value) :
    evalDefine lim room expansion height [target, form] = Run.fail (.defineTarget target) := by
  cases target with
  | sym name => exact absurd rfl (ht name)
  | _ =>
    rw [evalDefine]
    simp

theorem evalBindings_malformed {b : Value} (hb : ∀ name form, b ≠ .list [.sym name, form])
    (frame : Frame) (bs : List Value) :
    evalBindings lim room expansion height frame (b :: bs) = Run.fail (.malformedBinding b) := by
  rw [evalBindings]
  intro name form h
  exact hb name form h

theorem evalLet_noBody (bindings : Value) {body : List Value} (hbody : body.isEmpty = true) :
    evalLet lim room expansion height (bindings :: body) = Run.fail (.formArity .letIn) := by
  cases bindings with
  | list bs => rw [evalLet, hbody]; rfl
  | _ =>
    rw [evalLet, hbody]
    · rfl
    · intro bs h
      cases h

theorem evalLet_notAList {bindings : Value} (hb : ∀ bs, bindings ≠ .list bs) {body : List Value}
    (hbody : body.isEmpty = false) :
    evalLet lim room expansion height (bindings :: body) = Run.fail .bindingsNotAList := by
  rw [evalLet, hbody]
  · rfl
  · intro bs h
    exact hb bs h

theorem evalWith_sym (name : String) :
    evalWith lim room expansion height (.sym name) = resolve name := by
  rw [evalWith]

theorem evalWith_atom {v : Value} (hs : ∀ name, v ≠ .sym name)
    (hl : ∀ head tail, v ≠ .list (head :: tail)) :
    evalWith lim room expansion height v = pure v := by
  cases v with
  | sym name => exact absurd rfl (hs name)
  | list items =>
    cases items with
    | nil => rw [evalWith] <;> simp
    | cons head tail => exact absurd rfl (hl head tail)
  | _ => rw [evalWith] <;> simp

end

end Formulary
