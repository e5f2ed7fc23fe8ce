import Formulary.Proofs.RaisedBound

/-
  How many expansions of a head the bound allows.

  A macro call is followed by its expansion, that by its own if it is a call
  again, and so on: `HeadExpands` counts the expansions of such a chain. They
  are held against the bound in two places, which differ by one.

  Settling a head takes one step for each expansion and one more to see that the
  last form is no call (`settle_chain`), so it gets through chains of fewer
  expansions than the bound. The evaluator puts each expansion inside of the one
  before and then evaluates the last form, inside of all of them
  (`evalAt_chain`), so it gets through chains of as many expansions as the
  bound. What counts is whether a form is a call, not whether it has changed: a
  call that expands to itself is a chain without an end, and both give it up.
-/

namespace Formulary

/-! Chains. -/

theorem HeadExpands.cut {ts : Templates} {n : Nat} {last : Value} :
    ∀ {k : Nat} {form : Value}, HeadExpands ts (k + n) form last →
      ∃ mid, HeadExpands ts k form mid ∧ HeadExpands ts n mid last
  | 0, form, h => ⟨form, .refl form, by rwa [Nat.zero_add] at h⟩
  | k + 1, form, h => by
    rw [Nat.add_right_comm] at h
    cases h with
    | step hcall happly hrest =>
      obtain ⟨mid, hmid, hlast⟩ := hrest.cut
      exact ⟨mid, .step hcall happly hmid, hlast⟩

/-! Settling a head. -/

/-- Each expansion of a chain takes one step of settling its head. -/
theorem settle_chain {ts : Templates} {n : Nat} {form last : Value}
    (h : HeadExpands ts n form last) (bound : Int) (steps : Nat) :
    ts.settle bound (n + steps) form = ts.settle bound steps last := by
  induction h with
  | refl form => rw [Nat.zero_add]
  | step hcall happly _ ih =>
    rw [Nat.add_right_comm, Templates.settle, hcall]
    simp only [happly]
    exact ih

/-- A head is given up when its chain has as many expansions as there are steps. -/
theorem isDeep_settle {ts : Templates} {n steps : Nat} {form last : Value}
    (h : HeadExpands ts n form last) (hn : steps ≤ n) (bound : Int) :
    IsDeep (ts.settle bound steps form) := by
  obtain ⟨more, rfl⟩ := Nat.exists_eq_add_of_le hn
  obtain ⟨mid, hmid, -⟩ := h.cut
  refine ⟨.expansionUnsettled bound, ?_, rfl⟩
  exact settle_chain hmid bound 0

/-! Evaluating. -/

def Run.deeper {α : Type} (n : Nat) (m : Run α) : Run α := fun st =>
  let (r, st) := m { st with depth := st.depth + n }
  (r, { st with depth := st.depth - n })

theorem Run.nested_deeper {α : Type} (n : Nat) (m : Run α) :
    Run.nested (Run.deeper n m) = Run.deeper (n + 1) m := by
  funext st
  simp only [Run.nested, Run.deeper, Nat.sub_sub, Nat.add_assoc, Nat.add_comm 1 n]

def Templates.SparesSpecial (ts : Templates) : Prop :=
  ∀ f : SpecialForm, ts.get? f.name = none

theorem ofHead?_of_call {ts : Templates} (hspares : ts.SparesSpecial) {name : String}
    {t : Template} (h : ts.get? name = some t) : SpecialForm.ofHead? (.sym name) = none := by
  cases hf : SpecialForm.ofName? name with
  | none => exact hf
  | some f =>
    have hnone := hspares f
    rw [SpecialForm.name_of_ofName? hf, h] at hnone
    cases hnone

section

variable (bound : Int) {ts : Templates} (hspares : ts.SparesSpecial)
include hspares

theorem evalAt_call {form next : Value} {t : Template} {args : List Value}
    (hcall : ts.call? form = some (t, args)) (happly : t.apply args = .ok next) {st : State}
    (hst : st.templates = ts) (room height : Nat) :
    evalAt ⟨bound, none⟩ room height form st =
      expansionAt ⟨bound, none⟩ room (height + 1) next st := by
  obtain ⟨name, rfl, hname⟩ := Templates.call?_eq_some hcall
  have hnamed : st.templates.named? (.sym name) = some t := by rwa [hst]
  have hwithin : ∀ m : Run Value, Run.within ⟨bound, none⟩ height m = m := fun _ => rfl
  rw [evalAt_eq, evalWith_apply _ room _ height args (ofHead?_of_call hspares hname), hwithin,
    evalApply_call _ room _ height args hnamed, happly]
  rfl

theorem evalAt_chain {n : Nat} {form last : Value} (h : HeadExpands ts n form last) {st : State}
    (hst : st.templates = ts) (room height : Nat) :
    evalAt ⟨bound, none⟩ (n + room) height form st =
      Run.deeper n (evalAt ⟨bound, none⟩ room (height + n) last) st := by
  induction h generalizing st height with
  | refl form =>
    rw [Nat.zero_add]
    rfl
  | @step n form next last t args hcall happly _ ih =>
    have hinner := ih (show { st with depth := st.depth + 1 }.templates = ts from hst) (height + 1)
    rw [Nat.add_right_comm, evalAt_call bound hspares hcall happly hst, ← Run.nested_deeper,
      Nat.add_comm n 1, ← Nat.add_assoc]
    show Run.nested (evalAt ⟨bound, none⟩ (n + room) (height + 1) next) st = _
    unfold Run.nested
    rw [hinner]

/-- A chain of more expansions than there is room for runs out of room. -/
theorem evalAt_full {n room : Nat} {form last : Value} (h : HeadExpands ts n form last)
    (hn : room < n) {st : State} (hst : st.templates = ts) (height : Nat) :
    evalAt ⟨bound, none⟩ room height form st = (.error (.expansionTooDeep bound), st) := by
  obtain ⟨more, rfl⟩ : ∃ more, n = room + (more + 1) := ⟨n - room - 1, by omega⟩
  obtain ⟨mid, hmid, hrest⟩ := h.cut
  cases hrest with
  | step hcall happly _ =>
    have hinner := evalAt_call bound hspares hcall happly
      (show { st with depth := st.depth + room }.templates = ts from hst) 0 (height + room)
    have hchain := evalAt_chain bound hspares hmid hst 0 height
    rw [Nat.add_zero] at hchain
    rw [hchain]
    unfold Run.deeper
    rw [hinner]
    simp [expansionAt]

end

/-! Heights. -/

theorem coupling_eq (bound : Int) :
    Coupling (fun _ => True) ⟨bound, none⟩ ⟨bound, none⟩ (fun _ _ => True)
      (fun m m' => m = m') where
  itemwise := hereditary_true.itemwise
  pure' := fun _ => rfl
  fail' := fun _ => rfl
  bind' := by
    intro α β m m' f f' hm hf
    rw [hm, funext hf]
  lookup' := fun _ _ => rfl
  templates' := rfl
  named' := by
    intro head f f' hnone hsome
    refine bind_congr fun found => ?_
    cases found with
    | none => exact hnone
    | some t => exact hsome t trivial
  define' := fun _ _ => rfl
  addTemplate' := fun _ _ => rfl
  inFrame' := fun frame _ _ hm => congrArg (Run.inFrame frame) hm
  nested' := fun hm => congrArg Run.nested hm
  deeper := fun _ _ => trivial
  within' := fun _ hm => hm

/-- Where nesting has no limit, an evaluation is the same at every height. -/
theorem evalAt_height (bound : Int) (room h h' : Nat) (form : Value) :
    evalAt ⟨bound, none⟩ room h form = evalAt ⟨bound, none⟩ room h' form := by
  have hK := coupling_eq bound
  induction room generalizing h h' form with
  | zero =>
    rw [evalAt_eq]
    exact hK.evalWith (fun _ _ => rfl) (fun _ _ _ _ _ => rfl) form trivial h h' trivial
  | succ room ih =>
    rw [evalAt_eq]
    refine hK.evalWith (fun _ _ => rfl) (fun h h' next _ _ => ?_) form trivial h h' trivial
    exact hK.nested' (ih h h' next)

/-! The bound. -/

theorem roomAt_zero (bound : Int) : Templates.roomAt bound 0 = bound.toNat := by
  rw [Templates.roomAt]
  omega

theorem expandHead_eq_settle {bound : Int} (hbound : 1 ≤ bound) (ts : Templates) (form : Value) :
    ts.expandHead bound (Templates.roomAt bound 0) form = ts.settle bound bound.toNat form := by
  have hroom : Templates.roomAt bound 0 ≠ 0 := by
    rw [roomAt_zero]
    omega
  exact if_neg hroom

section

variable {bound : Int} {n : Nat} {form last : Value} {st : State}
  (hdepth : st.depth = 0) (hspares : st.templates.SparesSpecial)
  (h : HeadExpands st.templates n form last)
include hdepth hspares h

theorem evaluate_chain (hn : (n : Int) ≤ bound) :
    evaluate ⟨bound, none⟩ form st = Run.deeper n (evaluate ⟨bound, none⟩ last) st := by
  obtain ⟨room, hroom⟩ : ∃ room, bound.toNat = n + room := ⟨bound.toNat - n, by omega⟩
  have hinner : Templates.roomAt bound n = room := by
    rw [Templates.roomAt]
    omega
  rw [evaluate, hdepth, roomAt_zero, hroom, evalAt_chain bound hspares h rfl,
    evalAt_height bound room (0 + n) 0]
  simp only [Run.deeper, evaluate, hdepth, Nat.zero_add, hinner]

/-- A chain longer than the bound is given up, and nothing has changed. -/
theorem evaluate_chain_deep (hbound : 1 ≤ bound) (hn : bound < n) :
    IsDeep (evaluate ⟨bound, none⟩ form st).1 ∧ (evaluate ⟨bound, none⟩ form st).2 = st := by
  have hroom : bound.toNat < n := by omega
  rw [evaluate, hdepth, roomAt_zero, evalAt_full bound hspares h hroom rfl]
  exact ⟨⟨_, rfl, rfl⟩, rfl⟩

end

/-- A bound of `D` settles the heads of chains of fewer than `D` expansions and
evaluates those of at most `D`: the last form of the chain is what a head
settles to, and what is evaluated, inside of as many expansions as the chain
has. Longer chains, and those without an end, exceed the depth and change
nothing. -/
theorem expansion_bound_exact {bound : Int} (hbound : 1 ≤ bound) (form : Value) (st : State)
    (hdepth : st.depth = 0) (hspares : st.templates.SparesSpecial) :
    let head := st.templates.expandHead bound (Templates.roomAt bound st.depth) form
    let run := evaluate ⟨bound, none⟩ form st
    (∀ n last, HeadExpands st.templates n form last → st.templates.call? last = none →
      ((n : Int) ≤ bound - 1 → head = .ok last) ∧ (bound ≤ n → IsDeep head) ∧
      ((n : Int) ≤ bound → run = Run.deeper n (evaluate ⟨bound, none⟩ last) st) ∧
      (bound < n → IsDeep run.1 ∧ run.2 = st)) ∧
    ((∀ n, ∃ next, HeadExpands st.templates n form next) →
      IsDeep head ∧ IsDeep run.1 ∧ run.2 = st) := by
  intro head run
  have hhead : head = st.templates.settle bound bound.toNat form := by
    rw [← expandHead_eq_settle hbound, ← hdepth]
  refine ⟨fun n last h hlast => ⟨fun hn => ?_, fun hn => ?_, evaluate_chain hdepth hspares h,
    evaluate_chain_deep hdepth hspares h hbound⟩, fun hendless => ⟨?_, ?_⟩⟩
  · obtain ⟨spare, hspare⟩ : ∃ spare, bound.toNat = n + (spare + 1) :=
      ⟨bound.toNat - n - 1, by omega⟩
    rw [hhead, hspare, settle_chain h, settle_of_none (Nat.succ_pos spare) hlast]
  · rw [hhead]
    exact isDeep_settle h (by omega) bound
  · obtain ⟨next, h⟩ := hendless bound.toNat
    rw [hhead]
    exact isDeep_settle h (Nat.le_refl _) bound
  · obtain ⟨next, h⟩ := hendless (bound.toNat + 1)
    exact evaluate_chain_deep hdepth hspares h hbound (by omega)

/-- A macro for a call of another, and one for a call of itself. -/
def chainTemplates : Templates :=
  [("next", ⟨"next", ["x"], .list [.sym "succ", .sym "x"]⟩),
   ("succ", ⟨"succ", ["x"], .list [.sym "+", .sym "x", .int 1]⟩),
   ("again", ⟨"again", ["x"], .list [.sym "again", .sym "x"]⟩)]

/-- `(next 4)` is a chain of two expansions, so a bound of two evaluates it and
does not settle its head, and bounds one off differ in one of these. `(again 1)`
is a chain without an end. -/
theorem expansion_bound_exact_two :
    let st : State := { scope := .root [], templates := chainTemplates }
    let form : Value := .list [.sym "next", .int 4]
    let last : Value := .list [.sym "+", .int 4, .int 1]
    chainTemplates.expandHead 3 (Templates.roomAt 3 0) form = .ok last ∧
      IsDeep (chainTemplates.expandHead 2 (Templates.roomAt 2 0) form) ∧
      evaluate ⟨2, none⟩ form st = (.ok (.int 5), st) ∧
      IsDeep (evaluate ⟨1, none⟩ form st).1 ∧
      IsDeep (evaluate ⟨2, none⟩ (.list [.sym "again", .int 1]) st).1 := by
  intro st form last
  have hspares : chainTemplates.SparesSpecial := by
    intro f
    cases f <;> rfl
  have hchain : HeadExpands chainTemplates 2 form last := .step rfl rfl (.step rfl rfl (.refl _))
  have hagain : ∀ n, ∃ g, HeadExpands chainTemplates n (.list [.sym "again", .int 1]) g := by
    intro n
    refine ⟨.list [.sym "again", .int 1], ?_⟩
    induction n with
    | zero => exact .refl _
    | succ n ih => exact .step rfl rfl ih
  have hbounds := fun (bound : Int) (hbound : 1 ≤ bound) =>
    (expansion_bound_exact hbound form st rfl hspares).1 2 last hchain rfl
  obtain ⟨-, -, -, hone⟩ := hbounds 1 (by decide)
  obtain ⟨-, hhead, htwo, -⟩ := hbounds 2 (by decide)
  obtain ⟨hthree, -, -, -⟩ := hbounds 3 (by decide)
  have hendless := (expansion_bound_exact (show (1 : Int) ≤ 2 by decide)
    (.list [.sym "again", .int 1]) st rfl hspares).2 hagain
  exact ⟨hthree (by decide), hhead (by decide), htwo (by decide), (hone (by decide)).1,
    hendless.2.1⟩

end Formulary
