import Formulary.Proofs.Atomicity
import Formulary.Proofs.RaisedBound

/-
  Evaluation writes only its own frame.

  A name is bound in the innermost frame, and a `let` puts a frame of its own
  inside of that one for its body. So the frames around the innermost stay as
  they are (`keeping_keepsOuter`), whatever is evaluated and however it ends,
  and with the frame of a `let` everything goes that its body has bound
  (`Run.scope_inFrame`). What is left of a `let` are the bindings that the
  forms of its binding list have made (`evaluatesAll_of_evalBindings`).
-/

namespace Formulary

/-! The frames around the innermost. -/

theorem Scope.pop_of_outer {s t : Scope} (h : t.outer = s.frames) : t.pop = s := by
  unfold pop
  rw [h]
  rfl

/-- What keeps the frames around an inner one leaves the scope as it was. -/
theorem Run.scope_inFrame {α : Type} {frame : Frame} {m : Run α} {st : State}
    (h : (m { st with scope := st.scope.push frame }).2.scope.outer = st.scope.frames) :
    (Run.inFrame frame m st).2.scope = st.scope :=
  Scope.pop_of_outer h

/-- `m` leaves the frames around the innermost as they were, and its value, if it
has one, satisfies `Q`. -/
def KeepsOuter {α : Type} (Q : α → Prop) (m : Run α) : Prop :=
  Leaves (fun st => st.scope.outer) Q m

theorem keeping_keepsOuter : Keeping (fun _ => True) KeepsOuter :=
  keeping_leaves (fun st => st.scope.outer) (fun _ _ _ => rfl) (fun _ _ => rfl)
    (fun _ _ _ h => congrArg Scope.outer (Run.scope_inFrame h)) fun _ _ h => h

theorem keepsOuter_evalAt (lim : Limits) (room height : Nat) (form : Value) :
    KeepsOuter (fun _ => True) (evalAt lim room height form) :=
  keeping_keepsOuter.evalAt hereditary_true lim room height trivial

theorem keepsOuter_evalBody (lim : Limits) (room height : Nat) (body : List Value) :
    KeepsOuter (fun _ => True) (evalBody lim room (expansionAt lim room) height .nil body) := by
  refine keeping_keepsOuter.evalBody lim room (fun f _ h => ?_) height trivial
  rw [← evalAt_eq]
  exact keepsOuter_evalAt lim room h f

/-! The parts of a `let`. -/

/-- The binding of a name to a form, as a `let` lists it. -/
def letBinding (p : String × Value) : Value := .list [.sym p.1, p.2]

theorem evalLet_ok {lim : Limits} {room : Nat} {expansion : Nat → Value → Run Value} {height : Nat}
    {tail : List Value} {st st' : State} {v : Value}
    (h : evalLet lim room expansion height tail st = (.ok v, st')) :
    ∃ bs body frame mid, tail = .list bs :: body ∧
      evalBindings lim room expansion height [] bs st = (.ok frame, mid) ∧
      Run.inFrame frame (evalBody lim room expansion height .nil body) mid = (.ok v, st') := by
  cases tail with
  | nil =>
    rw [evalLet] at h
    cases h
  | cons bindings body =>
    cases hempty : body.isEmpty with
    | true =>
      rw [evalLet_noBody lim room _ height bindings hempty] at h
      cases h
    | false =>
      by_cases hlist : ∃ bs, bindings = .list bs
      · obtain ⟨bs, rfl⟩ := hlist
        rw [evalLet, hempty] at h
        obtain ⟨frame, mid, hbindings, hbody⟩ := Run.bind_eq_ok h
        exact ⟨bs, body, frame, mid, rfl, hbindings, hbody⟩
      · rw [evalLet_notAList lim room _ height (fun bs hb => hlist ⟨bs, hb⟩) hempty] at h
        cases h

theorem evaluate_of_evalWith {lim : Limits} {height : Nat} {form : Value} {st st' : State}
    {v : Value} {room : Nat} (hroom : Templates.roomAt lim.expansions st.depth = room)
    (h : evalWith lim room (expansionAt lim room) height form st = (.ok v, st')) :
    evaluate lim form st = (.ok v, st') := by
  rw [← evalAt_eq] at h
  have hlower := widens_evalAt lim lim rfl (Int.le_refl _) (Nat.le_refl room) (Nat.zero_le height)
    form st
  rw [h] at hlower
  rcases hlower with ⟨e, he, -⟩ | heq
  · cases he
  · rw [evaluate, hroom]
    exact heq

theorem Evaluator.standard_ok {σ : Type} {lim : Limits} {form v : Value} {st st' : State}
    (h : evaluate lim form st = (.ok v, st')) (x : σ) :
    Evaluator.standard lim form (st, x) = (.ok v, (st', x)) := by
  simp only [Evaluator.standard, h]

/-- Bindings that get through are pairs of a name and a form, and the forms are
evaluated in order, one after the other. -/
theorem evaluatesAll_of_evalBindings {lim : Limits} {room height : Nat} {bs : List Value}
    {frame f : Frame} {st st' : State} (hroom : Templates.roomAt lim.expansions st.depth = room)
    (h : evalBindings lim room (expansionAt lim room) height frame bs st = (.ok f, st')) :
    ∃ (pairs : List (String × Value)) (vs : List Value), bs = pairs.map letBinding ∧
      EvaluatesAll (.standard lim) (pairs.map Prod.snd) (st, ()) vs (st', ()) := by
  induction bs generalizing frame st with
  | nil =>
    rw [evalBindings] at h
    cases h
    exact ⟨[], [], rfl, .nil _⟩
  | cons b bs ih =>
    by_cases hpair : ∃ name form, b = .list [.sym name, form]
    · obtain ⟨name, form, rfl⟩ := hpair
      rw [evalBindings] at h
      obtain ⟨v, mid, hv, hrest⟩ := Run.bind_eq_ok h
      have hev := evaluate_of_evalWith hroom hv
      -- the next form finds as many nested expansions as the first
      have hdepth : mid.depth = st.depth := by
        have hkeeps := (keepsDepth_evalAt lim room (height + 2) form st).1
        rw [evalAt_eq, hv] at hkeeps
        exact hkeeps
      obtain ⟨pairs, vs, rfl, hall⟩ := ih (by rw [hdepth]; exact hroom) hrest
      exact ⟨(name, form) :: pairs, v :: vs, rfl, .cons (Evaluator.standard_ok hev ()) hall⟩
    · rw [evalBindings_malformed lim room _ height fun name form h => hpair ⟨name, form, h⟩] at h
      cases h

theorem Run.within_zero {α : Type} (lim : Limits) (m : Run α) : Run.within lim 0 m = m := by
  unfold Run.within
  cases lim.nesting <;> rfl

/-- Evaluation leaves every frame but the innermost exactly as it was, with a value
or an error; and a `let` with a value leaves exactly the scope that evaluating
its bound forms in order leaves. -/
theorem evaluate_writes_own_frame (lim : Limits) (form : Value) (st : State) :
    (evaluate lim form st).2.scope.outer = st.scope.outer ∧
    ∀ tail v st', form = .list (.sym "let" :: tail) → evaluate lim form st = (.ok v, st') →
      ∃ (pairs : List (String × Value)) (body vs : List Value) (after : State),
        tail = .list (pairs.map letBinding) :: body ∧
        EvaluatesAll (.standard lim) (pairs.map Prod.snd) (st, ()) vs (after, ()) ∧
        st'.scope = after.scope := by
  refine ⟨(keepsOuter_evalAt lim _ 0 form st).1, ?_⟩
  rintro tail v st' rfl h
  have hlet : SpecialForm.ofHead? (.sym "let") = some .letIn := SpecialForm.ofName?_name .letIn
  rw [evaluate, evalAt_eq, evalWith_special lim _ _ 0 tail hlet, Run.within_zero] at h
  obtain ⟨bs, body, frame, mid, rfl, hbindings, hbody⟩ := evalLet_ok h
  obtain ⟨pairs, vs, rfl, hall⟩ := evaluatesAll_of_evalBindings rfl hbindings
  refine ⟨pairs, body, vs, mid, rfl, hall, ?_⟩
  -- the body keeps the frames around its own, so its own frame is all that goes
  have hkeeps := keepsOuter_evalBody lim (Templates.roomAt lim.expansions st.depth) 0 body
    { mid with scope := mid.scope.push frame }
  rw [← Run.scope_inFrame hkeeps.1, hbody]

/-- `(let ((a (define x 5)) (b (begin (define z 7) x))) (define x 9) (define a 3)
(list x a b))` leaves `x` and `z` as its bound forms have made them, whatever its
body does, and the frame around them as it was. -/
theorem evaluate_writes_own_frame_let :
    let tail : List Value :=
      [.list [.list [.sym "a", .list [.sym "define", .sym "x", .int 5]],
        .list [.sym "b", .list [.sym "begin", .list [.sym "define", .sym "z", .int 7], .sym "x"]]],
       .list [.sym "define", .sym "x", .int 9], .list [.sym "define", .sym "a", .int 3],
       .list [.sym "list", .sym "x", .sym "a", .sym "b"]]
    let st : State := { scope := ⟨[("x", .int 1)], [[("y", .int 2)]]⟩, templates := [] }
    let run := evaluate ⟨9, none⟩ (.list (.sym "let" :: tail)) st
    run.1 = .ok (.list [.int 9, .int 3, .int 5]) ∧ run.2.scope.outer = [[("y", .int 2)]] ∧
      ∃ (pairs : List (String × Value)) (body vs : List Value) (after : State),
        tail = .list (pairs.map letBinding) :: body ∧
        EvaluatesAll (.standard ⟨9, none⟩) (pairs.map Prod.snd) (st, ()) vs (after, ()) ∧
        after.scope.frame = [("x", .int 5), ("z", .int 7)] := by
  intro tail st run
  obtain ⟨houter, hlet⟩ := evaluate_writes_own_frame ⟨9, none⟩ (.list (.sym "let" :: tail)) st
  obtain ⟨pairs, body, vs, after, htail, hall, hscope⟩ := hlet _ _ _ rfl rfl
  exact ⟨rfl, houter, pairs, body, vs, after, htail, hall, congrArg Scope.frame hscope.symm⟩

end Formulary
