import Formulary.Proofs.AppliedPrimitives
import Formulary.Proofs.Atomicity
import Formulary.Proofs.FiniteArithmetic
import Formulary.Proofs.RaisedBound
import Formulary.Proofs.SessionRange
import Formulary.Proofs.Termination

/-
  Doubles of a session.

  A session starts with finite doubles, programs can only write finite ones, and
  arithmetic refuses an infinite result. So no double in a session is ever
  infinite (`Session.Reachable.notInfinite`). But a product of more than two
  operands can be infinite on the way and meet a zero then, and what it comes to
  is not a number and passes the check. `LosesOverflow` says that an evaluation
  comes to such a product. Where none does, all doubles are finite
  (`floats_finite`).

  Only forms that have a value matter, since a failed form is taken back. A form
  that has a value has it under no limit on nesting as well (`evaluate_unbounded`),
  so its calls are those of `Makes`.
-/

namespace Formulary

/-! Limits on nesting. -/

theorem coupling_unbounded (lim : Limits) :
    Coupling (fun _ => True) lim ⟨lim.expansions, none⟩ (fun h h' => h' ≤ h) Widens where
  __ := coupling_widens (show lim.nesting = lim.nesting from rfl)
  within' := by
    intro α h h' m m' _ hm
    unfold Run.within
    split
    · exact widens_of_deep rfl _
    · exact hm

theorem widens_unbounded (lim : Limits) (room h : Nat) (form : Value) :
    Widens (evalAt lim room h form) (evalAt ⟨lim.expansions, none⟩ room h form) := by
  have hK := coupling_unbounded lim
  have hexpand : ∀ (room : Nat) (ts : Templates) v,
      Widens (Run.lift (ts.expandAll lim.expansions room v))
        (Run.lift (ts.expandAll lim.expansions room v)) := fun _ _ _ => widens_lift (.inr rfl)
  suffices hall : ∀ h', h' ≤ h → Widens (evalAt lim room h form)
      (evalAt ⟨lim.expansions, none⟩ room h' form) from hall h (Nat.le_refl h)
  intro h' hh
  induction room generalizing h h' form with
  | zero =>
    rw [evalAt_eq, evalAt_eq]
    refine hK.evalWith (hexpand 0) (fun _ _ _ _ _ => ?_) form trivial h h' hh
    exact widens_of_deep rfl _
  | succ room ih =>
    rw [evalAt_eq, evalAt_eq]
    refine hK.evalWith (hexpand (room + 1)) (fun _ _ next hh _ => ?_) form trivial h h' hh
    exact hK.nested' (ih _ next _ hh)

/-- A form that has a value has the same one when nesting has no limit. -/
theorem evaluate_unbounded {lim : Limits} {form v : Value} {st st' : State}
    (h : evaluate lim form st = (.ok v, st')) :
    evaluate ⟨lim.expansions, none⟩ form st = (.ok v, st') := by
  have hwide := widens_unbounded lim (Templates.roomAt lim.expansions st.depth) 0 form st
  rcases hwide with ⟨e, he, -⟩ | heq
  · rw [show evalAt lim (Templates.roomAt lim.expansions st.depth) 0 form st = (.ok v, st')
      from h] at he
    cases he
  · exact heq.trans h

/-! Evaluating a form. -/

/-- The evaluation of a form comes to a product that is infinite on the way and
meets a zero then. -/
def LosesOverflow (bound : Int) (form : Value) (st : State) : Prop :=
  ∃ c now args, Makes bound (Script.call (.evaluate form) st) c now ∧
    Applies bound c now .mul args ∧ losesOverflow args = true

theorem finite_evaluate {lim : Limits} {form v : Value} {st st' : State}
    (h : evaluate lim form st = (.ok v, st')) (hform : form.Finite) (hst : st.Has Value.Finite)
    (hlost : ¬ LosesOverflow lim.expansions form st) : st'.Has Value.Finite ∧ v.Finite := by
  have hagrees : Agrees lim.expansions st.depth form st.depth
      ((Call.evaluate form).body lim.expansions)
      (evalAt ⟨lim.expansions, none⟩ (Templates.roomAt lim.expansions st.depth) 0 form) :=
    agrees_evaluate rfl form 0
  obtain ⟨calls, hrun, -⟩ := hagrees st rfl
  rw [show evalAt ⟨lim.expansions, none⟩ (Templates.roomAt lim.expansions st.depth) 0 form st =
    (.ok v, st') from evaluate_unbounded h] at hrun
  have hcall : (Script.call (.evaluate form) st).HandsOn lim.expansions Value.Finite
      Value.Finite := Script.HandsOn.call' hform st hst
  have hops : ∀ c now op args, Makes lim.expansions (Script.call (.evaluate form) st) c now →
      Applies lim.expansions c now op args → (∀ w ∈ args, w.Finite) →
      ∀ w, op.apply args = .ok w → w.Finite := by
    intro c now op args hmakes happlies hargs w hw
    refine finite_apply hargs (fun hop => ?_) hw
    subst hop
    cases hloses : losesOverflow args with
    | false => rfl
    | true => exact absurd ⟨c, now, args, hmakes, happlies, hloses⟩ hlost
  obtain ⟨hst', hv⟩ := (Runs.call hrun (.done _ _)).handsOn (hereditary_floats _) hcall hops
  exact ⟨hst', hv v rfl⟩

/-! Products of literals. -/

section

variable {bound : Int}

theorem not_makes_done {α : Type} {r : Except RunError α} {st now : State} {c : Call} :
    ¬ Makes bound (.done r st) c now := fun h => nomatch h

theorem Step.andThen_assoc {α β γ : Type} (s : Step α) (f : α → State → Step β)
    (g : β → State → Step γ) :
    (s.andThen f).andThen g = s.andThen fun a st => (f a st).andThen g := by
  induction s with
  | done r st => cases r <;> rfl
  | call c st next ih =>
    simp only [Step.andThen]
    congr 1
    funext r st'
    exact ih r st'

theorem runs_literals (xs : List Float) (st : State) :
    ∃ calls, Runs bound (Script.callAll .evaluate (xs.map .float) st) (.ok (xs.map .float)) st
      calls := by
  induction xs with
  | nil => exact ⟨[], .done _ _⟩
  | cons x xs ih =>
    obtain ⟨calls, hrest⟩ := ih
    have hfirst : Runs bound (Script.call (.evaluate (.float x)) st) (.ok (.float x)) st
        [.node (.evaluate (.float x)) st.depth []] := .call (.done _ _) (.done _ _)
    exact ⟨_, hfirst.andThen (hrest.andThen (.done _ _))⟩

theorem makes_literals {f : List Value → State → Step Value} {c : Call} {st now : State}
    {xs : List Float}
    (h : Makes bound ((Script.callAll .evaluate (xs.map .float) st).andThen f) c now) :
    (∃ x, c = .evaluate (.float x)) ∨ Makes bound (f (xs.map .float) st) c now := by
  induction xs generalizing f with
  | nil => exact .inr h
  | cons x xs ih =>
    change Makes bound (.call (.evaluate (.float x)) st fun r st' =>
      ((Step.done r st').andThen fun v st =>
        (Script.callAll .evaluate (xs.map .float) st).andThen fun vs st =>
          .done (.ok (v :: vs)) st).andThen f) c now at h
    cases h with
    | here => exact .inl ⟨x, rfl⟩
    | inside h => exact absurd h not_makes_done
    | later hrun h =>
      obtain ⟨hr, hst, -⟩ := hrun.unique (.done (.ok (Value.float x)) st)
      rw [hr, hst] at h
      change Makes bound (((Script.callAll .evaluate (xs.map .float) st).andThen fun vs st =>
        .done (.ok (.float x :: vs)) st).andThen f) c now at h
      rw [Step.andThen_assoc] at h
      exact ih h

/-- A product of literals loses an overflow only if the literals do. -/
theorem losesOverflow_of_literals {st : State} {xs : List Float}
    (hspare : st.templates.get? "*" = none)
    (h : LosesOverflow bound (.list (.sym "*" :: xs.map .float)) st) :
    losesOverflow (xs.map .float) = true := by
  obtain ⟨c, now, args, hmakes, happlies, hloses⟩ := h
  have hop : ∀ st, operatorBody (.sym "*") st = .done (.ok .mul) st := fun _ => rfl
  have hbody : (Call.evaluate (.list (.sym "*" :: xs.map .float))).body bound st =
      (Script.callAll .evaluate (xs.map .float) st).andThen fun args st =>
        .done (Primitive.mul.apply args) st := by
    have hspecial : SpecialForm.ofHead? (.sym "*") = none := rfl
    have hnamed : st.templates.named? (.sym "*") = none := hspare
    simp only [Call.body, evaluateBody, hspecial]
    rw [applyBody_eq, hnamed]
    simp only [hop, Step.andThen]
  change Makes bound (.call _ st .done) c now at hmakes
  cases hmakes with
  | here =>
    cases happlies with
    | mk _ _ hmul hargs =>
      rw [hop] at hmul
      cases hmul
      obtain ⟨calls, hrun⟩ := runs_literals xs st
      obtain ⟨heq, -⟩ := hargs.unique hrun
      cases heq
      exact hloses
  | inside h =>
    rw [hbody] at h
    rcases makes_literals h with ⟨x, rfl⟩ | h
    · cases happlies
    · exact absurd h not_makes_done
  | later _ h => exact absurd h not_makes_done

end

/-! Reading. -/

theorem finite_floatOfText? {cs : List Char} {x : Float} (h : floatOfText? cs = some x)
    (hinf : x.isInf = false) : x.isFinite = true := by
  refine isFinite_of_not ?_ hinf
  obtain ⟨p, -, rfl⟩ := Option.map_eq_some_iff.1 h
  show (if (splitSign cs).1 = true then _ else _ : Float).isNaN = false
  split
  · rw [isNaN_neg]
    exact isNaN_ofScientific _ _ _
  · exact isNaN_ofScientific _ _ _

theorem finite_readAtom (t : Token) (v : Value) (h : readAtom t = .ok v) : v.Finite := by
  cases hk : t.kind <;> simp only [readAtom, hk] at h
  case float =>
    obtain ⟨x, hx, hinf, rfl⟩ := readFloat_eq_ok.1 h
    intro y hy
    rw [Value.floats, List.mem_singleton] at hy
    rw [hy]
    exact finite_floatOfText? hx hinf
  case integer =>
    obtain ⟨-, -, -, rfl⟩ := readInteger_eq_ok.1 h
    exact Value.floats_of_none rfl
  case symbol =>
    cases h
    split <;> exact Value.floats_of_none rfl
  all_goals cases h
  all_goals exact Value.floats_of_none rfl

theorem finite_initial : State.initial.Has Value.Finite where
  frames := by
    show ∀ f ∈ [constants], ∀ p ∈ f, ∀ x ∈ p.2.floats, x.isFinite = true
    decide +kernel
  templates := by
    show ∀ p ∈ catalogueTemplates, ∀ x ∈ p.2.body.floats, x.isFinite = true
    decide +kernel

/-! No double is infinite. -/

/-- Integers in the range, and no infinite double. -/
def Value.Bounded (v : Value) : Prop := v.InRange ∧ v.Floats fun x => x.isInf = false

theorem hereditary_bounded : Hereditary Value.Bounded where
  list := by
    intro items
    unfold Value.Bounded
    rw [Value.inRange_list, Value.floats_list, ← forall₂_and]
  sym := fun _ => ⟨Value.inRange_of_ints rfl, Value.floats_of_none rfl⟩
  nil := ⟨Value.inRange_of_ints rfl, Value.floats_of_none rfl⟩

theorem lawful_bounded (op : Primitive) (args : List Value) (hargs : ∀ v ∈ args, v.Bounded) :
    Lawful Value.Bounded (op.apply args) := by
  have hlawful := lawful_primitive op args fun v hv => (hargs v hv).1
  cases h : op.apply args with
  | error e => rwa [h] at hlawful
  | ok v =>
    rw [h] at hlawful
    refine ⟨hlawful, fun x hx => ?_⟩
    rcases derived_apply h with hfrom | ⟨y, rfl, hinf, -⟩
    · obtain ⟨a, ha, hxa⟩ := hfrom x hx
      exact (hargs a ha).2 x hxa
    · rw [Value.floats, List.mem_singleton] at hx
      rw [hx]
      exact hinf

theorem Value.Finite.notInfinite {v : Value} (h : v.Finite) :
    v.Floats fun x => x.isInf = false := fun x hx => isInf_of_isFinite (h x hx)

theorem bounded_readAtom (t : Token) (v : Value) (h : readAtom t = .ok v) : v.Bounded :=
  ⟨inRange_readAtom t v h, (finite_readAtom t v h).notInfinite⟩

theorem bounded_initial : State.initial.Has Value.Bounded where
  frames := fun f hf p hp =>
    ⟨inRange_initial.frames f hf p hp, (finite_initial.frames f hf p hp).notInfinite⟩
  templates := fun p hp =>
    ⟨inRange_initial.templates p hp, (finite_initial.templates p hp).notInfinite⟩

theorem Session.has_held {V : Value → Prop} {s : Session} (hs : s.state.Has V) {v : Value}
    (hv : v ∈ s.held) : V v := by
  rcases List.mem_append.1 hv with hmem | hmem
  · obtain ⟨p, hp, rfl⟩ := List.mem_map.1 hmem
    exact hs.frames _ List.mem_cons_self p hp
  · obtain ⟨p, hp, rfl⟩ := List.mem_map.1 hmem
    exact hs.templates p hp

/-- In every session that programs lead to, no double is infinite. -/
theorem Session.Reachable.notInfinite {s : Session} (h : s.Reachable) {v : Value}
    (hv : v ∈ s.held ∨ ∃ code, (s.eval code).1 = .ok v) : ∀ x ∈ v.floats, x.isInf = false := by
  have hs := hereditary_bounded.reachable bounded_readAtom lawful_bounded bounded_initial h
  rcases hv with hheld | ⟨code, hcode⟩
  · exact (Session.has_held hs hheld).2
  · have hkeeps : (Evaluator.standard s.limits : Evaluator Unit).Keeps Value.Bounded :=
      hereditary_bounded.keeps_standard lawful_bounded s.limits
    exact ((hereditary_bounded.evalWith bounded_readAtom hkeeps code () hs).2 v hcode).2

/-! Sessions without lost overflows. -/

/-- None of the forms that have a value, evaluated in order up to the first that has
none, loses an overflow. -/
def SparesAll (lim : Limits) : List Value → State → Prop
  | [], _ => True
  | form :: forms, st => ∀ v st', evaluate lim form st = (.ok v, st') →
      ¬ LosesOverflow lim.expansions form st ∧ SparesAll lim forms st'

namespace Session

/-- The program loses no overflow when the session runs it. -/
def Spares (s : Session) (code : String) : Prop :=
  ∀ forms, readAllWithin (some readNesting) code = .ok forms → SparesAll s.limits forms s.state

/-- The sessions that programs lead to that lose no overflow: a new session, and a
session after one more such program, failed or not. Notes, of files that are
loaded for example, make no difference. -/
inductive Calm : Session → Prop where
  | new (bound : Int) : Calm (Session.new bound)
  | noted {s : Session} (log : List Note) : Calm s → Calm { s with state.log := log }
  | eval {s : Session} (code : String) : Calm s → s.Spares code → Calm (s.eval code).2

end Session

theorem finite_commitAll {lim : Limits} {forms : List Value} {last : Value} {st : State}
    (hrange : ∀ f ∈ forms, f.InRange) (hforms : ∀ f ∈ forms, f.Finite) (hlast : last.Finite)
    (hst : st.Has Value.InRange) (hfinite : st.Has Value.Finite) (h : SparesAll lim forms st) :
    (commitAll (Evaluator.standard lim) last forms (st, ())).2.1.Has Value.Finite ∧
      ∀ v, (commitAll (Evaluator.standard lim) last forms (st, ())).1 = .ok v → v.Finite := by
  induction forms generalizing last st with
  | nil => exact ⟨hfinite, fun v hv => by cases hv; exact hlast⟩
  | cons form forms ih =>
    obtain ⟨hf, hfs⟩ := List.forall_mem_cons.1 hforms
    obtain ⟨hr, hrs⟩ := List.forall_mem_cons.1 hrange
    obtain ⟨hst', hlawful⟩ := keepsValues_evaluate lim hr st hst
    obtain ⟨r, st', hev⟩ : ∃ r st', evaluate lim form st = (r, st') := ⟨_, _, rfl⟩
    have hstandard : Evaluator.standard lim form (st, ()) = (r, (st', ())) := by
      simp only [Evaluator.standard, hev]
    rw [hev] at hst' hlawful
    rw [commitAll]
    cases r with
    | ok v =>
      obtain ⟨hspares, hrest⟩ := h v st' hev
      obtain ⟨hfinite', hv⟩ := finite_evaluate hev hf hfinite hspares
      rw [commit_ok hstandard]
      exact ih hrs hfs hv hst' hfinite' hrest
    | error e =>
      rw [commit_error hstandard hlawful]
      refine ⟨⟨hfinite.frames, hfinite.templates⟩, ?_⟩
      intro v hv
      cases hv

theorem finite_eval {s : Session} {code : String} (hst : s.state.Has Value.InRange)
    (hfinite : s.state.Has Value.Finite) (h : s.Spares code) :
    (s.eval code).2.state.Has Value.Finite ∧ ∀ v, (s.eval code).1 = .ok v → v.Finite := by
  unfold Session.eval Session.evalWith runProgram
  cases hread : readAllWithin (some readNesting) code with
  | error e => exact ⟨hfinite, fun v h => nomatch h⟩
  | ok forms =>
    have hrange := hereditary_inRange.readAllWithin inRange_readAtom hread
    have hforms := (hereditary_floats _).readAllWithin finite_readAtom hread
    have hnil : Value.Finite .nil := (hereditary_floats _).nil
    obtain ⟨hstate, hvalue⟩ := finite_commitAll hrange hforms hnil hst hfinite (h forms hread)
    refine ⟨hstate, fun v hv => hvalue v ?_⟩
    simp only at hv
    generalize (commitAll (Evaluator.standard s.limits) .nil forms (s.state, ())).1 = r at hv
    cases r with
    | error e => cases hv
    | ok w => cases hv; rfl

theorem Session.Calm.finite {s : Session} (h : s.Calm) :
    s.state.Has Value.InRange ∧ s.state.Has Value.Finite := by
  induction h with
  | new bound => exact ⟨inRange_initial, finite_initial⟩
  | noted log _ ih =>
    exact ⟨⟨ih.1.frames, ih.1.templates⟩, ⟨ih.2.frames, ih.2.templates⟩⟩
  | eval code _ hspares ih =>
    obtain ⟨hrange, hfinite⟩ := ih
    refine ⟨?_, (finite_eval hrange hfinite hspares).1⟩
    exact (hereditary_inRange.evalWith inRange_readAtom (keeps_standard _) code () hrange).1

/-- In every session that programs lead to, no double in a binding, in a macro or in
what the next program gives is infinite, and all of them are finite where no
program loses an overflow. For arithmetic on finite operands comes to a finite
double or to an error, and to an error of overflow if it was infinite on the way
and no divisor is zero; only a product that loses an overflow comes to what is
no number. -/
theorem floats_finite (s : Session) :
    (s.Reachable → ∀ v, (v ∈ s.held ∨ ∃ code, (s.eval code).1 = .ok v) →
      ∀ x ∈ v.floats, x.isInf = false) ∧
    (s.Calm → ∀ v, (v ∈ s.held ∨ ∃ code, s.Spares code ∧ (s.eval code).1 = .ok v) →
      ∀ x ∈ v.floats, x.isFinite = true) ∧
    (∀ (op : Primitive) args xs, (∀ v ∈ args, v.Finite) → op.doubles? args = some xs →
      (op = .mul → losesOverflow args = false) → Checked (op.onTheWay xs) (op.apply args)) ∧
    ∀ args, losesOverflow args = true →
      ∃ x, Primitive.mul.apply args = .ok (.float x) ∧ x.isNaN = true := by
  refine ⟨fun hs v hv => hs.notInfinite hv, ?_, ?_, fun args => lost_overflow⟩
  · intro hcalm v hv
    obtain ⟨hrange, hfinite⟩ := hcalm.finite
    rcases hv with hheld | ⟨code, hspares, hcode⟩
    · exact Session.has_held hfinite hheld
    · exact (finite_eval hrange hfinite hspares).2 v hcode
  · intro op args xs hargs hxs hmul
    exact checked_apply hargs hxs hmul

/-- `(* 2.5 0.0 4.0)` meets a zero but nothing infinite, so what it gives is
finite. -/
theorem floats_finite_zero :
    ((Session.new 9).eval "(* 2.5 0.0 4.0)").1 = .ok (.float 0.0) ∧
      (Session.new 9).Spares "(* 2.5 0.0 4.0)" ∧
      ∀ x ∈ Value.floats (.float 0.0), x.isFinite = true := by
  have hspares : (Session.new 9).Spares "(* 2.5 0.0 4.0)" := by
    intro forms hforms
    have hread : readAllWithin (some readNesting) "(* 2.5 0.0 4.0)" =
        .ok [.list (.sym "*" :: [2.5, 0.0, 4.0].map .float)] := by decide +kernel
    rw [hread] at hforms
    cases hforms
    refine fun v st' _ => ⟨fun hlost => ?_, trivial⟩
    have hloses := losesOverflow_of_literals (by decide +kernel) hlost
    have hnot : losesOverflow ([2.5, 0.0, 4.0].map .float) = false := by decide +kernel
    rw [hnot] at hloses
    cases hloses
  have hvalue : ((Session.new 9).eval "(* 2.5 0.0 4.0)").1 = .ok (.float 0.0) := by
    decide +kernel
  have hfinite := (floats_finite (Session.new 9)).2.1 (.new 9) _ (.inr ⟨_, hspares, hvalue⟩)
  exact ⟨hvalue, hspares, hfinite⟩

/-- `a` is far from the largest double and so is `b`, the fourth power of `a`. But
the fourth power of `b` is infinite, and times zero it is not a number: the
program ends in it and not in an error of overflow. -/
theorem product_loses_overflow :
    let s := (Session.startWith Evaluator.standard [] [] .empty (some 9) ()).2.1
    let t := ((s.eval "(define a 10000000000000000000000000.0)").2.eval
      "(define b (* a a a a))").2
    t.Reachable ∧ ∃ x, (t.eval "(* b b b b 0.0)").1 = .ok (.float x) ∧ x.isNaN = true := by
  intro s t
  refine ⟨.eval _ (.eval _ (.start [] [] .empty (some 9) rfl)), 0.0 / 0.0, ?_, ?_⟩
  · decide +kernel
  · decide +kernel

end Formulary
