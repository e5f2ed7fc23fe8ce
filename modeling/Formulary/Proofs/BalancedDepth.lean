import Formulary.Proofs.Termination
import Formulary.Session.Load

/-
  The count of nested expansions is balanced.

  An expansion is counted before it starts, refused when there are too many, and
  taken off the count again however it ends (`Script.counted`). So a run of the
  evaluator, of the settling of a head or of the full expansion of a form leaves
  the count where it found it, with a value or with any error, and whatever count
  it started from (`Leveled`). The evaluator, settling and full expansion are
  followed call by call here, as in `Runs`, where the count is part of the state.

  Taking a failed form back puts bindings and macros back, but not the count; it
  need not, since no form has moved it. So a session has its whole bound again
  before each program and each expansion (`Session.Used.level`).
-/

namespace Formulary

/-! Counting. -/

namespace Script

variable {α : Type}

/-- Counts one expansion more, refuses when these are too many or goes on, and
counts one less in the end, whatever the outcome. -/
def counted (bound : Int) (s : Script α) : Script α := fun st =>
  let inner : State := { st with depth := st.depth + 1 }
  let outcome := if bound < inner.depth then Step.done (.error (.expansionTooDeep bound)) inner
    else s inner
  outcome.after fun st => { st with depth := st.depth - 1 }

/-- A refused expansion leaves no trace in the count. -/
theorem guarded_eq_counted (bound : Int) (s : Script α) : guarded bound s = counted bound s := by
  funext st
  unfold guarded counted
  by_cases hfull : bound < st.depth + 1
  · simp [hfull, Step.after]
  · simp [hfull]

end Script

/-- What settling the head of a form does, with its expansion counted. -/
def headBody (bound : Int) (form : Value) : Script Value :=
  Script.counted bound (Script.ofRun (settleHead bound form))

/-- From a state, a computation comes to an outcome, and to no other, and the
number of nested expansions is then what it was. -/
structure Leveled (bound : Int) (s : Script Value) (st : State) (r : Except RunError Value) :
    Prop where
  ends : ∃ st' calls, Runs bound (s st) r st' calls
  level : ∀ {r' : Except RunError Value} {st' : State} {calls : List CallTree},
    Runs bound (s st) r' st' calls → r' = r ∧ st'.depth = st.depth

theorem Agrees.leveled {bound : Int} {depth : Nat} {form : Value} {s : Script Value}
    {m : Run Value} {st : State} (h : Agrees bound depth form st.depth s m) :
    Leveled bound s st (m st).1 := by
  obtain ⟨calls, hrun, -, hdepth⟩ := h st rfl
  refine ⟨⟨(m st).2, calls, hrun⟩, fun hrun' => ?_⟩
  obtain ⟨hr, hst, -⟩ := hrun.unique hrun'
  exact ⟨hr.symm, hst ▸ hdepth⟩

section

variable (bound : Int) (form : Value) (st : State)

theorem leveled_evaluate :
    Leveled bound (evaluateBody bound form) st (evaluate ⟨bound, none⟩ form st).1 := by
  have hagrees : Agrees bound st.depth form st.depth ((Call.evaluate form).body bound)
      (evalAt ⟨bound, none⟩ (Templates.roomAt bound st.depth) 0 form) := agrees_evaluate rfl form 0
  exact hagrees.leveled

theorem leveled_expandAll :
    Leveled bound (expandAllBody bound form) st
      (st.templates.expandAll bound (Templates.roomAt bound st.depth) form) := by
  have hagrees : Agrees bound st.depth form st.depth ((Call.expandAll form).body bound)
      (expandWith bound (Templates.roomAt bound st.depth) form) := agrees_expandAll rfl form
  exact hagrees.leveled

theorem agrees_headBody : Agrees bound st.depth form st.depth (headBody bound form) (do
      let ts ← Run.read State.templates
      Run.lift (ts.expandHead bound (Templates.roomAt bound st.depth) form)) := by
  rw [headBody, ← Script.guarded_eq_counted]
  cases hroom : Templates.roomAt bound st.depth with
  | zero =>
    have hfull := le_of_roomAt_zero hroom
    exact .guarded_full hfull _
  | succ room =>
    obtain ⟨hone, -⟩ := roomAt_succ hroom
    exact .guarded' hone (.ofRun' (keepsDepth_settleHead form))

theorem leveled_expandHead :
    Leveled bound (headBody bound form) st
      (st.templates.expandHead bound (Templates.roomAt bound st.depth) form) :=
  (agrees_headBody bound form st).leveled

end

/-! Sessions. -/

variable {σ : Type}

def Evaluator.KeepsDepth (ev : Evaluator σ) : Prop :=
  ∀ form s, (ev form s).2.1.depth = s.1.depth

theorem Evaluator.keepsDepth_standard (lim : Limits) :
    (Evaluator.standard lim : Evaluator σ).KeepsDepth :=
  fun form s => (keepsDepth_evalAt lim _ 0 form s.1).1

namespace Evaluator.KeepsDepth

variable {ev : Evaluator σ} (hev : ev.KeepsDepth)
include hev

/-- Taking a form back does not touch the count, and there is nothing to mend. -/
theorem commit : (commit ev).KeepsDepth := by
  intro form s
  have hform := hev form s
  unfold Formulary.commit
  generalize ev form s = p at hform
  obtain ⟨r, st, x⟩ := p
  cases r with
  | ok v => exact hform
  | error e =>
    simp only
    split
    · exact hform
    · exact hform

theorem commitAll : ∀ (forms : List Value) (last : Value) (s : State × σ),
    (commitAll ev last forms s).2.1.depth = s.1.depth
  | [], _, _ => rfl
  | form :: forms, last, s => by
    have hform := hev.commit form s
    rw [Formulary.commitAll]
    generalize Formulary.commit ev form s = p at hform
    obtain ⟨r, s'⟩ := p
    cases r with
    | error e => exact hform
    | ok v => exact (commitAll forms v s').trans hform

theorem evalWith (s : Session) (code : String) (x : σ) :
    (s.evalWith ev code x).2.1.state.depth = s.state.depth := by
  unfold Session.evalWith runProgram
  cases readAllWithin (some readNesting) code with
  | error e => rfl
  | ok forms => exact hev.commitAll forms .nil (s.state, x)

theorem loadAllWith (tree : FileTree) : ∀ (paths : List Path) (s : Session) (x : σ),
    (Session.loadAllWith ev tree paths (s, x)).2.1.state.depth = s.state.depth
  | [], _, _ => rfl
  | p :: ps, s, x => by
    have hload : (s.loadWith ev tree p x).2.1.state.depth = s.state.depth := by
      unfold Session.loadWith
      cases tree.readText p with
      | error e => rfl
      | ok code => exact hev.evalWith _ (String.ofList code) x
    unfold Session.loadAllWith
    generalize s.loadWith ev tree p x = q at hload
    obtain ⟨r, s', x'⟩ := q
    cases r with
    | error e => exact hload
    | ok v => exact (loadAllWith tree ps s' x').trans hload

end Evaluator.KeepsDepth

theorem depth_startWith {ev : Limits → Evaluator σ} (hev : ∀ lim, (ev lim).KeepsDepth)
    (vars : Variables) (tree : FileTree) (prelude : Prelude) (bound : Option Int) (x : σ) :
    (Session.startWith ev vars tree prelude bound x).2.1.state.depth = 0 := by
  unfold Session.startWith
  cases prelude with
  | empty => rfl
  | text code => exact (hev _).evalWith _ code x
  | listed =>
    simp only
    split
    · rfl
    · exact (hev _).loadAllWith tree _ _ x

/-- A session after programs and expansions, failed or not. -/
inductive Session.Used (first : Session) : Session → Prop where
  | start : Used first first
  | eval {s : Session} (code : String) : Used first s → Used first (s.eval code).2
  | expand {s : Session} {form : Value} {r : Except RunError Value} {st : State}
      {calls : List CallTree} : Used first s →
      Runs s.limits.expansions (expandAllBody s.limits.expansions form s.state) r st calls →
      Used first { s with state := st }

theorem Session.Used.level {first s : Session} (h : Used first s) :
    s.limits = first.limits ∧ s.state.depth = first.state.depth := by
  induction h with
  | start => exact ⟨rfl, rfl⟩
  | @eval s code _ ih =>
    have hdepth := (Evaluator.keepsDepth_standard s.limits).evalWith s code ()
    exact ⟨ih.1, hdepth.trans ih.2⟩
  | @expand s form r st calls _ hrun ih =>
    have hdepth := ((leveled_expandAll s.limits.expansions form s.state).level hrun).2
    exact ⟨ih.1, hdepth.trans ih.2⟩

/-- Whatever number of expansions a state has nested, the evaluator, the settling of
a head and the full expansion of a form come to an end with that number, with a
value or an error. So a session that has started has none nested after any
programs and expansions, and as much room for them as it started with. -/
theorem expansions_balanced (bound : Int) (form : Value) (st : State) :
    Leveled bound (evaluateBody bound form) st (evaluate ⟨bound, none⟩ form st).1 ∧
    Leveled bound (headBody bound form) st
      (st.templates.expandHead bound (Templates.roomAt bound st.depth) form) ∧
    Leveled bound (expandAllBody bound form) st
      (st.templates.expandAll bound (Templates.roomAt bound st.depth) form) ∧
    (∀ lim, (evaluate lim form st).2.depth = st.depth) ∧
    ∀ vars tree prelude size,
      let first := (Session.startWith Evaluator.standard vars tree prelude size ()).2.1
      ∀ s, first.Used s → s.state.depth = 0 ∧
        Templates.roomAt s.limits.expansions s.state.depth = first.limits.expansions.toNat := by
  refine ⟨leveled_evaluate bound form st, leveled_expandHead bound form st,
    leveled_expandAll bound form st, fun lim => (keepsDepth_evalAt lim _ 0 form st).1, ?_⟩
  intro vars tree prelude size first s hused
  obtain ⟨hlimits, hdepth⟩ := hused.level
  have hfirst : first.state.depth = 0 :=
    depth_startWith Evaluator.keepsDepth_standard vars tree prelude size ()
  refine ⟨hdepth.trans hfirst, ?_⟩
  rw [hdepth, hfirst, hlimits, Templates.roomAt]
  simp

end Formulary
