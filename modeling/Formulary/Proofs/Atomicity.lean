import Formulary.Session.Basic

/-
  A session takes back what a failed form did, and nothing else.

  `EvaluatesAll` chains plain evaluations: each form starts in the state that
  the one before it left, and nothing is ever taken back. `evalWith_atomic`
  says what a session makes of a program in these terms, for any evaluator: a
  program that cannot be read touches nothing, one whose forms all have values
  ends where the chain ends, and one with a failing form ends with the bindings
  and macros that the chain of the forms before it leaves.
-/

namespace Formulary

variable {σ : Type}

/-- Forms that have values when they are evaluated one after the other, their
values, and the state after the last of them. -/
inductive EvaluatesAll (ev : Evaluator σ) :
    List Value → State × σ → List Value → State × σ → Prop where
  | nil (s : State × σ) : EvaluatesAll ev [] s [] s
  | cons {form v : Value} {forms vs : List Value} {s s' t : State × σ} :
      ev form s = (.ok v, s') → EvaluatesAll ev forms s' vs t →
      EvaluatesAll ev (form :: forms) s (v :: vs) t

/-- Either every form has a value, or there is a first one that has none. -/
theorem evaluatesAll_or_fails (ev : Evaluator σ) : ∀ (forms : List Value) (s : State × σ),
    (∃ vs t, EvaluatesAll ev forms s vs t) ∨
    ∃ done form rest vs t e t', forms = done ++ form :: rest ∧
      EvaluatesAll ev done s vs t ∧ ev form t = (.error e, t')
  | [], s => .inl ⟨[], s, .nil s⟩
  | form :: forms, s => by
    obtain ⟨r, s', h⟩ : ∃ r s', ev form s = (r, s') := ⟨_, _, rfl⟩
    cases r with
    | error e => exact .inr ⟨[], form, forms, [], s, e, s', rfl, .nil s, h⟩
    | ok v =>
      rcases evaluatesAll_or_fails ev forms s' with ⟨vs, t, ht⟩ | ⟨d, f, r, vs, t, e, t', hf, ht, he⟩
      · exact .inl ⟨v :: vs, t, .cons h ht⟩
      · exact .inr ⟨form :: d, f, r, v :: vs, t, e, t', by rw [hf]; rfl, .cons h ht, he⟩

theorem commit_ok {ev : Evaluator σ} {form v : Value} {s t : State × σ}
    (h : ev form s = (.ok v, t)) : commit ev form s = (.ok v, t) := by
  simp only [commit, h]

theorem commit_error {ev : Evaluator σ} {form : Value} {s t : State × σ} {e : RunError}
    (h : ev form s = (.error e, t)) (hk : e.kind?.isSome = true) :
    commit ev form s = (.error e, (s.1.rollBack t.1, t.2)) := by
  obtain ⟨st, x⟩ := t
  simp only [commit, h, hk, if_true]

theorem commitAll_done {ev : Evaluator σ} {done vs : List Value} {s t : State × σ}
    (h : EvaluatesAll ev done s vs t) (last : Value) (rest : List Value) :
    commitAll ev last (done ++ rest) s = commitAll ev (vs.getLastD last) rest t := by
  induction h generalizing last with
  | nil s => rfl
  | cons hev _ ih =>
    simp only [List.cons_append, commitAll, commit_ok hev]
    rw [ih, List.getLastD_cons]

theorem EvaluatesAll.append {ev : Evaluator σ} {fs gs vs ws : List Value} {s t u : State × σ}
    (h : EvaluatesAll ev fs s vs t) (h' : EvaluatesAll ev gs t ws u) :
    EvaluatesAll ev (fs ++ gs) s (vs ++ ws) u := by
  induction h with
  | nil s => exact h'
  | cons hev _ ih => exact .cons hev (ih h')

theorem evaluatesAll_of_total {ev : Evaluator σ} (hev : ∀ form s, ∃ v t, ev form s = (.ok v, t))
    (forms : List Value) (s : State × σ) : ∃ vs t, EvaluatesAll ev forms s vs t := by
  rcases evaluatesAll_or_fails ev forms s with h | ⟨_, form, _, _, t, e, t', -, -, herror⟩
  · exact h
  · obtain ⟨v, u, hok⟩ := hev form t
    rw [hok] at herror
    cases herror

theorem evalWith_done {s : Session} {ev : Evaluator σ} {code : String} {x y : σ} {st : State}
    {forms vs : List Value} (h : readAllWithin (some readNesting) code = .ok forms)
    (hev : EvaluatesAll ev forms (s.state, x) vs (st, y)) :
    s.evalWith ev code x = (.ok (vs.getLastD .nil), ({ s with state := st }, y)) := by
  have hall := commitAll_done hev .nil []
  rw [List.append_nil] at hall
  simp only [Session.evalWith, runProgram, h, hall, commitAll]
  rfl

/-- A session runs a program all or nothing as far as reading goes, and form by
form after that. -/
theorem evalWith_atomic (s : Session) (ev : Evaluator σ) (code : String) (x : σ) :
    (∀ e, readAllWithin (some readNesting) code = .error e →
      s.evalWith ev code x = (.error (.reading e), (s, x))) ∧
    (∀ forms, readAllWithin (some readNesting) code = .ok forms →
      -- one of the two cases below is at hand
      ((∃ vs t, EvaluatesAll ev forms (s.state, x) vs t) ∨
        ∃ done form rest vs t e t', forms = done ++ form :: rest ∧
          EvaluatesAll ev done (s.state, x) vs t ∧ ev form t = (.error e, t')) ∧
      (∀ vs st y, EvaluatesAll ev forms (s.state, x) vs (st, y) →
        s.evalWith ev code x = (.ok (vs.getLastD .nil), ({ s with state := st }, y))) ∧
      (∀ done form rest vs st y e now z, forms = done ++ form :: rest →
        EvaluatesAll ev done (s.state, x) vs (st, y) →
        ev form (st, y) = (.error e, (now, z)) → e.kind?.isSome = true →
        ∃ s', s.evalWith ev code x = (.error (.running e), (s', z)) ∧
          s'.limits = s.limits ∧ s'.state.scope = st.scope ∧
          s'.state.templates = st.templates)) ∧
    s.eval code = ((s.evalWith (.standard s.limits) code ()).1,
      (s.evalWith (.standard s.limits) code ()).2.1) := by
  refine ⟨?_, ?_, rfl⟩
  · intro e he
    simp only [Session.evalWith, runProgram, he]
  · intro forms hforms
    refine ⟨evaluatesAll_or_fails ev forms _, ?_, ?_⟩
    · intro vs st y h
      have hall := commitAll_done h .nil []
      rw [List.append_nil] at hall
      simp only [Session.evalWith, runProgram, hforms, hall, commitAll]
      rfl
    · intro done form rest vs st y e now z hf h he hk
      have hrun := commitAll_done h .nil (form :: rest)
      simp only [commitAll, commit_error he hk] at hrun
      refine ⟨{ s with state := st.rollBack now }, ?_, rfl, rfl, rfl⟩
      simp only [Session.evalWith, runProgram, hforms, hf, hrun]
      rfl

/-- A state whose one binding is that of `a`. -/
def stateWith (a : Int) (templates : Templates) : State :=
  { scope := .root [("a", .int a)], templates }

/-- The second form binds `a` and a macro before it fails: the first form's `a`
is what is left. -/
theorem evalWith_atomic_second_form :
    ∃ s', (Session.mk ⟨9, none⟩ (stateWith 0 [])).evalWith (.standard ⟨9, none⟩)
        "(define a 1)(begin(define a 2)(defmacro m()a)(car()))" () =
        (.error (.running (.emptyList "car")), (s', ())) ∧
      s'.state.scope = .root [("a", .int 1)] ∧ s'.state.templates = [] := by
  let first : Value := .list [.sym "define", .sym "a", .int 1]
  let second : Value := .list [.sym "begin", .list [.sym "define", .sym "a", .int 2],
    .list [.sym "defmacro", .sym "m", .list [], .sym "a"], .list [.sym "car", .list []]]
  have hread : readAllWithin (some readNesting)
      "(define a 1)(begin(define a 2)(defmacro m()a)(car()))" = .ok [first, second] := rfl
  obtain ⟨-, -, hfail⟩ := (evalWith_atomic (Session.mk ⟨9, none⟩ (stateWith 0 []))
    (.standard ⟨9, none⟩) _ ()).2.1 [first, second] hread
  have hfirst : EvaluatesAll (.standard ⟨9, none⟩) [first] (stateWith 0 [], ()) [.int 1]
      (stateWith 1 [], ()) := .cons rfl (.nil _)
  have hsecond : Evaluator.standard ⟨9, none⟩ second (stateWith 1 [], ()) =
      (.error (.emptyList "car"), (stateWith 2 [("m", ⟨"m", [], .sym "a"⟩)], ())) := rfl
  obtain ⟨s', hrun, -, hscope, htemplates⟩ :=
    hfail [first] second [] [.int 1] (stateWith 1 []) () _ _ () rfl hfirst hsecond rfl
  exact ⟨s', hrun, hscope, htemplates⟩

end Formulary
