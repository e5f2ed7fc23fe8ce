import Formulary.Proofs.Coupling

/-
  Raising the bound on expansions.

  The bound counts twice: it limits how deep expansions nest, and how often a
  head is expanded before it is given up. `Widens m m'` says that where `m` does
  not run into a limit on depth, `m'` does exactly what `m` does. Two evaluators
  of which the second has more room and starts no deeper are related so
  (`widens_evalAt`): they are in step, and only the first can run out of room.

  So a run that did not hit the bound is the same run under every larger one
  (`evaluate_bound_mono`).
-/

namespace Formulary

variable {α β : Type}

/-- An outcome that a limit on depth brought about. -/
def IsDeep (r : Except RunError α) : Prop :=
  ∃ e, r = .error e ∧ e.kind? = some .depthExceeded

/-! Expanding with more room. -/

section

variable (ts : Templates) {bound bound' : Int}

theorem settle_mono {steps steps' : Nat} (h : steps ≤ steps') (form : Value) :
    IsDeep (ts.settle bound steps form) ∨
      ts.settle bound' steps' form = ts.settle bound steps form := by
  induction steps generalizing steps' form with
  | zero => exact .inl ⟨_, rfl, rfl⟩
  | succ steps ih =>
    obtain ⟨steps', rfl⟩ : ∃ n, steps' = n + 1 := ⟨steps' - 1, by omega⟩
    rw [Templates.settle, Templates.settle]
    cases ts.call? form with
    | none => exact .inr rfl
    | some call =>
      simp only
      cases call.1.apply call.2 with
      | error e => exact .inr rfl
      | ok next => exact ih (by omega) next

variable (hbound : bound ≤ bound')
include hbound

theorem expandHead_mono {room room' : Nat} (hroom : room ≤ room') (form : Value) :
    IsDeep (ts.expandHead bound room form) ∨
      ts.expandHead bound' room' form = ts.expandHead bound room form := by
  unfold Templates.expandHead
  by_cases h : room = 0
  · rw [if_pos h]
    exact .inl ⟨_, rfl, rfl⟩
  · rw [if_neg h, if_neg (by omega)]
    exact settle_mono ts (by omega) form

omit hbound in
theorem mapM_mono {f g : α → Except RunError β} (h : ∀ a, IsDeep (f a) ∨ g a = f a)
    (as : List α) : IsDeep (as.mapM f) ∨ as.mapM g = as.mapM f := by
  induction as with
  | nil => exact .inr rfl
  | cons a as ih =>
    rw [List.mapM_cons, List.mapM_cons]
    rcases h a with ⟨e, he, hk⟩ | heq
    · rw [he]
      exact .inl ⟨e, rfl, hk⟩
    · rw [heq]
      cases f a with
      | error e => exact .inr rfl
      | ok b =>
        rcases ih with ⟨e, he, hk⟩ | heqs
        · rw [he]
          exact .inl ⟨e, rfl, hk⟩
        · rw [heqs]
          exact .inr rfl

theorem expandAll_mono {room room' : Nat} (hroom : room ≤ room') (form : Value) :
    IsDeep (ts.expandAll bound room form) ∨
      ts.expandAll bound' room' form = ts.expandAll bound room form := by
  induction room generalizing room' form with
  | zero => exact .inl ⟨_, rfl, rfl⟩
  | succ room ih =>
    obtain ⟨room', rfl⟩ : ∃ n, room' = n + 1 := ⟨room' - 1, by omega⟩
    rw [Templates.expandAll, Templates.expandAll]
    rcases expandHead_mono ts hbound hroom form with ⟨e, he, hk⟩ | heq
    · rw [he]
      exact .inl ⟨e, rfl, hk⟩
    · rw [heq]
      cases ts.expandHead bound (room + 1) form with
      | error e => exact .inr rfl
      | ok g =>
        cases g with
        | list items =>
          simp only
          cases Templates.isQuoted items with
          | true => exact .inr rfl
          | false =>
            have hroom' : room ≤ room' := by omega
            rcases mapM_mono (fun v => ih hroom' v) items with ⟨e, he, hk⟩ | heqs
            · rw [he]
              exact .inl ⟨e, rfl, hk⟩
            · rw [heqs]
              exact .inr rfl
        | _ => exact .inr rfl

end

/-! Evaluating with more room. -/

/-- From every state `m` runs into a limit on depth, or `m'` has its outcome and
leaves the state that it leaves. -/
def Widens (m m' : Run α) : Prop := ∀ st : State, IsDeep (m st).1 ∨ m' st = m st

theorem widens_of_deep {e : RunError} (h : e.kind? = some .depthExceeded) (m' : Run α) :
    Widens (Run.fail e) m' :=
  fun _ => .inl ⟨e, rfl, h⟩

theorem widens_lift {r r' : Except RunError α} (h : IsDeep r ∨ r' = r) :
    Widens (Run.lift r) (Run.lift r') := by
  intro st
  rcases h with hdeep | rfl
  · exact .inl hdeep
  · exact .inr rfl

/-- What runs no deeper under the same limit is refused only where the other is. -/
theorem widens_within {lim lim' : Limits} (hnest : lim'.nesting = lim.nesting) {h h' : Nat}
    (hh : h' ≤ h) {m m' : Run α} (hm : Widens m m') :
    Widens (Run.within lim h m) (Run.within lim' h' m') := by
  unfold Run.within
  rw [hnest]
  cases lim.nesting with
  | none => exact hm
  | some n =>
    simp only [Option.any_some, decide_eq_true_eq]
    by_cases hn : n < h
    · rw [if_pos hn]
      exact widens_of_deep rfl _
    · rw [if_neg hn, if_neg (by omega)]
      exact hm

theorem coupling_widens {lim lim' : Limits} (hnest : lim'.nesting = lim.nesting) :
    Coupling (fun _ => True) lim lim' (fun h h' => h' ≤ h) Widens where
  itemwise := hereditary_true.itemwise
  pure' := fun _ _ => .inr rfl
  fail' := fun _ _ => .inr rfl
  bind' := by
    intro α β m m' f f' hm hf st
    rw [Run.bind_apply, Run.bind_apply]
    rcases hm st with ⟨e, he, hk⟩ | heq
    · obtain ⟨st', h⟩ : ∃ st', m st = (.error e, st') := ⟨_, Prod.ext he rfl⟩
      rw [h]
      exact .inl ⟨e, rfl, hk⟩
    · rw [heq]
      obtain ⟨r, st'⟩ := m st
      cases r with
      | error e => exact .inr rfl
      | ok a => exact hf a st'
  lookup' := fun _ _ _ => .inr rfl
  templates' := fun _ => .inr rfl
  named' := by
    intro head f f' hnone hsome st
    rw [Run.bind_apply, Run.bind_apply, Run.read_apply]
    cases st.templates.named? head with
    | none => exact hnone st
    | some t => exact hsome t trivial st
  define' := fun _ _ _ => .inr rfl
  addTemplate' := fun _ _ _ => .inr rfl
  inFrame' := by
    intro α frame m m' hm st
    rcases hm { st with scope := st.scope.push frame } with hdeep | heq
    · exact .inl hdeep
    · refine .inr ?_
      unfold Run.inFrame
      rw [heq]
  nested' := by
    intro α m m' hm st
    rcases hm { st with depth := st.depth + 1 } with hdeep | heq
    · exact .inl hdeep
    · refine .inr ?_
      unfold Run.nested
      rw [heq]
  deeper := fun n h => Nat.add_le_add_right h n
  within' := fun hh hm => widens_within hnest hh hm

/-- More room, a larger bound and a lower start change nothing about an evaluation
that does not run into a limit. -/
theorem widens_evalAt (lim lim' : Limits) (hnest : lim'.nesting = lim.nesting)
    (hbound : lim.expansions ≤ lim'.expansions) {room room' : Nat} (hroom : room ≤ room')
    {h h' : Nat} (hh : h' ≤ h) (form : Value) :
    Widens (evalAt lim room h form) (evalAt lim' room' h' form) := by
  have hK := coupling_widens hnest
  have hexpand : ∀ {room room' : Nat}, room ≤ room' → ∀ (ts : Templates) v,
      Widens (Run.lift (ts.expandAll lim.expansions room v))
        (Run.lift (ts.expandAll lim'.expansions room' v)) := fun hroom ts v =>
    widens_lift (expandAll_mono ts hbound hroom v)
  induction room generalizing room' h h' form with
  | zero =>
    rw [evalAt_eq, evalAt_eq]
    refine hK.evalWith (hexpand hroom) (fun _ _ _ _ _ => ?_) form trivial h h' hh
    exact widens_of_deep rfl _
  | succ room ih =>
    obtain ⟨room', rfl⟩ : ∃ n, room' = n + 1 := ⟨room' - 1, by omega⟩
    rw [evalAt_eq, evalAt_eq]
    refine hK.evalWith (hexpand hroom) (fun _ _ next hh _ => ?_) form trivial h h' hh
    exact hK.nested' (ih (by omega) hh next)

theorem roomAt_mono {bound bound' : Int} (h : bound ≤ bound') (depth : Nat) :
    Templates.roomAt bound depth ≤ Templates.roomAt bound' depth := by
  unfold Templates.roomAt
  omega

/-- A run under one bound that no limit on depth ends is the same run under every
larger bound: the same value or error, and the same state. So is settling a head,
and the full expansion of a form. -/
theorem evaluate_bound_mono {bound bound' : Int} (hbound : bound ≤ bound') (nesting : Option Nat)
    (form : Value) (st : State) :
    (¬ IsDeep (evaluate ⟨bound, nesting⟩ form st).1 →
      evaluate ⟨bound', nesting⟩ form st = evaluate ⟨bound, nesting⟩ form st) ∧
    (let head (b : Int) := st.templates.expandHead b (Templates.roomAt b st.depth) form
     ¬ IsDeep (head bound) → head bound' = head bound) ∧
    (let full (b : Int) := st.templates.expandAll b (Templates.roomAt b st.depth) form
     ¬ IsDeep (full bound) → full bound' = full bound) := by
  have hroom := roomAt_mono hbound st.depth
  refine ⟨fun hd => ?_, fun hd => ?_, fun hd => ?_⟩
  · have hrun := widens_evalAt ⟨bound, nesting⟩ ⟨bound', nesting⟩ rfl hbound hroom (Nat.le_refl 0)
      form
    exact (hrun st).resolve_left hd
  · exact (expandHead_mono st.templates hbound hroom form).resolve_left hd
  · exact (expandAll_mono st.templates hbound hroom form).resolve_left hd

/-- A macro for a sum, and one that is another's call. -/
def sumTemplates : Templates :=
  [("twice", ⟨"twice", ["x"], .list [.sym "+", .sym "x", .sym "x"]⟩),
   ("second", ⟨"second", ["x", "y"], .list [.sym "twice", .sym "y"]⟩)]

/-- `(define a (list (second 1 (twice 4)) (macroexpand (second 1 2))))` nests
three expansions, so it goes under a bound of three as under one of two hundred.
A bound of two ends it. -/
theorem evaluate_bound_mono_three :
    let form : Value := .list [.sym "define", .sym "a", .list [.sym "list",
      .list [.sym "second", .int 1, .list [.sym "twice", .int 4]],
      .list [.sym "macroexpand", .list [.sym "second", .int 1, .int 2]]]]
    let value : Value := .list [.int 16, .list [.sym "+", .int 2, .int 2]]
    let st : State := { scope := .root [], templates := sumTemplates }
    IsDeep (evaluate ⟨2, none⟩ form st).1 ∧
      evaluate ⟨200, none⟩ form st = (.ok value, { st with scope := .root [("a", value)] }) := by
  intro form value st
  have hthree : evaluate ⟨3, none⟩ form st =
      (.ok value, { st with scope := .root [("a", value)] }) := rfl
  refine ⟨⟨.expansionTooDeep 2, rfl, rfl⟩, ?_⟩
  have hmore := (evaluate_bound_mono (show (3 : Int) ≤ 200 by decide) none form st).1
  rw [hmore, hthree]
  rw [hthree]
  rintro ⟨e, he, -⟩
  cases he

end Formulary
