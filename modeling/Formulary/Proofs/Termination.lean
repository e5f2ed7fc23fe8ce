import Formulary.Proofs.Calls
import Formulary.Proofs.IntRange

/-
  Evaluation comes to an end.

  The evaluator is followed call by call (`Runs`), with nothing to bound the
  calls from outside. `Agrees` says that such a run exists, has the outcome of
  the evaluator, and makes only calls that descend: a call is about a part of
  the form of the call that makes it, or it is one expansion deeper, and never
  deeper than the bound. Since the room for expansions is the bound less the
  expansions that are nested already, `agrees_evaluate` goes by induction on the
  room and, for each room, on the parts of the form.
-/

namespace Formulary

namespace CallTree

/-- The call at the root may be made by a call that is about `form` and nested in
`depth` expansions: it is about a part of `form` with no expansion between, or
it is one expansion deeper, within the bound. -/
def Below (bound : Int) (depth : Nat) (form : Value) : CallTree → Prop
  | node c d _ => d = depth ∧ Value.Part c.form form ∨ d = depth + 1 ∧ (d : Int) ≤ bound

/-- Every call of the tree is below the call that makes it. -/
inductive Descends (bound : Int) : CallTree → Prop where
  | node {c : Call} {d : Nat} {calls : List CallTree} :
      (∀ t ∈ calls, t.Below bound d c.form) → (∀ t ∈ calls, Descends bound t) →
      Descends bound (.node c d calls)

end CallTree

/-- From a state with `d` nested expansions, the script runs to the outcome of
`m`, which leaves that number as it was, and the calls of the run descend from a
call that is about `form` and nested in `depth` expansions. -/
def Agrees (bound : Int) (depth : Nat) (form : Value) (d : Nat) {α : Type} (s : Script α)
    (m : Run α) : Prop :=
  ∀ st : State, st.depth = d → ∃ trees, Runs bound (s st) (m st).1 (m st).2 trees ∧
    (∀ t ∈ trees, t.Below bound depth form ∧ t.Descends bound) ∧ (m st).2.depth = d

namespace Agrees

variable {bound : Int} {depth d : Nat} {form : Value} {α β : Type}

theorem ofRun' {Q : α → Prop} {m : Run α} (h : KeepsDepth Q m) :
    Agrees bound depth form d (Script.ofRun m) m :=
  fun st hst => ⟨[], .done _ _, fun _ ht => (nomatch ht), (h st).1.trans hst⟩

theorem pure' (a : α) : Agrees bound depth form d (pure a) (pure a) :=
  fun _ hst => ⟨[], .done _ _, fun _ ht => (nomatch ht), hst⟩

theorem fail' (e : RunError) :
    Agrees bound depth form d (Script.ofRun (Run.fail e) : Script α) (Run.fail e) :=
  fun _ hst => ⟨[], .done _ _, fun _ ht => (nomatch ht), hst⟩

theorem bind' {s : Script α} {m : Run α} {f : α → Script β} {g : α → Run β}
    (hs : Agrees bound depth form d s m) (hf : ∀ a, Agrees bound depth form d (f a) (g a)) :
    Agrees bound depth form d (s >>= f) (m >>= g) := by
  intro st hst
  obtain ⟨trees, hrun, hfit, hd⟩ := hs st hst
  rw [Run.bind_apply]
  generalize m st = p at hrun hd ⊢
  obtain ⟨r, st'⟩ := p
  cases r with
  | error e => exact ⟨trees, hrun.andThen_error f, hfit, hd⟩
  | ok a =>
    obtain ⟨rest, hrest, hfit', hd'⟩ := hf a st' hd
    exact ⟨trees ++ rest, hrun.andThen hrest, List.forall_mem_append.2 ⟨hfit, hfit'⟩, hd'⟩

theorem bind_fail {s : Script α} {e : RunError} (hs : Agrees bound depth form d s (Run.fail e))
    (f : α → Script β) : Agrees bound depth form d (s >>= f) (Run.fail e) := by
  intro st hst
  obtain ⟨trees, hrun, hfit, hd⟩ := hs st hst
  exact ⟨trees, hrun.andThen_error f, hfit, hd⟩

theorem ite' {c : Prop} [Decidable c] {s t : Script α} {m n : Run α}
    (hs : Agrees bound depth form d s m) (ht : Agrees bound depth form d t n) :
    Agrees bound depth form d (if c then s else t) (if c then m else n) := by
  by_cases h : c
  · simpa only [h, if_true] using hs
  · simpa only [h, if_false] using ht

theorem inFrame' (frame : Frame) {s : Script α} {m : Run α}
    (h : Agrees bound depth form d s m) :
    Agrees bound depth form d (Script.inFrame frame s) (Run.inFrame frame m) := by
  intro st hst
  obtain ⟨trees, hrun, hfit, hd⟩ := h { st with scope := st.scope.push frame } hst
  exact ⟨trees, hrun.after _, hfit, hd⟩

theorem guarded' (hroom : ((d + 1 : Nat) : Int) ≤ bound) {s : Script α} {m : Run α}
    (h : Agrees bound depth form (d + 1) s m) :
    Agrees bound depth form d (Script.guarded bound s) (Run.nested m) := by
  intro st hst
  subst hst
  obtain ⟨trees, hrun, hfit, hd⟩ := h { st with depth := st.depth + 1 } rfl
  refine ⟨trees, ?_, hfit, Run.depth_nested hd⟩
  unfold Script.guarded
  rw [if_neg (by omega)]
  exact hrun.after _

theorem guarded_full (hroom : bound ≤ d) (s : Script α) :
    Agrees bound depth form d (Script.guarded bound s) (Run.fail (.expansionTooDeep bound)) := by
  intro st hst
  refine ⟨[], ?_, fun _ ht => (nomatch ht), hst⟩
  unfold Script.guarded
  rw [if_pos (by omega)]
  exact .done _ _

/-- A call agrees with what its own body agrees with, if it may be made. -/
theorem call' {c : Call} {m : Run Value} (h : Agrees bound d c.form d (c.body bound) m)
    (hbelow : d = depth ∧ Value.Part c.form form ∨ d = depth + 1 ∧ (d : Int) ≤ bound) :
    Agrees bound depth form d (Script.call c) m := by
  intro st hst
  subst hst
  obtain ⟨calls, hrun, hfit, hd⟩ := h st rfl
  refine ⟨[.node c st.depth calls], .call hrun (.done _ _), ?_, hd⟩
  intro t ht
  rw [List.mem_singleton.1 ht]
  exact ⟨hbelow, .node (fun t ht => (hfit t ht).1) fun t ht => (hfit t ht).2⟩

end Agrees

/-! The special forms and applications. -/

section

variable {bound : Int} {depth : Nat} {form : Value} {room : Nat}
  {expansion : Nat → Value → Run Value}

/-- A call of the evaluator agrees with the evaluator. -/
def AgreesOn (bound : Int) (depth : Nat) (form : Value) (room : Nat)
    (expansion : Nat → Value → Run Value) (f : Value) : Prop :=
  ∀ h, Agrees bound depth form depth (Script.call (.evaluate f))
    (evalWith ⟨bound, none⟩ room expansion h f)

theorem agrees_args {fs : List Value} (hfs : ∀ f ∈ fs, AgreesOn bound depth form room expansion f)
    (height : Nat) : Agrees bound depth form depth (Script.callAll .evaluate fs)
      (evalArgs ⟨bound, none⟩ room expansion height fs) := by
  induction fs with
  | nil =>
    rw [evalArgs]
    exact .pure' []
  | cons f fs ih =>
    rw [evalArgs]
    refine .bind' (hfs f List.mem_cons_self height) fun v => ?_
    exact .bind' (ih fun g hg => hfs g (List.mem_cons_of_mem _ hg)) fun vs => .pure' _

theorem agrees_body {fs : List Value} (hfs : ∀ f ∈ fs, AgreesOn bound depth form room expansion f)
    (height : Nat) (last : Value) : Agrees bound depth form depth (Script.callBody last fs)
      (evalBody ⟨bound, none⟩ room expansion height last fs) := by
  induction fs generalizing last with
  | nil =>
    rw [evalBody]
    exact .pure' last
  | cons f fs ih =>
    rw [evalBody]
    refine .bind' (hfs f List.mem_cons_self _) fun v => ?_
    exact ih (fun g hg => hfs g (List.mem_cons_of_mem _ hg)) v

theorem agrees_define {fs : List Value}
    (hfs : ∀ f ∈ fs, AgreesOn bound depth form room expansion f) (height : Nat) :
    Agrees bound depth form depth (defineBody fs)
      (evalDefine ⟨bound, none⟩ room expansion height fs) := by
  match fs with
  | [] | [_] | _ :: _ :: _ :: _ =>
    simp only [evalDefine]
    exact .fail' _
  | [.sym name, value] =>
    rw [evalDefine]
    refine .bind' (hfs value (by simp) _) fun v => ?_
    exact .bind' (.ofRun' (keeping_keepsDepth.define' name trivial)) fun _ => .pure' v
  | [.int _, _] | [.float _, _] | [.str _, _] | [.bool _, _] | [.nil, _] | [.elem _, _]
  | [.list _, _] =>
    rw [evalDefine_target _ room expansion height (by simp)]
    exact .fail' _

theorem agrees_cond {fs : List Value} (hfs : ∀ f ∈ fs, AgreesOn bound depth form room expansion f)
    (height : Nat) : Agrees bound depth form depth (condBody fs)
      (evalCond ⟨bound, none⟩ room expansion height fs) := by
  match fs with
  | [] | [_] | _ :: _ :: _ :: _ :: _ =>
    simp only [evalCond]
    exact .fail' _
  | [test, yes] =>
    rw [evalCond]
    exact .bind' (hfs test (by simp) _) fun t => .ite' (hfs yes (by simp) _) (.pure' _)
  | [test, yes, no] =>
    rw [evalCond]
    exact .bind' (hfs test (by simp) _) fun t => .ite' (hfs yes (by simp) _) (hfs no (by simp) _)

theorem agrees_bindings {bs : List Value}
    (hbs : ∀ b ∈ bs, ∀ w, Value.Part w b → AgreesOn bound depth form room expansion w)
    (height : Nat) (frame : Frame) : Agrees bound depth form depth (bindingsBody frame bs)
      (evalBindings ⟨bound, none⟩ room expansion height frame bs) := by
  induction bs generalizing frame with
  | nil =>
    rw [evalBindings]
    exact .pure' frame
  | cons b bs ih =>
    by_cases hpair : ∃ name value, b = .list [.sym name, value]
    · obtain ⟨name, value, rfl⟩ := hpair
      have hvalue := hbs _ List.mem_cons_self value (.item (by simp))
      rw [evalBindings]
      refine .bind' (hvalue _) fun v => ?_
      exact ih (fun c hc => hbs c (List.mem_cons_of_mem _ hc)) _
    · have hb : ∀ name value, b ≠ .list [.sym name, value] := fun name value h =>
        hpair ⟨name, value, h⟩
      rw [evalBindings_malformed _ room expansion height hb, bindingsBody]
      · exact .fail' _
      · intro name value h
        exact hb name value h

theorem agrees_let {tail : List Value}
    (htail : ∀ f ∈ tail, AgreesOn bound depth form room expansion f ∧
      ∀ w, Value.Part w f → AgreesOn bound depth form room expansion w) (height : Nat) :
    Agrees bound depth form depth (letBody tail)
      (evalLet ⟨bound, none⟩ room expansion height tail) := by
  match tail with
  | [] =>
    rw [evalLet]
    exact .fail' _
  | bindings :: body =>
    have hbody : ∀ f ∈ body, AgreesOn bound depth form room expansion f := fun f hf =>
      (htail f (List.mem_cons_of_mem _ hf)).1
    simp only [letBody]
    cases hempty : body.isEmpty with
    | true =>
      rw [evalLet_noBody _ room expansion height bindings hempty, if_pos rfl]
      exact .fail' _
    | false =>
      rw [if_neg Bool.false_ne_true]
      cases bindings with
      | list bs =>
        rw [evalLet, hempty, if_neg Bool.false_ne_true]
        have hbs : ∀ b ∈ bs, ∀ w, Value.Part w b → AgreesOn bound depth form room expansion w :=
          fun b hb w hw => (htail _ List.mem_cons_self).2 w (.inside hw hb)
        refine .bind' (agrees_bindings hbs height []) fun frame => ?_
        exact .inFrame' frame (agrees_body hbody height .nil)
      | _ =>
        rw [evalLet_notAList _ room expansion height (by simp) hempty]
        exact .fail' _

theorem agrees_operator {head : Value} (hhead : AgreesOn bound depth form room expansion head)
    (height : Nat) : Agrees bound depth form depth (operatorBody head)
      (operator (evalWith ⟨bound, none⟩ room expansion height) head) := by
  unfold operatorBody operator
  cases Primitive.ofValue? head with
  | some p => exact .pure' p
  | none =>
    refine .bind' (.ofRun' (keeping_keepsDepth.read' _)) fun unbound => ?_
    cases unbound with
    | some name => exact .fail' _
    | none =>
      refine .bind' (hhead height) fun target => ?_
      cases Primitive.ofValue? target with
      | some p => exact .pure' p
      | none => exact .fail' _

end

/-! Full expansion. -/

def expandWith (bound : Int) (room : Nat) (form : Value) : Run Value := do
  let ts ← Run.read State.templates
  Run.lift (ts.expandAll bound room form)

def expandEach (bound : Int) (room : Nat) : List Value → Run (List Value)
  | [] => pure []
  | f :: fs => do
    let v ← expandWith bound room f
    let vs ← expandEach bound room fs
    pure (v :: vs)

theorem expandEach_apply (bound : Int) (room : Nat) (items : List Value) (st : State) :
    expandEach bound room items st = (items.mapM (st.templates.expandAll bound room), st) := by
  induction items with
  | nil => rfl
  | cons f fs ih =>
    have hf : expandWith bound room f st = (st.templates.expandAll bound room f, st) := rfl
    rw [expandEach, Run.bind_apply, hf, List.mapM_cons]
    cases st.templates.expandAll bound room f with
    | error e => rfl
    | ok v =>
      simp only [Run.bind_apply, ih]
      cases fs.mapM (st.templates.expandAll bound room) <;> rfl

theorem expandWith_succ (bound : Int) (room : Nat) (form : Value) :
    expandWith bound (room + 1) form = (do
      match ← Run.nested (settleHead bound form) with
      | .list items =>
        if Templates.isQuoted items then pure (.list items)
        else Run.nested do
          let vs ← expandEach bound room items
          pure (.list vs)
      | v => pure v) := by
  funext st
  have hsettle : Run.nested (settleHead bound form) st =
      (st.templates.settle bound bound.toNat form, st) := rfl
  have hexpand : expandWith bound (room + 1) form st =
      (st.templates.expandAll bound (room + 1) form, st) := rfl
  rw [hexpand, Templates.expandAll, Templates.expandHead, if_neg (Nat.succ_ne_zero room),
    Run.bind_apply, hsettle]
  cases st.templates.settle bound bound.toNat form with
  | error e => rfl
  | ok g =>
    cases g with
    | list items =>
      simp only
      split
      · rfl
      · -- the macros are the same one expansion deeper
        have heach := expandEach_apply bound room items { st with depth := st.depth + 1 }
        simp only [Run.nested, Run.bind_apply, heach]
        cases items.mapM (st.templates.expandAll bound room) <;> rfl
    | _ => rfl

section

variable {bound : Int}

theorem le_of_roomAt_zero {d : Nat} (h : Templates.roomAt bound d = 0) : bound ≤ d := by
  unfold Templates.roomAt at h
  omega

theorem roomAt_succ {room d : Nat} (h : Templates.roomAt bound d = room + 1) :
    ((d + 1 : Nat) : Int) ≤ bound ∧ Templates.roomAt bound (d + 1) = room := by
  unfold Templates.roomAt at h ⊢
  omega

theorem keepsDepth_settleHead (form : Value) :
    KeepsDepth (fun _ => True) (settleHead bound form) :=
  fun _ => ⟨rfl, fun _ _ => trivial⟩

theorem agrees_expandAll {room d : Nat} (hroom : Templates.roomAt bound d = room) (form : Value) :
    Agrees bound d form d ((Call.expandAll form).body bound) (expandWith bound room form) := by
  induction room generalizing d form with
  | zero =>
    have hfull := le_of_roomAt_zero hroom
    have hfail : expandWith bound 0 form = Run.fail (.expansionTooDeep bound) := rfl
    rw [hfail]
    exact .bind_fail (.guarded_full hfull _) _
  | succ room ih =>
    obtain ⟨hone, hnext⟩ := roomAt_succ hroom
    -- the parts are expanded one expansion deeper, whatever they are parts of
    have hitems : ∀ items, Agrees bound d form (d + 1) (Script.callAll .expandAll items)
        (expandEach bound room items) := by
      intro items
      induction items with
      | nil => exact .pure' []
      | cons f fs ihfs =>
        refine .bind' (.call' (ih hnext f) (.inr ⟨rfl, hone⟩)) fun v => ?_
        exact .bind' ihfs fun vs => .pure' _
    rw [expandWith_succ]
    refine .bind' (.guarded' hone (.ofRun' (keepsDepth_settleHead form))) fun g => ?_
    cases g with
    | list items => exact .ite' (.pure' _) (.guarded' hone (.bind' (hitems items) fun _ => .pure' _))
    | _ => exact .pure' _

/-! The evaluator. -/

section

variable {room d : Nat} {expansion : Nat → Value → Run Value} {head : Value} {tail : List Value}
  (hparts : ∀ w, Value.Part w (.list (head :: tail)) →
    AgreesOn bound d (.list (head :: tail)) room expansion w) (height : Nat)
include hparts

theorem agrees_special (hroom : Templates.roomAt bound d = room) (f : SpecialForm) :
    Agrees bound d (.list (head :: tail)) d (specialBody f tail)
      (evalSpecial ⟨bound, none⟩ room expansion height f tail) := by
  have hitem : ∀ v ∈ tail, AgreesOn bound d (.list (head :: tail)) room expansion v := fun v hv =>
    hparts v (.item (List.mem_cons_of_mem _ hv))
  cases f with
  | define => exact agrees_define hitem height
  | cond => exact agrees_cond hitem height
  | begin => exact agrees_body hitem height .nil
  | quote =>
    refine .ofRun' (Q := fun _ => True) ?_
    match tail with
    | [v] => exact keeping_keepsDepth.pure' trivial
    | [] | _ :: _ :: _ => exact keeping_keepsDepth.fail' rfl
  | letIn =>
    refine agrees_let (fun v hv => ⟨hitem v hv, fun w hw => hparts w ?_⟩) height
    exact .inside hw (List.mem_cons_of_mem _ hv)
  | template =>
    exact .ofRun' (keeping_keepsDepth.evalTemplate hereditary_true fun _ _ => trivial)
  | expandOnce =>
    refine .ofRun' (keeping_keepsDepth.evalExpansion hereditary_true ?_ fun _ _ => trivial)
    exact fun ts hts v hv => hereditary_true.expandOnce hts hv
  | expandFully =>
    match tail with
    | [] | _ :: _ :: _ => exact .fail' _
    | [v] =>
      -- with or without its quote, what is expanded is a part of the form
      refine .call' (agrees_expandAll hroom (unquoted v)) (.inl ⟨rfl, ?_⟩)
      have hv : v ∈ [head, v] := by simp
      rcases unquoted_eq_or_part v with h | h
      · exact .item (by rw [Call.form, h]; exact hv)
      · exact .inside h hv

theorem agrees_apply (hexp : ∀ next, Agrees bound d (.list (head :: tail)) d
      (Script.guarded bound (Script.call (.evaluate next))) (expansion (height + 1) next)) :
    Agrees bound d (.list (head :: tail)) d (applyBody bound head tail)
      (evalApply ⟨bound, none⟩ room expansion height head tail) := by
  unfold applyBody evalApply
  refine .bind' (.ofRun' (keeping_keepsDepth.named' head)) fun found => ?_
  cases found with
  | some t =>
    have hlift : KeepsDepth (fun _ => True) (Run.lift (t.apply tail)) :=
      fun _ => ⟨rfl, fun _ _ => trivial⟩
    exact .bind' (.ofRun' hlift) fun next => hexp next
  | none =>
    refine .bind' (agrees_operator (hparts head (.item List.mem_cons_self)) _) fun op => ?_
    refine .bind' (agrees_args (fun v hv => hparts v (.item (List.mem_cons_of_mem _ hv))) _)
      fun args => ?_
    exact .ofRun' (keeping_keepsDepth.primitive' op fun _ _ => trivial)

end

/-- With what agrees on expansions, a call of the evaluator agrees on every form. -/
theorem agrees_evalWith {room d : Nat} (hroom : Templates.roomAt bound d = room)
    {expansion : Nat → Value → Run Value} (hexp : ∀ form next height, Agrees bound d form d
      (Script.guarded bound (Script.call (.evaluate next))) (expansion height next))
    (form : Value) : ∀ height, Agrees bound d form d ((Call.evaluate form).body bound)
      (evalWith ⟨bound, none⟩ room expansion height form) := by
  induction form using Value.partInduction with
  | step form ih =>
    intro height
    match form with
    | .sym name =>
      rw [evalWith_sym]
      exact .ofRun' (keeping_keepsDepth.resolve hereditary_true name)
    | .list (head :: tail) =>
      -- a call on a part is allowed at the same number of nested expansions
      have hparts : ∀ w, Value.Part w (.list (head :: tail)) →
          AgreesOn bound d (.list (head :: tail)) room expansion w := fun w hw h =>
        .call' (ih w hw h) (.inl ⟨rfl, hw⟩)
      cases hs : SpecialForm.ofHead? head with
      | some f =>
        have hbody : (Call.evaluate (.list (head :: tail))).body bound = specialBody f tail := by
          simp only [Call.body, evaluateBody, hs]
        rw [hbody, evalWith_special _ room expansion height tail hs]
        exact agrees_special hparts height hroom f
      | none =>
        have hbody : (Call.evaluate (.list (head :: tail))).body bound =
            applyBody bound head tail := by
          simp only [Call.body, evaluateBody, hs]
        rw [hbody, evalWith_apply _ room expansion height tail hs]
        exact agrees_apply hparts height fun next => hexp _ next _
    | .int _ | .float _ | .str _ | .bool _ | .nil | .elem _ | .list [] =>
      rw [evalWith_atom _ room expansion height (by simp) (by simp)]
      exact .pure' _

theorem agrees_evaluate {room d : Nat} (hroom : Templates.roomAt bound d = room) (form : Value)
    (height : Nat) : Agrees bound d form d ((Call.evaluate form).body bound)
      (evalAt ⟨bound, none⟩ room height form) := by
  induction room generalizing d form height with
  | zero =>
    rw [evalAt_eq]
    refine agrees_evalWith hroom (fun _ next _ => ?_) form height
    exact .guarded_full (le_of_roomAt_zero hroom) _
  | succ room ih =>
    rw [evalAt_eq]
    obtain ⟨hone, hnext⟩ := roomAt_succ hroom
    refine agrees_evalWith hroom (fun _ next h => ?_) form height
    -- the expansion has less room, and the call of it is one expansion deeper
    exact .guarded' hone (.call' (ih hnext next h) (.inr ⟨rfl, hone⟩))

end

/-! Settling a head. -/

/-- Settling a head inside of `d` expansions ends in a form that is no call,
reached within the bound, or in an error of the language. -/
theorem lawful_expandHead (ts : Templates) (bound : Int) (d : Nat) (form : Value) :
    Lawful (fun g => (d : Int) < bound ∧ ts.call? g = none ∧
        ∃ n : Nat, (n : Int) < bound ∧ HeadExpands ts n form g)
      (ts.expandHead bound (Templates.roomAt bound d) form) := by
  have htrue : ts.Has fun _ => True := fun _ _ => trivial
  have hlawful : Lawful (fun _ => True) (ts.expandHead bound (Templates.roomAt bound d) form) :=
    hereditary_true.expandHead htrue bound _ trivial
  cases h : ts.expandHead bound (Templates.roomAt bound d) form with
  | error e => rwa [h] at hlawful
  | ok g =>
    unfold Templates.expandHead at h
    split at h
    · cases h
    · rename_i hroom
      obtain ⟨n, hn, hsteps, hg⟩ := headExpands_of_settle h
      unfold Templates.roomAt at hroom
      exact ⟨by omega, hg, n, by omega, hsteps⟩

/-! Termination. -/

/-- A call comes to an end, with an outcome and a state: it has a run, whose
calls all descend, and no other run; and the outcome is a value or an error of
the language. -/
structure Call.Ends (bound : Int) (c : Call) (st : State) (r : Except RunError Value)
    (st' : State) : Prop where
  run : ∃ calls, Runs bound (c.body bound st) r st' calls ∧
    (CallTree.node c st.depth calls).Descends bound
  only : ∀ r₀ st₀ calls, Runs bound (c.body bound st) r₀ st₀ calls → r₀ = r ∧ st₀ = st'
  outcome : Lawful (fun _ => True) r

theorem Agrees.ends {bound : Int} {c : Call} {st : State} {m : Run Value}
    (h : Agrees bound st.depth c.form st.depth (c.body bound) m)
    (hr : Lawful (fun _ => True) (m st).1) : c.Ends bound st (m st).1 (m st).2 := by
  obtain ⟨calls, hrun, hfit, -⟩ := h st rfl
  refine ⟨⟨calls, hrun, ?_⟩, ?_, hr⟩
  · exact .node (fun t ht => (hfit t ht).1) fun t ht => (hfit t ht).2
  · intro r₀ st₀ calls₀ hrun₀
    obtain ⟨rfl, rfl, -⟩ := hrun.unique hrun₀
    exact ⟨rfl, rfl⟩

/-- Evaluation ends, with a value or an error of the language, whatever macros
there are or come to be: calls go to parts of a form, or one expansion deeper and
never beyond the bound. So does the full expansion of a form, and a head settles
or is given up after no more expansions than the bound. -/
theorem evaluate_terminates (bound : Int) (form : Value) (st : State) (hform : form.InRange)
    (hst : st.Has Value.InRange) :
    (Call.evaluate form).Ends bound st (evaluate ⟨bound, none⟩ form st).1
      (evaluate ⟨bound, none⟩ form st).2 ∧
    (Call.expandAll form).Ends bound st
      (st.templates.expandAll bound (Templates.roomAt bound st.depth) form) st ∧
    Lawful (fun g => (st.depth : Int) < bound ∧ st.templates.call? g = none ∧
        ∃ n : Nat, (n : Int) < bound ∧ HeadExpands st.templates n form g)
      (st.templates.expandHead bound (Templates.roomAt bound st.depth) form) := by
  refine ⟨?_, ?_, lawful_expandHead st.templates bound st.depth form⟩
  · have hagrees : Agrees bound st.depth form st.depth ((Call.evaluate form).body bound)
        (evalAt ⟨bound, none⟩ (Templates.roomAt bound st.depth) 0 form) :=
      agrees_evaluate rfl form 0
    obtain ⟨-, hlawful⟩ := keepsValues_evaluate ⟨bound, none⟩ hform st hst
    exact hagrees.ends (hlawful.imp fun _ _ => trivial)
  · have hagrees : Agrees bound st.depth form st.depth ((Call.expandAll form).body bound)
        (expandWith bound (Templates.roomAt bound st.depth) form) := agrees_expandAll rfl form
    exact hagrees.ends (hereditary_true.expandAll (fun _ _ => trivial) bound _ trivial)

/-- A macro that stands for two calls of itself, one of them with more in it. -/
def runawayTemplates : Templates :=
  [("m", ⟨"m", ["x"], .list [.sym "begin", .list [.sym "define", .sym "a", .sym "x"],
    .list [.sym "m", .list [.sym "+", .sym "x", .sym "x"]], .list [.sym "m", .int 1]]⟩)]

/-- A call of it runs into the bound after it has bound `a` three times. -/
theorem evaluate_terminates_runaway :
    let st : State := { scope := .root [], templates := runawayTemplates }
    (Call.evaluate (.list [.sym "m", .int 1])).Ends 3 st (.error (.expansionTooDeep 3))
      { st with scope := .root [("a", .int 4)] } := by
  intro st
  have hform : Value.InRange (.list [.sym "m", .int 1]) := by
    intro n hn
    simp [Value.ints, Value.itemInts] at hn
    subst hn
    rfl
  have hst : st.Has Value.InRange := by
    refine ⟨?_, ?_⟩
    · intro f hf p hp
      rw [List.mem_singleton.1 hf] at hp
      cases hp
    · intro p hp n hn
      rw [List.mem_singleton.1 hp] at hn
      simp [Value.ints, Value.itemInts] at hn
      subst hn
      rfl
  exact (evaluate_terminates 3 _ st hform hst).1

end Formulary
