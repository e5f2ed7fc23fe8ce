import Formulary.Proofs.Invariant

/-
  Two evaluations in step.

  A form may be evaluated twice: under two bounds, or from two states. `K m m'`
  relates what the two sides do, and `Coupling` lists the rules by which it is
  proved while they go along together: both end in one value or error, go on
  with what both have read, change the state in the same way, or go one frame or
  one expansion deeper.

  `C` is what is asked of the code: a name is looked up only if the symbol has
  it, and `K` may rest on that. The bodies of macros must have it too, since
  they come back as code. Values need not, since nothing turns a value into
  code. `H` relates the heights of the two.

  One walk over the evaluator (`Coupling.evalWith`) proves `K` of it for every
  form with `C`, if it holds where the evaluator leaves off: at the expansion of
  a macro call and at the full expansion of a form.
-/

namespace Formulary

variable {α β : Type}

/-- Rules by which `K m m'` is proved of computations that the evaluator is made
of, under the limits `lim` and `lim'`. -/
structure Coupling (C : Value → Prop) (lim lim' : Limits) (H : Nat → Nat → Prop)
    (K : {α : Type} → Run α → Run α → Prop) : Prop where
  itemwise : Value.Itemwise C
  pure' : ∀ {α : Type} (a : α), K (pure a) (pure a)
  fail' : ∀ {α : Type} (e : RunError), K (Run.fail e : Run α) (Run.fail e)
  bind' : ∀ {α β : Type} {m m' : Run α} {f f' : α → Run β},
    K m m' → (∀ a, K (f a) (f' a)) → K (m >>= f) (m' >>= f')
  lookup' : ∀ name, C (.sym name) →
    K (Run.read fun st => st.scope.lookup name) (Run.read fun st => st.scope.lookup name)
  templates' : K (Run.read State.templates) (Run.read State.templates)
  named' : ∀ (head : Value) {f f' : Option Template → Run Value}, K (f none) (f' none) →
    (∀ t, C t.body → K (f (some t)) (f' (some t))) →
    K (Run.read (fun st => st.templates.named? head) >>= f)
      (Run.read (fun st => st.templates.named? head) >>= f')
  define' : ∀ name v, K (Run.define name v) (Run.define name v)
  addTemplate' : ∀ t, C t.body → K (Run.addTemplate t) (Run.addTemplate t)
  inFrame' : ∀ {α : Type} (frame : Frame) {m m' : Run α},
    K m m' → K (Run.inFrame frame m) (Run.inFrame frame m')
  nested' : ∀ {α : Type} {m m' : Run α}, K m m' → K (Run.nested m) (Run.nested m')
  deeper : ∀ {h h' : Nat} (n : Nat), H h h' → H (h + n) (h' + n)
  within' : ∀ {α : Type} {h h' : Nat} {m m' : Run α}, H h h' → K m m' →
    K (Run.within lim h m) (Run.within lim' h' m')

/-- The evaluators of two sides are in step on a form. -/
def InStep (lim lim' : Limits) (H : Nat → Nat → Prop) (K : {α : Type} → Run α → Run α → Prop)
    (room room' : Nat) (expansion expansion' : Nat → Value → Run Value) (form : Value) : Prop :=
  ∀ h h', H h h' →
    K (evalWith lim room expansion h form) (evalWith lim' room' expansion' h' form)

namespace Coupling

variable {C : Value → Prop} {lim lim' : Limits} {H : Nat → Nat → Prop}
  {K : {α : Type} → Run α → Run α → Prop} (hK : Coupling C lim lim' H K)
include hK

theorem lift' (r : Except RunError α) : K (Run.lift r) (Run.lift r) := by
  cases r with
  | ok a => exact hK.pure' a
  | error e => exact hK.fail' e

theorem liftBind {Q : α → Prop} {r : Except RunError α} (hr : Lawful Q r) {f f' : α → Run β}
    (hf : ∀ a, Q a → K (f a) (f' a)) : K (Run.lift r >>= f) (Run.lift r >>= f') := by
  cases r with
  | ok a => exact hf a hr
  | error e => exact hK.fail' e

theorem resolve (name : String) (hname : C (.sym name)) : K (resolve name) (resolve name) := by
  unfold Formulary.resolve
  refine hK.bind' (hK.lookup' name hname) fun found => ?_
  cases found with
  | some v => exact hK.pure' v
  | none =>
    cases (Primitive.ofName? name).isSome with
    | true => exact hK.pure' _
    | false => exact hK.fail' _

theorem isUnbound {head : Value} (hhead : C head) :
    K (Run.read (isUnbound head)) (Run.read (isUnbound head)) := by
  cases head with
  | sym name =>
    have hread : Run.read (Formulary.isUnbound (.sym name)) = (do
        let found ← Run.read fun st => st.scope.lookup name
        pure (if found.isNone then some name else none)) := rfl
    rw [hread]
    exact hK.bind' (hK.lookup' name hhead) fun found => hK.pure' _
  | _ => exact hK.pure' none

theorem operator {ev ev' : Value → Run Value} {head : Value} (hhead : C head)
    (hev : K (ev head) (ev' head)) : K (operator ev head) (operator ev' head) := by
  unfold Formulary.operator
  cases Primitive.ofValue? head with
  | some p => exact hK.pure' p
  | none =>
    refine hK.bind' (hK.isUnbound hhead) fun unbound => ?_
    cases unbound with
    | some name => exact hK.fail' _
    | none =>
      refine hK.bind' hev fun target => ?_
      cases Primitive.ofValue? target with
      | some p => exact hK.pure' p
      | none => exact hK.fail' _

theorem evalTemplate {tail : List Value} (htail : ∀ v ∈ tail, C v) :
    K (evalTemplate tail) (evalTemplate tail) := by
  unfold Formulary.evalTemplate
  split
  · split
    · split
      · rename_i body _ name _ formals
        have hmake := lawful_make (V := C) name formals (htail body (by simp))
        refine hK.liftBind hmake fun t ht => ?_
        exact hK.bind' (hK.addTemplate' t ht) fun _ => hK.pure' _
      · exact hK.fail' _
    · exact hK.fail' _
  · exact hK.fail' _

/-- The expanding forms hand out data: whatever the two expansions give, they
only have to be in step. -/
theorem evalExpansion {form : SpecialForm}
    {expand expand' : Templates → Value → Except RunError Value}
    (hexpand : ∀ ts v, K (Run.lift (expand ts v)) (Run.lift (expand' ts v))) (tail : List Value) :
    K (evalExpansion form expand tail) (evalExpansion form expand' tail) := by
  match tail with
  | [] | _ :: _ :: _ => exact hK.fail' _
  | [v] => exact hK.bind' hK.templates' fun ts => hexpand ts _

section

variable {room room' : Nat} {expansion expansion' : Nat → Value → Run Value}

theorem evalArgs {fs : List Value}
    (hfs : ∀ f ∈ fs, InStep lim lim' H K room room' expansion expansion' f) {h h' : Nat}
    (hh : H h h') :
    K (evalArgs lim room expansion h fs) (evalArgs lim' room' expansion' h' fs) := by
  induction fs with
  | nil =>
    rw [Formulary.evalArgs, Formulary.evalArgs]
    exact hK.pure' []
  | cons f fs ih =>
    rw [Formulary.evalArgs, Formulary.evalArgs]
    refine hK.bind' (hfs f List.mem_cons_self h h' hh) fun v => ?_
    exact hK.bind' (ih fun g hg => hfs g (List.mem_cons_of_mem _ hg)) fun vs => hK.pure' _

theorem evalBody {fs : List Value}
    (hfs : ∀ f ∈ fs, InStep lim lim' H K room room' expansion expansion' f) {h h' : Nat}
    (hh : H h h') (last : Value) :
    K (evalBody lim room expansion h last fs) (evalBody lim' room' expansion' h' last fs) := by
  induction fs generalizing last with
  | nil =>
    rw [Formulary.evalBody, Formulary.evalBody]
    exact hK.pure' last
  | cons f fs ih =>
    rw [Formulary.evalBody, Formulary.evalBody]
    refine hK.bind' (hfs f List.mem_cons_self _ _ (hK.deeper 2 hh)) fun v => ?_
    exact ih (fun g hg => hfs g (List.mem_cons_of_mem _ hg)) v

theorem evalDefine {fs : List Value}
    (hfs : ∀ f ∈ fs, InStep lim lim' H K room room' expansion expansion' f) {h h' : Nat}
    (hh : H h h') :
    K (evalDefine lim room expansion h fs) (evalDefine lim' room' expansion' h' fs) := by
  match fs with
  | [] | [_] | _ :: _ :: _ :: _ =>
    simp only [Formulary.evalDefine]
    exact hK.fail' _
  | [target, form] =>
    by_cases hname : ∃ name, target = .sym name
    · obtain ⟨name, rfl⟩ := hname
      rw [Formulary.evalDefine, Formulary.evalDefine]
      refine hK.bind' (hfs form (by simp) _ _ (hK.deeper 2 hh)) fun v => ?_
      exact hK.bind' (hK.define' name v) fun _ => hK.pure' v
    · have ht : ∀ name, target ≠ .sym name := fun name h => hname ⟨name, h⟩
      rw [evalDefine_target lim room _ h ht, evalDefine_target lim' room' _ h' ht]
      exact hK.fail' _

theorem evalCond {fs : List Value}
    (hfs : ∀ f ∈ fs, InStep lim lim' H K room room' expansion expansion' f) {h h' : Nat}
    (hh : H h h') :
    K (evalCond lim room expansion h fs) (evalCond lim' room' expansion' h' fs) := by
  have hpart : ∀ f ∈ fs, K (evalWith lim room expansion (h + 2) f)
      (evalWith lim' room' expansion' (h' + 2) f) := fun f hf => hfs f hf _ _ (hK.deeper 2 hh)
  match fs with
  | [] | [_] | _ :: _ :: _ :: _ :: _ =>
    simp only [Formulary.evalCond]
    exact hK.fail' _
  | [test, yes] =>
    rw [Formulary.evalCond, Formulary.evalCond]
    refine hK.bind' (hpart test (by simp)) fun t => ?_
    cases t.isTruthy with
    | true => exact hpart yes (by simp)
    | false => exact hK.pure' _
  | [test, yes, no] =>
    rw [Formulary.evalCond, Formulary.evalCond]
    refine hK.bind' (hpart test (by simp)) fun t => ?_
    cases t.isTruthy with
    | true => exact hpart yes (by simp)
    | false => exact hpart no (by simp)

theorem evalBindings {bs : List Value} (hbs : ∀ b ∈ bs, ∀ w, Value.Part w b →
      InStep lim lim' H K room room' expansion expansion' w) {h h' : Nat} (hh : H h h')
    (frame : Frame) : K (evalBindings lim room expansion h frame bs)
      (evalBindings lim' room' expansion' h' frame bs) := by
  induction bs generalizing frame with
  | nil =>
    rw [Formulary.evalBindings, Formulary.evalBindings]
    exact hK.pure' frame
  | cons b bs ih =>
    by_cases hpair : ∃ name form, b = .list [.sym name, form]
    · obtain ⟨name, form, rfl⟩ := hpair
      have hform := hbs _ List.mem_cons_self form (.item (by simp))
      rw [Formulary.evalBindings, Formulary.evalBindings]
      refine hK.bind' (hform _ _ (hK.deeper 2 hh)) fun v => ?_
      exact ih (fun c hc => hbs c (List.mem_cons_of_mem _ hc)) _
    · have hb : ∀ name form, b ≠ .list [.sym name, form] := fun name form h =>
        hpair ⟨name, form, h⟩
      rw [evalBindings_malformed lim room _ h hb, evalBindings_malformed lim' room' _ h' hb]
      exact hK.fail' _

theorem evalLet {tail : List Value}
    (htail : ∀ f ∈ tail, InStep lim lim' H K room room' expansion expansion' f ∧
      ∀ w, Value.Part w f → InStep lim lim' H K room room' expansion expansion' w)
    {h h' : Nat} (hh : H h h') :
    K (evalLet lim room expansion h tail) (evalLet lim' room' expansion' h' tail) := by
  cases tail with
  | nil =>
    rw [Formulary.evalLet, Formulary.evalLet]
    exact hK.fail' _
  | cons bindings body =>
    have hbody : ∀ f ∈ body, InStep lim lim' H K room room' expansion expansion' f :=
      fun f hf => (htail f (List.mem_cons_of_mem _ hf)).1
    cases hempty : body.isEmpty with
    | true =>
      rw [evalLet_noBody lim room _ h bindings hempty,
        evalLet_noBody lim' room' _ h' bindings hempty]
      exact hK.fail' _
    | false =>
      by_cases hlist : ∃ bs, bindings = .list bs
      · obtain ⟨bs, rfl⟩ := hlist
        rw [Formulary.evalLet, Formulary.evalLet, hempty]
        have hbs : ∀ b ∈ bs, ∀ w, Value.Part w b →
            InStep lim lim' H K room room' expansion expansion' w := fun b hb w hw =>
          (htail _ List.mem_cons_self).2 w (.inside hw hb)
        refine hK.bind' (hK.evalBindings hbs hh []) fun frame => ?_
        exact hK.inFrame' frame (hK.evalBody hbody hh .nil)
      · have hb : ∀ bs, bindings ≠ .list bs := fun bs h => hlist ⟨bs, h⟩
        rw [evalLet_notAList lim room _ h hb hempty, evalLet_notAList lim' room' _ h' hb hempty]
        exact hK.fail' _

section

variable {head : Value} {tail : List Value}
  (hparts : ∀ w, Value.Part w (.list (head :: tail)) →
    C w ∧ InStep lim lim' H K room room' expansion expansion' w) {h h' : Nat} (hh : H h h')
include hparts hh

theorem evalSpecial (hexpand : ∀ ts v,
      K (Run.lift (Templates.expandAll ts lim.expansions room v))
        (Run.lift (Templates.expandAll ts lim'.expansions room' v))) (f : SpecialForm) :
    K (evalSpecial lim room expansion h f tail) (evalSpecial lim' room' expansion' h' f tail) := by
  have hitem : ∀ v ∈ tail, C v ∧ InStep lim lim' H K room room' expansion expansion' v :=
    fun v hv => hparts v (.item (List.mem_cons_of_mem _ hv))
  cases f with
  | define => exact hK.evalDefine (fun v hv => (hitem v hv).2) hh
  | cond => exact hK.evalCond (fun v hv => (hitem v hv).2) hh
  | begin => exact hK.evalBody (fun v hv => (hitem v hv).2) hh .nil
  | template => exact hK.evalTemplate fun v hv => (hitem v hv).1
  | quote =>
    match tail with
    | [v] => exact hK.pure' v
    | [] | _ :: _ :: _ => exact hK.fail' _
  | letIn =>
    refine hK.evalLet (fun v hv => ⟨(hitem v hv).2, fun w hw => ?_⟩) hh
    exact (hparts w (.inside hw (List.mem_cons_of_mem _ hv))).2
  | expandOnce => exact hK.evalExpansion (fun ts v => hK.lift' _) tail
  | expandFully => exact hK.evalExpansion hexpand tail

theorem evalApply
    (hexp : ∀ h h' form, H h h' → C form → K (expansion h form) (expansion' h' form)) :
    K (evalApply lim room expansion h head tail)
      (evalApply lim' room' expansion' h' head tail) := by
  have hitem : ∀ v ∈ tail, C v ∧ InStep lim lim' H K room room' expansion expansion' v :=
    fun v hv => hparts v (.item (List.mem_cons_of_mem _ hv))
  obtain ⟨hcode, hhead⟩ := hparts head (.item List.mem_cons_self)
  unfold Formulary.evalApply
  refine hK.named' head ?_ fun t ht => ?_
  · refine hK.bind' (hK.operator hcode (hhead _ _ (hK.deeper 2 hh))) fun op => ?_
    refine hK.bind' (hK.evalArgs (fun v hv => (hitem v hv).2) (hK.deeper 2 hh)) fun args => ?_
    exact hK.lift' _
  · -- the expansion is made of the body and of parts of the call
    have happly := hK.itemwise.apply ht fun v hv => (hitem v hv).1
    exact hK.liftBind happly fun form hform => hexp _ _ form (hK.deeper 1 hh) hform

end

/-- Two evaluators stay in step on every form with `C` if they are where
expansions come in. -/
theorem evalWith (hexpand : ∀ ts v,
      K (Run.lift (Templates.expandAll ts lim.expansions room v))
        (Run.lift (Templates.expandAll ts lim'.expansions room' v)))
    (hexp : ∀ h h' form, H h h' → C form → K (expansion h form) (expansion' h' form))
    (form : Value) : C form → InStep lim lim' H K room room' expansion expansion' form := by
  induction form using Value.partInduction with
  | step form ih =>
    intro hform h h' hh
    match form with
    | .sym name =>
      rw [evalWith_sym, evalWith_sym]
      exact hK.resolve name hform
    | .list (head :: tail) =>
      have hparts : ∀ w, Value.Part w (.list (head :: tail)) →
          C w ∧ InStep lim lim' H K room room' expansion expansion' w := fun w hw =>
        have hw' : C w := hK.itemwise.part hw hform
        ⟨hw', ih w hw hw'⟩
      cases hs : SpecialForm.ofHead? head with
      | some f =>
        rw [evalWith_special lim room _ h tail hs, evalWith_special lim' room' _ h' tail hs]
        exact hK.within' hh (hK.evalSpecial hparts hh hexpand f)
      | none =>
        rw [evalWith_apply lim room _ h tail hs, evalWith_apply lim' room' _ h' tail hs]
        exact hK.within' hh (hK.evalApply hparts hh hexp)
    | .int _ | .float _ | .str _ | .bool _ | .nil | .elem _ | .list [] =>
      rw [evalWith_atom lim room _ h (by simp) (by simp),
        evalWith_atom lim' room' _ h' (by simp) (by simp)]
      exact hK.pure' _

end

end Coupling

end Formulary
