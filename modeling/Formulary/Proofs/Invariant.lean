import Formulary.Proofs.Evaluation

/-
  What evaluation keeps.

  `Hereditary V` says that `V` is a property of values that a list has just when
  its items have it. `Keeping V K` says that `K Q m`, a statement about what a
  computation `m` keeps and that its result satisfies `Q`, can be proved step by
  step: it holds of a value with `Q`, of the errors of the language, of two
  computations in a row, of the primitives, and of each thing that the evaluator
  does to the state.

  One walk over the evaluator (`Keeping.evalAt`) then proves `K V` of it, for
  every such pair and every form with `V`.
-/

namespace Formulary

variable {α β : Type}

/-- A value with the property `Q`, or an error of the language. -/
def Lawful (Q : α → Prop) : Except RunError α → Prop
  | .ok a => Q a
  | .error e => e.kind?.isSome = true

theorem Lawful.map {P : α → Prop} {Q : β → Prop} {f : α → β} {r : Except RunError α}
    (h : Lawful P r) (hf : ∀ a, P a → Q (f a)) : Lawful Q (r.map f) := by
  cases r with
  | ok a => exact hf a h
  | error e => exact h

theorem Lawful.imp {P Q : α → Prop} {r : Except RunError α} (h : Lawful P r)
    (hf : ∀ a, P a → Q a) : Lawful Q r := by
  cases r with
  | ok a => exact hf a h
  | error e => exact h

theorem lawful_mapM {Q : β → Prop} {f : α → Except RunError β} : ∀ {as : List α},
    (∀ a ∈ as, Lawful Q (f a)) → Lawful (fun bs => ∀ b ∈ bs, Q b) (as.mapM f)
  | [], _ => fun b hb => nomatch hb
  | a :: as, h => by
    have ha := h a List.mem_cons_self
    have has := lawful_mapM fun x hx => h x (List.mem_cons_of_mem _ hx)
    rw [List.mapM_cons]
    cases hfa : f a with
    | error e => rwa [hfa] at ha
    | ok b =>
      cases hfs : as.mapM f with
      | error e => rwa [hfs] at has
      | ok bs =>
        rw [hfa] at ha
        rw [hfs] at has
        exact List.forall_mem_cons.2 ⟨ha, has⟩

def Frame.Has (V : Value → Prop) (f : Frame) : Prop := ∀ p ∈ f, V p.2

def Templates.Has (V : Value → Prop) (ts : Templates) : Prop := ∀ p ∈ ts, V p.2.body

namespace Bindings

theorem mem_put {name : String} {a : α} {p : String × α} : ∀ {b : Bindings α},
    p ∈ put name a b → p.2 = a ∨ p ∈ b
  | [], h => by
    rw [put, List.mem_singleton] at h
    exact .inl (by rw [h])
  | (n, c) :: b, h => by
    rw [put] at h
    split at h
    · rcases List.mem_cons.1 h with rfl | h
      · exact .inl rfl
      · exact .inr (List.mem_cons_of_mem _ h)
    · rcases List.mem_cons.1 h with rfl | h
      · exact .inr List.mem_cons_self
      · exact (mem_put h).imp_right (List.mem_cons_of_mem _)

end Bindings

theorem lawful_formalNames (formals : List Value) :
    Lawful (fun _ => True) (Template.formalNames formals) := by
  induction formals with
  | nil => trivial
  | cons v vs ih =>
    rw [Template.formalNames]
    split
    · rfl
    · exact ih.map fun _ _ => trivial

theorem lawful_make {V : Value → Prop} (name : String) (formals : List Value) {body : Value}
    (hbody : V body) : Lawful (fun t : Template => V t.body) (Template.make name formals body) := by
  have hnames := lawful_formalNames formals
  unfold Template.make
  split
  · rename_i e he
    rw [he] at hnames
    exact hnames
  · split
    · exact hbody
    · rfl

/-- A property that a list has just when its items have it. -/
def Value.Itemwise (V : Value → Prop) : Prop := ∀ items, V (.list items) ↔ ∀ v ∈ items, V v

namespace Value.Itemwise

variable {V : Value → Prop} (hV : Value.Itemwise V)
include hV

theorem part {w v : Value} (h : Value.Part w v) (hv : V v) : V w := by
  induction h with
  | item hmem => exact (hV _).1 hv _ hmem
  | inside _ hmem ih => exact ih ((hV _).1 hv _ hmem)

theorem subst {b : Bindings Value} (hb : Frame.Has V b) (v : Value) (hv : V v) :
    V (v.subst b) := by
  induction v using Value.partInduction with
  | step v ih =>
    match v with
    | .sym name =>
      rw [Value.subst]
      cases h : b.get? name with
      | none => exact hv
      | some a => exact hb _ (Bindings.mem_of_get? h)
    | .list items =>
      rw [Value.subst, Value.substAll_eq_map, hV]
      intro w hw
      obtain ⟨x, hx, rfl⟩ := List.mem_map.1 hw
      exact ih x (.item hx) ((hV items).1 hv x hx)
    | .int _ | .float _ | .str _ | .bool _ | .nil | .elem _ => exact hv

theorem apply {t : Template} (ht : V t.body) {args : List Value} (hargs : ∀ v ∈ args, V v) :
    Lawful V (t.apply args) := by
  unfold Template.apply
  split
  · refine hV.subst (fun p hp => hargs _ ?_) t.body ht
    exact (List.of_mem_zip hp).2
  · rfl

end Value.Itemwise

/-- A property that lists share with their items, and that symbols and `nil`
have. -/
structure Hereditary (V : Value → Prop) : Prop where
  list : ∀ items, V (.list items) ↔ ∀ v ∈ items, V v
  sym : ∀ name, V (.sym name)
  nil : V .nil

namespace Hereditary

variable {V : Value → Prop} (hV : Hereditary V)
include hV

theorem itemwise : Value.Itemwise V := hV.list

/-! Expansion. -/

section

variable {ts : Templates} (hts : ts.Has V)
include hts

theorem call {form : Value} (hform : V form) {t : Template} {args : List Value}
    (h : ts.call? form = some (t, args)) : V t.body ∧ ∀ v ∈ args, V v := by
  obtain ⟨name, rfl, hname⟩ := Templates.call?_eq_some h
  refine ⟨hts _ (Bindings.mem_of_get? hname), fun v hv => ?_⟩
  exact (hV.list _).1 hform v (List.mem_cons_of_mem _ hv)

theorem expandOnce {form : Value} (hform : V form) : Lawful V (ts.expandOnce form) := by
  unfold Templates.expandOnce
  split
  · rename_i t args hc
    obtain ⟨hbody, hargs⟩ := hV.call hts hform hc
    exact hV.itemwise.apply hbody hargs
  · exact hform

theorem settle (bound : Int) (steps : Nat) {form : Value} (hform : V form) :
    Lawful V (ts.settle bound steps form) := by
  induction steps generalizing form with
  | zero => rfl
  | succ steps ih =>
    rw [Templates.settle]
    split
    · exact hform
    · rename_i t args hc
      obtain ⟨hbody, hargs⟩ := hV.call hts hform hc
      have happly := hV.itemwise.apply hbody hargs
      split
      · rename_i e he
        rw [he] at happly
        exact happly
      · rename_i next hn
        rw [hn] at happly
        exact ih happly

theorem expandHead (bound : Int) (room : Nat) {form : Value} (hform : V form) :
    Lawful V (ts.expandHead bound room form) := by
  unfold Templates.expandHead
  split
  · rfl
  · exact hV.settle hts bound _ hform

theorem expandAll (bound : Int) (room : Nat) {form : Value} (hform : V form) :
    Lawful V (ts.expandAll bound room form) := by
  induction room generalizing form with
  | zero => rfl
  | succ room ih =>
    have hhead := hV.expandHead hts bound (room + 1) hform
    rw [Templates.expandAll]
    split
    · rename_i items hitems
      rw [hitems] at hhead
      split
      · exact hhead
      · refine Lawful.map (P := fun vs => ∀ v ∈ vs, V v) ?_ fun vs hvs => (hV.list vs).2 hvs
        exact lawful_mapM fun v hv => ih ((hV.list items).1 hhead v hv)
    · exact hhead

end

end Hereditary

/-- Rules by which `K Q m` is proved of the computations that the evaluator is
made of. -/
structure Keeping (V : Value → Prop) (K : {α : Type} → (α → Prop) → Run α → Prop) : Prop where
  pure' : ∀ {α : Type} {Q : α → Prop} {a : α}, Q a → K Q (pure a)
  fail' : ∀ {α : Type} {Q : α → Prop} {e : RunError}, e.kind?.isSome = true → K Q (Run.fail e)
  bind' : ∀ {α β : Type} {P : α → Prop} {Q : β → Prop} {m : Run α} {f : α → Run β},
    K P m → (∀ a, P a → K Q (f a)) → K Q (m >>= f)
  primitive' : ∀ (op : Primitive) {args}, (∀ v ∈ args, V v) → K V (Run.lift (op.apply args))
  read' : ∀ {α : Type} (f : State → α), K (fun _ => True) (Run.read f)
  lookup' : ∀ name, K (fun found => ∀ v, found = some v → V v)
    (Run.read fun st => st.scope.lookup name)
  named' : ∀ head, K (fun found => ∀ t, found = some t → V t.body)
    (Run.read fun st => st.templates.named? head)
  templates' : K (fun ts => ts.Has V) (Run.read State.templates)
  define' : ∀ name {v}, V v → K (fun _ => True) (Run.define name v)
  addTemplate' : ∀ {t : Template}, V t.body → K (fun _ => True) (Run.addTemplate t)
  inFrame' : ∀ {α : Type} {Q : α → Prop} {frame : Frame} {m : Run α},
    frame.Has V → K Q m → K Q (Run.inFrame frame m)
  nested' : ∀ {α : Type} {Q : α → Prop} {m : Run α}, K Q m → K Q (Run.nested m)

namespace Keeping

variable {V : Value → Prop} {K : {α : Type} → (α → Prop) → Run α → Prop} (hK : Keeping V K)
include hK

theorem lift' {Q : α → Prop} {r : Except RunError α} (h : Lawful Q r) : K Q (Run.lift r) := by
  cases r with
  | ok a => exact hK.pure' h
  | error e => exact hK.fail' h

theorem within' {Q : α → Prop} (lim : Limits) (height : Nat) {m : Run α} (h : K Q m) :
    K Q (Run.within lim height m) := by
  unfold Run.within
  split
  · exact hK.fail' rfl
  · exact h

theorem operator {ev : Value → Run Value} {head : Value} (hhead : K V (ev head)) :
    K (fun _ => True) (operator ev head) := by
  unfold Formulary.operator
  split
  · exact hK.pure' trivial
  · refine hK.bind' (hK.read' _) fun unbound _ => ?_
    cases unbound with
    | some name => exact hK.fail' rfl
    | none =>
      refine hK.bind' hhead fun target _ => ?_
      cases Primitive.ofValue? target with
      | some p => exact hK.pure' trivial
      | none => exact hK.fail' rfl

section

variable (lim : Limits) (room : Nat) {expansion : Nat → Value → Run Value}

theorem evalArgs {fs : List Value}
    (hfs : ∀ f ∈ fs, ∀ h, K V (evalWith lim room expansion h f)) (height : Nat) :
    K (fun vs => ∀ v ∈ vs, V v) (evalArgs lim room expansion height fs) := by
  induction fs with
  | nil =>
    rw [Formulary.evalArgs]
    exact hK.pure' fun v hv => absurd hv List.not_mem_nil
  | cons f fs ih =>
    rw [Formulary.evalArgs]
    refine hK.bind' (hfs f List.mem_cons_self height) fun v hv => ?_
    refine hK.bind' (ih fun g hg => hfs g (List.mem_cons_of_mem _ hg)) fun vs hvs => ?_
    exact hK.pure' (List.forall_mem_cons.2 ⟨hv, hvs⟩)

theorem evalBody {fs : List Value}
    (hfs : ∀ f ∈ fs, ∀ h, K V (evalWith lim room expansion h f)) (height : Nat) {last : Value}
    (hlast : V last) : K V (evalBody lim room expansion height last fs) := by
  induction fs generalizing last with
  | nil =>
    rw [Formulary.evalBody]
    exact hK.pure' hlast
  | cons f fs ih =>
    rw [Formulary.evalBody]
    refine hK.bind' (hfs f List.mem_cons_self _) fun v hv => ?_
    exact ih (fun g hg => hfs g (List.mem_cons_of_mem _ hg)) hv

theorem evalDefine {fs : List Value}
    (hfs : ∀ f ∈ fs, ∀ h, K V (evalWith lim room expansion h f)) (height : Nat) :
    K V (evalDefine lim room expansion height fs) := by
  match fs with
  | [] | [_] | _ :: _ :: _ :: _ =>
    simp only [Formulary.evalDefine]
    exact hK.fail' rfl
  | [target, form] =>
    by_cases hname : ∃ name, target = .sym name
    · obtain ⟨name, rfl⟩ := hname
      rw [Formulary.evalDefine]
      refine hK.bind' (hfs form (by simp) _) fun v hv => ?_
      exact hK.bind' (hK.define' name hv) fun _ _ => hK.pure' hv
    · rw [evalDefine_target lim room _ height fun name h => hname ⟨name, h⟩]
      exact hK.fail' rfl

theorem evalBindings {bs : List Value}
    (hbs : ∀ b ∈ bs, ∀ w, Value.Part w b → ∀ h, K V (evalWith lim room expansion h w))
    (height : Nat) {frame : Frame} (hframe : frame.Has V) :
    K (fun f => f.Has V) (evalBindings lim room expansion height frame bs) := by
  induction bs generalizing frame with
  | nil =>
    rw [Formulary.evalBindings]
    exact hK.pure' hframe
  | cons b bs ih =>
    by_cases hpair : ∃ name form, b = .list [.sym name, form]
    · obtain ⟨name, form, rfl⟩ := hpair
      have hform := hbs _ List.mem_cons_self form (.item (by simp))
      rw [Formulary.evalBindings]
      refine hK.bind' (hform _) fun v hv => ih (fun c hc => hbs c (List.mem_cons_of_mem _ hc)) ?_
      intro p hp
      rcases Bindings.mem_put hp with h | h
      · rwa [h]
      · exact hframe p h
    · rw [evalBindings_malformed lim room _ height fun name form h => hpair ⟨name, form, h⟩]
      exact hK.fail' rfl

end

variable (hV : Hereditary V)
include hV

theorem resolve (name : String) : K V (resolve name) := by
  unfold Formulary.resolve
  refine hK.bind' (hK.lookup' name) fun found hfound => ?_
  cases found with
  | some v => exact hK.pure' (hfound v rfl)
  | none =>
    show K V (if _ then _ else _)
    split
    · exact hK.pure' (hV.sym name)
    · exact hK.fail' rfl

theorem evalTemplate {tail : List Value} (htail : ∀ v ∈ tail, V v) : K V (evalTemplate tail) := by
  unfold Formulary.evalTemplate
  split
  · split
    · split
      · rename_i body _ name _ fs
        have hbody : V body := htail body (by simp)
        refine hK.bind' (hK.lift' (lawful_make name fs hbody)) fun t ht => ?_
        exact hK.bind' (hK.addTemplate' ht) fun _ _ => hK.pure' hV.nil
      · exact hK.fail' rfl
    · exact hK.fail' rfl
  · exact hK.fail' rfl

theorem evalExpansion {form : SpecialForm} {expand : Templates → Value → Except RunError Value}
    (hexpand : ∀ ts : Templates, ts.Has V → ∀ v, V v → Lawful V (expand ts v))
    {tail : List Value} (htail : ∀ v ∈ tail, V v) : K V (evalExpansion form expand tail) := by
  unfold Formulary.evalExpansion
  split
  · rename_i v
    have hv : V v := htail v List.mem_cons_self
    refine hK.bind' hK.templates' fun ts hts => hK.lift' (hexpand ts hts _ ?_)
    rcases unquoted_eq_or_part v with h | h
    · rwa [h]
    · exact hV.itemwise.part h hv
  · exact hK.fail' rfl

section

variable (lim : Limits) (room : Nat) {expansion : Nat → Value → Run Value}

theorem evalCond {fs : List Value}
    (hfs : ∀ f ∈ fs, ∀ h, K V (evalWith lim room expansion h f)) (height : Nat) :
    K V (evalCond lim room expansion height fs) := by
  match fs with
  | [] | [_] | _ :: _ :: _ :: _ :: _ =>
    simp only [Formulary.evalCond]
    exact hK.fail' rfl
  | [test, yes] =>
    rw [Formulary.evalCond]
    refine hK.bind' (hfs test (by simp) _) fun t _ => ?_
    split
    · exact hfs yes (by simp) _
    · exact hK.pure' hV.nil
  | [test, yes, no] =>
    rw [Formulary.evalCond]
    refine hK.bind' (hfs test (by simp) _) fun t _ => ?_
    split
    · exact hfs yes (by simp) _
    · exact hfs no (by simp) _

theorem evalLet {tail : List Value}
    (htail : ∀ f ∈ tail, (∀ h, K V (evalWith lim room expansion h f)) ∧
      ∀ w, Value.Part w f → ∀ h, K V (evalWith lim room expansion h w)) (height : Nat) :
    K V (evalLet lim room expansion height tail) := by
  cases tail with
  | nil =>
    rw [Formulary.evalLet]
    exact hK.fail' rfl
  | cons bindings body =>
    have hbody : ∀ f ∈ body, ∀ h, K V (evalWith lim room expansion h f) := fun f hf =>
      (htail f (List.mem_cons_of_mem _ hf)).1
    cases hempty : body.isEmpty with
    | true =>
      rw [evalLet_noBody lim room _ height bindings hempty]
      exact hK.fail' rfl
    | false =>
      by_cases hlist : ∃ bs, bindings = .list bs
      · obtain ⟨bs, rfl⟩ := hlist
        rw [Formulary.evalLet, hempty]
        -- the bound forms lie two lists deep
        have hbs : ∀ b ∈ bs, ∀ w, Value.Part w b → ∀ h, K V (evalWith lim room expansion h w) :=
          fun b hb w hw => (htail _ List.mem_cons_self).2 w (.inside hw hb)
        have hnone : Frame.Has V [] := fun p hp => absurd hp List.not_mem_nil
        refine hK.bind' (hK.evalBindings lim room hbs height hnone) fun f hf => ?_
        exact hK.inFrame' hf (hK.evalBody lim room hbody height hV.nil)
      · rw [evalLet_notAList lim room _ height (fun bs h => hlist ⟨bs, h⟩) hempty]
        exact hK.fail' rfl

section

variable {head : Value} {tail : List Value} (hparts : ∀ w, Value.Part w (.list (head :: tail)) →
  V w ∧ ∀ h, K V (evalWith lim room expansion h w)) (height : Nat)
include hparts

theorem evalSpecial (f : SpecialForm) : K V (evalSpecial lim room expansion height f tail) := by
  have hitem : ∀ v ∈ tail, V v ∧ ∀ h, K V (evalWith lim room expansion h v) := fun v hv =>
    hparts v (.item (List.mem_cons_of_mem _ hv))
  cases f with
  | define => exact hK.evalDefine lim room (fun v hv => (hitem v hv).2) height
  | cond => exact hK.evalCond hV lim room (fun v hv => (hitem v hv).2) height
  | begin => exact hK.evalBody lim room (fun v hv => (hitem v hv).2) height hV.nil
  | template => exact hK.evalTemplate hV fun v hv => (hitem v hv).1
  | quote =>
    match tail with
    | [v] => exact hK.pure' (hitem v List.mem_cons_self).1
    | [] | _ :: _ :: _ => exact hK.fail' rfl
  | letIn =>
    refine hK.evalLet hV lim room (fun v hv => ⟨(hitem v hv).2, fun w hw => ?_⟩) height
    exact (hparts w (.inside hw (List.mem_cons_of_mem _ hv))).2
  | expandOnce =>
    exact hK.evalExpansion hV (fun ts hts v hv => hV.expandOnce hts hv) fun v hv => (hitem v hv).1
  | expandFully =>
    exact hK.evalExpansion hV (fun ts hts v hv => hV.expandAll hts _ _ hv)
      fun v hv => (hitem v hv).1

theorem evalApply (hexp : ∀ h form, V form → K V (expansion h form)) :
    K V (evalApply lim room expansion height head tail) := by
  have hitem : ∀ v ∈ tail, V v ∧ ∀ h, K V (evalWith lim room expansion h v) := fun v hv =>
    hparts v (.item (List.mem_cons_of_mem _ hv))
  unfold Formulary.evalApply
  refine hK.bind' (hK.named' head) fun found hfound => ?_
  cases found with
  | some t =>
    have happly := hV.itemwise.apply (hfound t rfl) fun v hv => (hitem v hv).1
    exact hK.bind' (hK.lift' happly) fun form hform => hexp (height + 1) form hform
  | none =>
    refine hK.bind' (hK.operator ((hparts head (.item List.mem_cons_self)).2 _)) fun op _ => ?_
    refine hK.bind' (hK.evalArgs lim room (fun v hv => (hitem v hv).2) _) fun args hargs => ?_
    exact hK.primitive' op hargs

end

theorem evalWith (hexp : ∀ h form, V form → K V (expansion h form)) (form : Value) :
    V form → ∀ height, K V (evalWith lim room expansion height form) := by
  induction form using Value.partInduction with
  | step form ih =>
    intro hform height
    -- the parts of a form with `V` have it too, so the induction covers them
    match form with
    | .sym name =>
      rw [evalWith_sym]
      exact hK.resolve hV name
    | .list (head :: tail) =>
      have hparts : ∀ w, Value.Part w (.list (head :: tail)) →
          V w ∧ ∀ h, K V (Formulary.evalWith lim room expansion h w) := fun w hw =>
        ⟨hV.itemwise.part hw hform, ih w hw (hV.itemwise.part hw hform)⟩
      cases hs : SpecialForm.ofHead? head with
      | some f =>
        rw [evalWith_special lim room expansion height tail hs]
        exact hK.within' lim height (hK.evalSpecial hV lim room hparts height f)
      | none =>
        rw [evalWith_apply lim room expansion height tail hs]
        exact hK.within' lim height (hK.evalApply hV lim room hparts height hexp)
    | .int _ | .float _ | .str _ | .bool _ | .nil | .elem _ | .list [] =>
      rw [evalWith_atom lim room expansion height (by simp) (by simp)]
      exact hK.pure' hform

end

/-- What holds of the steps of the evaluator holds of every evaluation. -/
theorem evalAt (lim : Limits) (room height : Nat) {form : Value} (hform : V form) :
    K V (evalAt lim room height form) := by
  induction room generalizing height form with
  | zero =>
    rw [evalAt_eq]
    exact hK.evalWith hV lim 0 (fun _ _ _ => hK.fail' rfl) form hform height
  | succ room ih =>
    rw [evalAt_eq]
    exact hK.evalWith hV lim (room + 1) (fun h f hf => hK.nested' (ih h hf)) form hform height

end Keeping

/-! Values in a state. -/

/-- A state whose bound values and macro bodies have a property. -/
structure State.Has (V : Value → Prop) (st : State) : Prop where
  frames : ∀ f ∈ st.scope.frames, Frame.Has V f
  templates : st.templates.Has V

/-- From a state with the property, `m` ends in one, and in a value with `Q` or
an error of the language. -/
def KeepsValues (V : Value → Prop) {α : Type} (Q : α → Prop) (m : Run α) : Prop :=
  ∀ st : State, st.Has V → (m st).2.Has V ∧ Lawful Q (m st).1

theorem Scope.lookupIn_has {V : Value → Prop} {name : String} {v : Value} :
    ∀ {fs : List Frame}, (∀ f ∈ fs, f.Has V) → lookupIn name fs = some v → V v
  | f :: fs, hfs, h => by
    rw [lookupIn] at h
    split at h
    · rename_i w hw
      cases h
      exact hfs f List.mem_cons_self _ (Bindings.mem_of_get? hw)
    · exact lookupIn_has (fun g hg => hfs g (List.mem_cons_of_mem _ hg)) h

theorem Scope.mem_frames_of_pop {s : Scope} {f : Frame} (h : f ∈ s.pop.frames) : f ∈ s.frames := by
  unfold pop at h
  split at h
  · exact h
  · rename_i g gs hgs
    rw [frames, hgs]
    exact List.mem_cons_of_mem _ h

namespace State.Has

variable {V : Value → Prop} {st : State} (hst : st.Has V)
include hst

theorem define (name : String) {v : Value} (hv : V v) : (Run.define name v st).2.Has V := by
  refine ⟨?_, hst.templates⟩
  intro f hf p hp
  rcases List.mem_cons.1 hf with rfl | hf
  · rcases Bindings.mem_put hp with h | h
    · rwa [h]
    · exact hst.frames _ List.mem_cons_self p h
  · exact hst.frames f (List.mem_cons_of_mem _ hf) p hp

theorem addTemplate {t : Template} (ht : V t.body) : (Run.addTemplate t st).2.Has V := by
  refine ⟨hst.frames, ?_⟩
  intro p hp
  rcases Bindings.mem_put hp with h | h
  · rwa [h]
  · exact hst.templates p h

theorem push {frame : Frame} (hframe : frame.Has V) :
    State.Has V { st with scope := st.scope.push frame } :=
  ⟨List.forall_mem_cons.2 ⟨hframe, hst.frames⟩, hst.templates⟩

theorem pop : State.Has V { st with scope := st.scope.pop } :=
  ⟨fun f hf => hst.frames f (Scope.mem_frames_of_pop hf), hst.templates⟩

end State.Has

theorem keeping_keepsValues {V : Value → Prop}
    (hprim : ∀ (op : Primitive) args, (∀ v ∈ args, V v) → Lawful V (op.apply args)) :
    Keeping V (KeepsValues V) where
  pure' := fun hq st hst => ⟨hst, hq⟩
  primitive' := fun op args hargs st hst => ⟨hst, hprim op args hargs⟩
  fail' := fun he st hst => ⟨hst, he⟩
  read' := fun f st hst => ⟨hst, trivial⟩
  bind' := by
    intro α β P Q m f hm hf st hst
    obtain ⟨hst', hr⟩ := hm st hst
    rw [Run.bind_apply]
    generalize m st = p at hst' hr ⊢
    obtain ⟨r, st'⟩ := p
    cases r with
    | ok a => exact hf a hr st' hst'
    | error e => exact ⟨hst', hr⟩
  lookup' := fun name st hst => ⟨hst, fun v hv => Scope.lookupIn_has hst.frames hv⟩
  named' := by
    intro head st hst
    refine ⟨hst, fun t ht => ?_⟩
    cases head with
    | sym name => exact hst.templates _ (Bindings.mem_of_get? ht)
    | _ => cases ht
  templates' := fun st hst => ⟨hst, hst.templates⟩
  define' := fun name _ hv st hst => ⟨hst.define name hv, trivial⟩
  addTemplate' := fun ht st hst => ⟨hst.addTemplate ht, trivial⟩
  inFrame' := by
    intro α Q frame m hframe hm st hst
    obtain ⟨hst', hr⟩ := hm _ (hst.push hframe)
    exact ⟨hst'.pop, hr⟩
  nested' := by
    intro α Q m hm st hst
    obtain ⟨hst', hr⟩ := hm { st with depth := st.depth + 1 } ⟨hst.frames, hst.templates⟩
    exact ⟨⟨hst'.frames, hst'.templates⟩, hr⟩

/-! Parts of the state that stay as they were. -/

theorem hereditary_true : Hereditary fun _ => True where
  list := fun _ => ⟨fun _ _ _ => trivial, fun _ => trivial⟩
  sym := fun _ => trivial
  nil := trivial

/-- `m` leaves a part of the state as it was, and its value, if it has one,
satisfies `Q`. -/
def Leaves {β : Type} (part : State → β) {α : Type} (Q : α → Prop) (m : Run α) : Prop :=
  ∀ st : State, part (m st).2 = part st ∧ ∀ a, (m st).1 = .ok a → Q a

/-- A part of the state that definitions do not touch, and that is put back after
an inner frame and after an expansion, is left as it was by every evaluation. -/
theorem keeping_leaves {β : Type} (part : State → β)
    (hdefine : ∀ name v st, part (Run.define name v st).2 = part st)
    (htemplate : ∀ t st, part (Run.addTemplate t st).2 = part st)
    (hframe : ∀ {α : Type} (frame : Frame) (m : Run α) (st : State),
      part (m { st with scope := st.scope.push frame }).2 =
        part { st with scope := st.scope.push frame } →
      part (Run.inFrame frame m st).2 = part st)
    (hnested : ∀ {α : Type} (m : Run α) (st : State),
      part (m { st with depth := st.depth + 1 }).2 = part { st with depth := st.depth + 1 } →
      part (Run.nested m st).2 = part st) :
    Keeping (fun _ => True) (Leaves part) where
  pure' := by
    intro α Q a ha st
    exact ⟨rfl, fun b hb => by cases hb; exact ha⟩
  fail' := fun _ _ => ⟨rfl, fun _ h => nomatch h⟩
  primitive' := fun _ _ _ _ => ⟨rfl, fun _ _ => trivial⟩
  read' := fun _ _ => ⟨rfl, fun _ _ => trivial⟩
  bind' := by
    intro α γ P Q m f hm hf st
    obtain ⟨hd, hr⟩ := hm st
    rw [Run.bind_apply]
    generalize m st = p at hd hr ⊢
    obtain ⟨r, st'⟩ := p
    cases r with
    | ok a =>
      obtain ⟨hd', hr'⟩ := hf a (hr a rfl) st'
      exact ⟨hd'.trans hd, hr'⟩
    | error e => exact ⟨hd, fun _ h => nomatch h⟩
  lookup' := fun _ _ => ⟨rfl, fun _ _ _ _ => trivial⟩
  named' := fun _ _ => ⟨rfl, fun _ _ _ _ => trivial⟩
  templates' := fun _ => ⟨rfl, fun _ _ _ _ => trivial⟩
  define' := fun name v _ st => ⟨hdefine name v st, fun _ _ => trivial⟩
  addTemplate' := fun {t} _ st => ⟨htemplate t st, fun _ _ => trivial⟩
  inFrame' := by
    intro α Q frame m _ hm st
    obtain ⟨hd, hr⟩ := hm { st with scope := st.scope.push frame }
    exact ⟨hframe frame m st hd, hr⟩
  nested' := by
    intro α Q m hm st
    obtain ⟨hd, hr⟩ := hm { st with depth := st.depth + 1 }
    exact ⟨hnested m st hd, hr⟩

/-- `m` leaves the number of nested expansions as it was, and its value, if it
has one, satisfies `Q`. -/
def KeepsDepth {α : Type} (Q : α → Prop) (m : Run α) : Prop :=
  ∀ st : State, (m st).2.depth = st.depth ∧ ∀ a, (m st).1 = .ok a → Q a

theorem keeping_keepsDepth : Keeping (fun _ => True) KeepsDepth :=
  keeping_leaves State.depth (fun _ _ _ => rfl) (fun _ _ => rfl) (fun _ _ _ h => h)
    fun _ _ h => Run.depth_nested h

theorem keepsDepth_evalAt (lim : Limits) (room height : Nat) (form : Value) :
    KeepsDepth (fun _ => True) (evalAt lim room height form) :=
  keeping_keepsDepth.evalAt hereditary_true lim room height trivial

end Formulary
