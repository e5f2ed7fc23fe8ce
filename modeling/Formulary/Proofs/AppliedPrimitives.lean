import Formulary.Proofs.Calls
import Formulary.Proofs.Invariant

/-
  What a run hands on, as far as the primitives that it applies do.

  The calls that a run makes are known with the states in which it makes them
  (`Makes`), and a call that is an application comes to a primitive and to its
  arguments (`Applies`). A property of values that lists share with their items
  can get lost at such an application only: everywhere else values are looked up,
  put together from others or stored. `Step.HandsOn` says so of one call, and by
  induction on the run it follows of all of them (`Runs.handsOn`).

  Unlike `Keeping`, which asks of every primitive that it keeps the property, this
  asks it of the applications that the run really makes.
-/

namespace Formulary

/-! The calls and applications of a run. -/

/-- A run comes to make a call, in a state. -/
inductive Makes (bound : Int) : {α : Type} → Step α → Call → State → Prop where
  | here {α : Type} {c : Call} {st : State} {next : Except RunError Value → State → Step α} :
      Makes bound (.call c st next) c st
  | inside {α : Type} {c d : Call} {st now : State}
      {next : Except RunError Value → State → Step α} :
      Makes bound (c.body bound st) d now → Makes bound (.call c st next) d now
  | later {α : Type} {c d : Call} {st st' now : State}
      {next : Except RunError Value → State → Step α} {r : Except RunError Value}
      {calls : List CallTree} :
      Runs bound (c.body bound st) r st' calls → Makes bound (next r st') d now →
      Makes bound (.call c st next) d now

/-- A call evaluates an application, whose operator comes to a primitive and whose
operands come to arguments. -/
inductive Applies (bound : Int) : Call → State → Primitive → List Value → Prop where
  | mk {head : Value} {tail args : List Value} {op : Primitive} {st mid last : State}
      {calls rest : List CallTree} :
      SpecialForm.ofHead? head = none → st.templates.named? head = none →
      Runs bound (operatorBody head st) (.ok op) mid calls →
      Runs bound (Script.callAll .evaluate tail mid) (.ok args) last rest →
      Applies bound (.evaluate (.list (head :: tail))) st op args

/-! Handing on. -/

section

variable {bound : Int} {V : Value → Prop} {α β : Type}

/-- The forms of the calls, and the values in the state at each call and in the end,
have a property, and the result satisfies `Q`, as long as the calls come to
values with the property and leave it in the state. -/
def Step.HandsOn (bound : Int) (V : Value → Prop) {α : Type} (Q : α → Prop) : Step α → Prop
  | done r st => st.Has V ∧ ∀ a, r = .ok a → Q a
  | call c st next => V c.form ∧ st.Has V ∧ ∀ r st' calls,
      Runs bound (c.body bound st) r st' calls → st'.Has V → (∀ v, r = .ok v → V v) →
      HandsOn bound V Q (next r st')

namespace Step.HandsOn

theorem andThen {P : α → Prop} {Q : β → Prop} {s : Step α} {f : α → State → Step β}
    (hs : s.HandsOn bound V P)
    (hf : ∀ a st calls, Runs bound s (.ok a) st calls → st.Has V → P a →
      (f a st).HandsOn bound V Q) : (s.andThen f).HandsOn bound V Q := by
  induction s with
  | done r st =>
    cases r with
    | ok a => exact hf a st [] (.done _ _) hs.1 (hs.2 a rfl)
    | error e => exact ⟨hs.1, fun _ h => nomatch h⟩
  | call c st next ih =>
    refine ⟨hs.1, hs.2.1, fun r st' calls hrun hst' hr => ?_⟩
    refine ih r st' (hs.2.2 r st' calls hrun hst' hr) fun a st'' rest hrest => ?_
    exact hf a st'' _ (.call hrun hrest)

theorem after {Q : α → Prop} {s : Step α} {g : State → State} (hs : s.HandsOn bound V Q)
    (hg : ∀ st : State, st.Has V → (g st).Has V) : (s.after g).HandsOn bound V Q := by
  induction s with
  | done r st => exact ⟨hg st hs.1, hs.2⟩
  | call c st next ih =>
    refine ⟨hs.1, hs.2.1, fun r st' calls hrun hst' hr => ?_⟩
    exact ih r st' (hs.2.2 r st' calls hrun hst' hr)

end Step.HandsOn

theorem Script.ofRun_bind (m : Run α) (f : α → Run β) :
    ofRun (m >>= f) = (ofRun m >>= fun a => ofRun (f a)) := by
  funext st
  show Step.done ((m >>= f) st).1 ((m >>= f) st).2 =
    (Step.done (m st).1 (m st).2).andThen fun a => ofRun (f a)
  rw [Run.bind_apply]
  rcases m st with ⟨e | a, st'⟩
  · rfl
  · rfl

/-- The same of a computation, from every state with the property. -/
def Script.HandsOn (bound : Int) (V : Value → Prop) (Q : α → Prop) (s : Script α) : Prop :=
  ∀ st : State, st.Has V → (s st).HandsOn bound V Q

namespace Script.HandsOn

variable {P : α → Prop} {Q : β → Prop}

theorem pure' {Q : α → Prop} {a : α} (ha : Q a) : HandsOn bound V Q (pure a) :=
  fun _ hst => ⟨hst, fun b hb => by cases hb; exact ha⟩

theorem fail' {Q : α → Prop} (e : RunError) : HandsOn bound V Q (ofRun (Run.fail e)) :=
  fun _ hst => ⟨hst, fun _ h => nomatch h⟩

theorem call' {c : Call} (hc : V c.form) : HandsOn bound V V (Script.call c) :=
  fun _ hst => ⟨hc, hst, fun _ _ _ _ hst' hr => ⟨hst', hr⟩⟩

theorem bind' {s : Script α} {f : α → Script β} (hs : HandsOn bound V P s)
    (hf : ∀ a, P a → HandsOn bound V Q (f a)) : HandsOn bound V Q (s >>= f) :=
  fun st hst => (hs st hst).andThen fun a st' _ _ hst' ha => hf a ha st' hst'

theorem ite' {c : Prop} [Decidable c] {Q : α → Prop} {s t : Script α}
    (hs : HandsOn bound V Q s) (ht : HandsOn bound V Q t) :
    HandsOn bound V Q (if c then s else t) := by
  split
  · exact hs
  · exact ht

theorem inFrame' {Q : α → Prop} {frame : Frame} (hframe : frame.Has V) {s : Script α}
    (hs : HandsOn bound V Q s) : HandsOn bound V Q (Script.inFrame frame s) :=
  fun _ hst => (hs _ (hst.push hframe)).after fun _ hst' => hst'.pop

theorem guarded' {Q : α → Prop} {s : Script α} (hs : HandsOn bound V Q s) :
    HandsOn bound V Q (Script.guarded bound s) := by
  intro st hst
  unfold Script.guarded
  split
  · exact ⟨hst, fun _ h => nomatch h⟩
  · have hdeeper : State.Has V { st with depth := st.depth + 1 } := ⟨hst.frames, hst.templates⟩
    exact (hs _ hdeeper).after fun _ hst' => ⟨hst'.frames, hst'.templates⟩

theorem read' {Q : α → Prop} {f : State → α} (hf : ∀ st : State, st.Has V → Q (f st)) :
    HandsOn bound V Q (ofRun (Run.read f)) :=
  fun st hst => ⟨hst, fun a ha => by cases ha; exact hf st hst⟩

theorem lift' {Q : α → Prop} {r : Except RunError α} (hr : Lawful Q r) :
    HandsOn bound V Q (ofRun (Run.lift r)) := by
  intro st hst
  refine ⟨hst, fun a ha => ?_⟩
  rw [show r = .ok a from ha] at hr
  exact hr

theorem callAll' {call : Value → Call} {fs : List Value} (hfs : ∀ f ∈ fs, V (call f).form) :
    HandsOn bound V (fun vs => ∀ v ∈ vs, V v) (callAll call fs) := by
  induction fs with
  | nil => exact .pure' fun v hv => absurd hv List.not_mem_nil
  | cons f fs ih =>
    obtain ⟨hf, hrest⟩ := List.forall_mem_cons.1 hfs
    refine .bind' (.call' hf) fun v hv => .bind' (ih hrest) fun vs hvs => ?_
    exact .pure' (List.forall_mem_cons.2 ⟨hv, hvs⟩)

theorem callBody' {fs : List Value} (hfs : ∀ f ∈ fs, V f) {last : Value} (hlast : V last) :
    HandsOn bound V V (callBody last fs) := by
  induction fs generalizing last with
  | nil => exact .pure' hlast
  | cons f fs ih =>
    obtain ⟨hf, hrest⟩ := List.forall_mem_cons.1 hfs
    exact .bind' (.call' hf) fun v hv => ih hrest hv

end Script.HandsOn

open Script

/-! What one call hands on. -/

theorem applyBody_eq (head : Value) (tail : List Value) (st : State) :
    applyBody bound head tail st = match st.templates.named? head with
      | some t => (ofRun (Run.lift (t.apply tail)) >>= fun form =>
          guarded bound (call (.evaluate form))) st
      | none => (operatorBody head st).andThen fun op st =>
          (callAll .evaluate tail st).andThen fun args st => .done (op.apply args) st := by
  show (match st.templates.named? head with
    | some t => (do
      let form ← ofRun (Run.lift (t.apply tail))
      guarded bound (call (.evaluate form)) : Script Value)
    | none => do
      let op ← operatorBody head
      let args ← callAll .evaluate tail
      ofRun (Run.lift (op.apply args))) st = _
  cases st.templates.named? head <;> rfl

theorem handsOn_define {fs : List Value} (hfs : ∀ f ∈ fs, V f) :
    HandsOn bound V V (defineBody fs) := by
  unfold defineBody
  split
  · rename_i target form
    split
    · rename_i name
      refine .bind' (.call' (hfs form (by simp))) fun v hv => ?_
      exact .bind' (fun st hst => ⟨hst.define name hv, fun _ _ => trivial⟩) fun _ _ => .pure' hv
    · exact .fail' _
  · exact .fail' _

theorem handsOn_operator {head : Value} (hhead : V head) :
    HandsOn bound V (fun _ => True) (operatorBody head) := by
  unfold operatorBody
  split
  · exact .pure' trivial
  · refine .bind' (.read' (Q := fun _ => True) fun _ _ => trivial) fun unbound _ => ?_
    cases unbound with
    | some name => exact .fail' _
    | none =>
      refine .bind' (.call' hhead) fun target _ => ?_
      cases Primitive.ofValue? target with
      | some p => exact .pure' trivial
      | none => exact .fail' _

theorem handsOn_quote {tail : List Value} (htail : ∀ v ∈ tail, V v) :
    HandsOn bound V V (ofRun (evalQuote tail)) := by
  unfold evalQuote
  split
  · exact .pure' (htail _ List.mem_cons_self)
  · exact .fail' _

variable (hV : Hereditary V)
include hV

theorem handsOn_cond {fs : List Value} (hfs : ∀ f ∈ fs, V f) :
    HandsOn bound V V (condBody fs) := by
  unfold condBody
  split
  · rename_i test yes
    refine .bind' (.call' (hfs test (by simp))) fun t _ => ?_
    exact .ite' (.call' (hfs yes (by simp))) (.pure' hV.nil)
  · rename_i test yes no
    refine .bind' (.call' (hfs test (by simp))) fun t _ => ?_
    exact .ite' (.call' (hfs yes (by simp))) (.call' (hfs no (by simp)))
  · exact .fail' _

theorem handsOn_bindings {bs : List Value} (hbs : ∀ b ∈ bs, V b) {frame : Frame}
    (hframe : frame.Has V) : HandsOn bound V (fun f => f.Has V) (bindingsBody frame bs) := by
  induction bs generalizing frame with
  | nil => exact .pure' hframe
  | cons b bs ih =>
    obtain ⟨hb, hrest⟩ := List.forall_mem_cons.1 hbs
    unfold bindingsBody
    split
    · rename_i heq
      cases heq
    · rename_i name form bs' heq
      cases heq
      have hform : V form := hV.itemwise.part (.item (by simp)) hb
      refine .bind' (.call' hform) fun v hv => ih hrest fun p hp => ?_
      rcases Bindings.mem_put hp with h | h
      · rwa [h]
      · exact hframe p h
    · exact .fail' _

theorem handsOn_let {tail : List Value} (htail : ∀ v ∈ tail, V v) :
    HandsOn bound V V (letBody tail) := by
  unfold letBody
  split
  · rename_i bindings body
    obtain ⟨hbindings, hbody⟩ := List.forall_mem_cons.1 htail
    split
    · exact .fail' _
    · split
      · rename_i bs
        have hempty : Frame.Has V [] := fun p hp => absurd hp List.not_mem_nil
        refine .bind' (handsOn_bindings hV ((hV.list bs).1 hbindings) hempty) fun frame hframe => ?_
        exact .inFrame' hframe (.callBody' hbody hV.nil)
      · exact .fail' _
  · exact .fail' _

theorem handsOn_resolve (name : String) : HandsOn bound V V (ofRun (resolve name)) := by
  unfold resolve
  rw [ofRun_bind]
  refine .bind' (.read' (Q := fun found => ∀ v, found = some v → V v) ?_) fun found hfound => ?_
  · exact fun st hst v hv => Scope.lookupIn_has hst.frames hv
  · cases found with
    | some v => exact .pure' (hfound v rfl)
    | none =>
      show HandsOn bound V V (ofRun (if _ then _ else _))
      split
      · exact .pure' (hV.sym name)
      · exact .fail' _

theorem handsOn_template {tail : List Value} (htail : ∀ v ∈ tail, V v) :
    HandsOn bound V V (ofRun (evalTemplate tail)) := by
  unfold evalTemplate
  split
  · split
    · split
      · rename_i body _ name _ fs
        rw [ofRun_bind]
        refine .bind' (.lift' (lawful_make name fs (htail body (by simp)))) fun t ht => ?_
        rw [ofRun_bind]
        have hadd : HandsOn bound V (fun _ => True) (ofRun (Run.addTemplate t)) := fun st hst =>
          ⟨hst.addTemplate ht, fun _ _ => trivial⟩
        exact .bind' hadd fun _ _ => .pure' hV.nil
      · exact .fail' _
    · exact .fail' _
  · exact .fail' _

theorem Hereditary.unquoted {v : Value} (hv : V v) : V (unquoted v) := by
  rcases unquoted_eq_or_part v with h | h
  · rwa [h]
  · exact hV.itemwise.part h hv

theorem handsOn_expansion {form : SpecialForm}
    {expand : Templates → Value → Except RunError Value}
    (hexpand : ∀ ts : Templates, ts.Has V → ∀ v, V v → Lawful V (expand ts v))
    {tail : List Value} (htail : ∀ v ∈ tail, V v) :
    HandsOn bound V V (ofRun (evalExpansion form expand tail)) := by
  unfold evalExpansion
  split
  · rename_i v
    rw [ofRun_bind]
    refine .bind' (.read' (Q := fun ts => ts.Has V) fun st hst => hst.templates) fun ts hts => ?_
    exact .lift' (hexpand ts hts _ (hV.unquoted (htail v List.mem_cons_self)))
  · exact .fail' _

theorem handsOn_special (f : SpecialForm) {tail : List Value} (htail : ∀ v ∈ tail, V v) :
    HandsOn bound V V (specialBody f tail) := by
  cases f with
  | define => exact handsOn_define htail
  | cond => exact handsOn_cond hV htail
  | quote => exact handsOn_quote htail
  | begin => exact .callBody' htail hV.nil
  | letIn => exact handsOn_let hV htail
  | template => exact handsOn_template hV htail
  | expandOnce => exact handsOn_expansion hV (fun ts hts v hv => hV.expandOnce hts hv) htail
  | expandFully =>
    match tail with
    | [v] => exact .call' (hV.unquoted (htail v List.mem_cons_self))
    | [] | _ :: _ :: _ => exact .fail' _

theorem handsOn_expandAll {form : Value} (hform : V form) :
    HandsOn bound V V (expandAllBody bound form) := by
  have hsettle : HandsOn bound V V (ofRun (settleHead bound form)) := by
    unfold settleHead
    rw [ofRun_bind]
    refine .bind' (.read' (Q := fun ts => ts.Has V) fun st hst => hst.templates) fun ts hts => ?_
    exact .lift' (hV.settle hts bound _ hform)
  unfold expandAllBody
  refine .bind' (.guarded' hsettle) fun g hg => ?_
  cases g with
  | list items =>
    have hitems := (hV.list items).1 hg
    refine .ite' (.pure' hg) (.guarded' (.bind' (.callAll' hitems) fun vs hvs => ?_))
    exact .pure' ((hV.list vs).2 hvs)
  | _ => exact .pure' hg

theorem handsOn_apply {head : Value} {tail : List Value} (hform : V (.list (head :: tail)))
    (hspecial : SpecialForm.ofHead? head = none) {st : State} (hst : st.Has V)
    (hops : ∀ op args, Applies bound (.evaluate (.list (head :: tail))) st op args →
      (∀ v ∈ args, V v) → ∀ v, op.apply args = .ok v → V v) :
    (applyBody bound head tail st).HandsOn bound V V := by
  obtain ⟨hhead, htail⟩ := List.forall_mem_cons.1 ((hV.list _).1 hform)
  rw [applyBody_eq]
  cases hnamed : st.templates.named? head with
  | some t =>
    have hbody : V t.body := by
      cases head with
      | sym name => exact hst.templates _ (Bindings.mem_of_get? hnamed)
      | _ => cases hnamed
    have happly := hV.itemwise.apply hbody htail
    exact (HandsOn.bind' (.lift' happly) fun form hf => .guarded' (.call' hf)) st hst
  | none =>
    refine (handsOn_operator hhead st hst).andThen fun op mid calls hop hmid _ => ?_
    have hargs : HandsOn bound V (fun vs => ∀ v ∈ vs, V v) (callAll .evaluate tail) :=
      .callAll' htail
    refine (hargs mid hmid).andThen fun args last rest hrun hlast hvs => ?_
    exact ⟨hlast, hops op args (.mk hspecial hnamed hop hrun) hvs⟩

/-- One call hands a property on if the primitive that it applies, if it applies
one, gives a value with the property. -/
theorem handsOn_body {c : Call} (hc : V c.form) {st : State} (hst : st.Has V)
    (hops : ∀ op args, Applies bound c st op args → (∀ v ∈ args, V v) →
      ∀ v, op.apply args = .ok v → V v) : (c.body bound st).HandsOn bound V V := by
  cases c with
  | expandAll form => exact handsOn_expandAll hV hc st hst
  | evaluate form =>
    match form, hc, hops with
    | .sym name, _, _ => exact handsOn_resolve hV name st hst
    | .list (head :: tail), hc, hops =>
      cases hs : SpecialForm.ofHead? head with
      | some f =>
        have htail := (List.forall_mem_cons.1 ((hV.list _).1 hc)).2
        simp only [Call.body, evaluateBody, hs]
        exact handsOn_special hV f htail st hst
      | none =>
        simp only [Call.body, evaluateBody, hs]
        exact handsOn_apply hV hc hs hst hops
    | .int _, hc, _ | .float _, hc, _ | .str _, hc, _ | .bool _, hc, _ | .nil, hc, _
    | .elem _, hc, _ | .list [], hc, _ =>
      exact HandsOn.pure' hc st hst

/-- So a run hands a property on if the primitives that it applies on the way give
values with the property. -/
theorem Runs.handsOn {Q : α → Prop} {s : Step α} {r : Except RunError α} {st : State}
    {calls : List CallTree} (h : Runs bound s r st calls) (hs : s.HandsOn bound V Q)
    (hops : ∀ c now op args, Makes bound s c now → Applies bound c now op args →
      (∀ v ∈ args, V v) → ∀ v, op.apply args = .ok v → V v) :
    st.Has V ∧ ∀ a, r = .ok a → Q a := by
  induction h with
  | done r st => exact hs
  | @call α c st st' st'' next r r' calls rest hrun _ ihbody ihnext =>
    obtain ⟨hc, hst, hnext⟩ := hs
    have hbody : (c.body bound st).HandsOn bound V V :=
      handsOn_body hV hc hst fun op args => hops c st op args .here
    obtain ⟨hst', hr⟩ := ihbody hbody fun d now op args hd => hops d now op args (.inside hd)
    refine ihnext (hnext r st' calls hrun hst' hr) fun d now op args hd => ?_
    exact hops d now op args (.later hrun hd)

end

end Formulary
