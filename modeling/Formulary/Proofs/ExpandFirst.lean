import Formulary.Proofs.Evaluation

/-
  Expanding a form before it is evaluated does not change what it means.

  `Follows ts m m'` says that from any state with the macros `ts`, where `m`
  ends in a value `m'` ends in it too, where `m` ends in an error `m'` ends in
  one of the same kind, and both leave the same bindings behind; unless `m`
  ends in one of the errors that `RunError.IsExcused` names. The evaluator
  follows itself from a form to its expansion: `expands_expandAll`, by
  induction on the room that the expansion had, from one lemma for each shape
  of a form and one for macro calls.

  Forms and macro bodies are simple here: no scopes and no macros of their own,
  and a symbol at the head of every list.
-/

namespace Formulary

/-! Simple forms. -/

/-- The special forms that make scopes or macros or expand a form. -/
def SpecialForm.isBarred : SpecialForm → Bool
  | letIn | template | expandOnce | expandFully => true
  | define | cond | quote | begin => false

namespace Value

mutual

/-- Whether a form is simple: an atom, the empty list, quoted data, or a list
headed by a symbol that is no barred special form, with simple parts. -/
def isSimple : Value → Bool
  | list [] => true
  | list (sym name :: tail) =>
    name = "quote" || (!(SpecialForm.ofName? name).any SpecialForm.isBarred && areSimple tail)
  | list (_ :: _) => false
  | _ => true

def areSimple : List Value → Bool
  | [] => true
  | v :: vs => isSimple v && areSimple vs

end

mutual

/-- The names that stand at the head of a list, quoted data apart. -/
def heads : Value → List String
  | list (sym name :: tail) => if name = "quote" then [name] else name :: allHeads tail
  | list (v :: tail) => heads v ++ allHeads tail
  | _ => []

def allHeads : List Value → List String
  | [] => []
  | v :: vs => heads v ++ allHeads vs

end

theorem areSimple_iff {vs : List Value} : areSimple vs = true ↔ ∀ v ∈ vs, v.isSimple = true := by
  induction vs with
  | nil => simp [areSimple]
  | cons v vs ih => simp [areSimple, ih]

theorem isSimple_list {name : String} {tail : List Value}
    (h : isSimple (list (sym name :: tail)) = true) (hq : name ≠ "quote") :
    (SpecialForm.ofName? name).any SpecialForm.isBarred = false ∧ ∀ v ∈ tail, v.isSimple = true := by
  rw [isSimple, decide_eq_false hq, Bool.false_or, Bool.and_eq_true] at h
  exact ⟨by simpa using h.1, areSimple_iff.1 h.2⟩

end Value

/-- Macros that are named like no special form and whose bodies are simple, with
no formal at the head of a list. -/
structure Templates.IsPlain (ts : Templates) : Prop where
  named : ∀ name t, ts.get? name = some t → SpecialForm.ofName? name = none
  simple : ∀ name t, ts.get? name = some t → t.body.isSimple = true
  formals : ∀ name t, ts.get? name = some t → ∀ x ∈ t.formals, x ∉ t.body.heads

theorem Templates.isPlain_of_forall {ts : Templates}
    (h : ∀ p ∈ ts, SpecialForm.ofName? p.1 = none ∧ p.2.body.isSimple = true ∧
      ∀ x ∈ p.2.formals, x ∉ p.2.body.heads) : ts.IsPlain := by
  exact ⟨fun name t ht => (h _ (Bindings.mem_of_get? ht)).1,
    fun name t ht => (h _ (Bindings.mem_of_get? ht)).2.1,
    fun name t ht => (h _ (Bindings.mem_of_get? ht)).2.2⟩

theorem get?_zip_of_notMem {name : String} : ∀ {formals : List String} (args : List Value),
    name ∉ formals → Bindings.get? name (formals.zip args) = none
  | [], _, _ => rfl
  | _ :: _, [], _ => rfl
  | x :: xs, _ :: args, h => by
    rw [List.zip_cons_cons, Bindings.get?_cons, if_neg fun hx => h (by simp [hx])]
    exact get?_zip_of_notMem args fun hx => h (List.mem_cons_of_mem _ hx)

section

variable {formals : List String} {args : List Value}

mutual

/-- Replacing the formals of a simple body by simple arguments gives a simple
form, when no formal heads a list. -/
theorem isSimple_subst (hargs : ∀ a ∈ args, a.isSimple = true) : ∀ (v : Value),
    v.isSimple = true → (∀ x ∈ formals, x ∉ v.heads) →
    (v.subst (formals.zip args)).isSimple = true
  | .sym name, _, _ => by
    rw [Value.subst]
    cases h : Bindings.get? name (formals.zip args) with
    | none => rfl
    | some a => exact hargs a (List.of_mem_zip (Bindings.mem_of_get? h)).2
  | .list [], _, _ => rfl
  | .list (.sym name :: tail), hs, hh => by
    rw [Value.heads] at hh
    have hname : name ∉ formals := by
      intro hx
      refine hh name hx ?_
      split <;> exact List.mem_cons_self
    -- the head stays as it is, so the list is read as before
    rw [Value.subst, Value.substAll, Value.subst, get?_zip_of_notMem args hname, Option.getD_none]
    rw [Value.isSimple] at hs ⊢
    by_cases hq : name = "quote"
    · rw [decide_eq_true hq, Bool.true_or]
    · rw [decide_eq_false hq, Bool.false_or, Bool.and_eq_true] at hs ⊢
      rw [if_neg hq] at hh
      refine ⟨hs.1, areSimple_substAll hargs tail hs.2 fun x hx hm => hh x hx ?_⟩
      exact List.mem_cons_of_mem _ hm
  | .list (.int _ :: _), hs, _ | .list (.float _ :: _), hs, _ | .list (.str _ :: _), hs, _
  | .list (.bool _ :: _), hs, _ | .list (.nil :: _), hs, _ | .list (.elem _ :: _), hs, _
  | .list (.list _ :: _), hs, _ => by simp [Value.isSimple] at hs
  | .int _, _, _ | .float _, _, _ | .str _, _, _ | .bool _, _, _ | .nil, _, _
  | .elem _, _, _ => rfl

theorem areSimple_substAll (hargs : ∀ a ∈ args, a.isSimple = true) : ∀ (vs : List Value),
    Value.areSimple vs = true → (∀ x ∈ formals, x ∉ Value.allHeads vs) →
    Value.areSimple (Value.substAll (formals.zip args) vs) = true
  | [], _, _ => rfl
  | v :: vs, hs, hh => by
    rw [Value.areSimple, Bool.and_eq_true] at hs
    rw [Value.allHeads] at hh
    rw [Value.substAll, Value.areSimple, Bool.and_eq_true]
    exact ⟨isSimple_subst hargs v hs.1 fun x hx hm => hh x hx (List.mem_append_left _ hm),
      areSimple_substAll hargs vs hs.2 fun x hx hm => hh x hx (List.mem_append_right _ hm)⟩

end

end

theorem isSimple_apply {ts : Templates} (hts : ts.IsPlain) {name : String} {t : Template}
    (hname : ts.get? name = some t) {args : List Value} (hargs : ∀ a ∈ args, a.isSimple = true)
    {next : Value} (h : t.apply args = .ok next) : next.isSimple = true := by
  unfold Template.apply at h
  split at h
  · cases h
    exact isSimple_subst hargs t.body (hts.simple name t hname)
      (hts.formals name t hname)
  · cases h

/-! Computations that follow each other. -/

/-- The same value, or errors of the same kind. -/
inductive SameOutcome {α : Type} : Except RunError α → Except RunError α → Prop where
  | value (a : α) : SameOutcome (.ok a) (.ok a)
  | error {e e' : RunError} : e.kind? = e'.kind? → SameOutcome (.error e) (.error e')

/-- Errors of a form that its expansion need not end in: evaluation that is
nested too deeply, and a `define` whose target is a macro call. -/
def RunError.IsExcused (ts : Templates) (e : RunError) : Prop :=
  e.kind? = some .depthExceeded ∨ ∃ v, e = .defineTarget v ∧ ts.call? v ≠ none

/-- From any state with the macros `ts`, `m` ends in an excused error, or `m'`
has the same outcome and leaves the same bindings, whatever the number of nested
expansions that `m'` starts with. Neither changes that number or the macros. -/
def Follows (ts : Templates) {α : Type} (m m' : Run α) : Prop :=
  ∀ st d, st.templates = ts →
    (∃ e, (m st).1 = .error e ∧ e.IsExcused ts) ∨
    (SameOutcome (m st).1 (m' { st with depth := d }).1 ∧
      (m' { st with depth := d }).2 = { (m st).2 with depth := d } ∧
      (m st).2.templates = ts ∧ (m st).2.depth = st.depth)

namespace Follows

variable {ts : Templates} {α β : Type}

theorem pure' (a : α) : Follows ts (pure a) (pure a) :=
  fun _ _ h => .inr ⟨.value a, rfl, h, rfl⟩

theorem fail' {e e' : RunError} (h : e.kind? = e'.kind?) :
    Follows ts (Run.fail e : Run α) (Run.fail e') :=
  fun _ _ hst => .inr ⟨.error h, rfl, hst, rfl⟩

theorem excused {e : RunError} (h : e.IsExcused ts) (m' : Run α) :
    Follows ts (Run.fail e) m' :=
  fun _ _ _ => .inl ⟨e, rfl, h⟩

theorem lift' (r : Except RunError α) : Follows ts (Run.lift r) (Run.lift r) := by
  cases r with
  | ok a => exact pure' a
  | error e => exact fail' rfl

/-- Only what happens in states with the macros `ts` counts. -/
theorem congr' {m n m' n' : Run α} (hm : ∀ st, st.templates = ts → m st = n st)
    (hm' : ∀ st, st.templates = ts → m' st = n' st) (h : Follows ts n n') : Follows ts m m' := by
  intro st d hst
  rw [hm st hst, hm' { st with depth := d } hst]
  exact h st d hst

theorem bind' {m m' : Run α} {f f' : α → Run β} (hm : Follows ts m m')
    (hf : ∀ a, Follows ts (f a) (f' a)) : Follows ts (m >>= f) (m' >>= f') := by
  intro st d hst
  rw [Run.bind_apply, Run.bind_apply]
  rcases hm st d hst with ⟨e, he, hx⟩ | ⟨hr, hs, ht, hd⟩
  · obtain ⟨st', h⟩ : ∃ st', m st = (.error e, st') := ⟨_, Prod.ext he rfl⟩
    rw [h]
    exact .inl ⟨e, rfl, hx⟩
  · -- the two runs are in step: name where they stand
    generalize m st = p at hr hs ht hd ⊢
    generalize m' { st with depth := d } = p' at hr hs ⊢
    obtain ⟨r, s⟩ := p
    obtain ⟨r', s'⟩ := p'
    cases hs
    cases hr with
    | error hk => exact .inr ⟨.error hk, rfl, ht, hd⟩
    | value a =>
      rcases hf a s d ht with hx | ⟨hr', hs', ht', hd'⟩
      · exact .inl hx
      · exact .inr ⟨hr', hs', ht', hd'.trans hd⟩

/-- What is read must not depend on the number of nested expansions. -/
theorem read' {f : State → α} (hf : ∀ st d, f { st with depth := d } = f st) :
    Follows ts (Run.read f) (Run.read f) := by
  intro st d hst
  refine .inr ⟨?_, rfl, hst, rfl⟩
  rw [Run.read_apply, Run.read_apply]
  rw [hf st d]
  exact .value (f st)

theorem define' (name : String) (v : Value) :
    Follows ts (Run.define name v) (Run.define name v) :=
  fun _ _ hst => .inr ⟨.value (), rfl, hst, rfl⟩

theorem ite' {c : Prop} [Decidable c] {m n m' n' : Run α} (hm : Follows ts m m')
    (hn : Follows ts n n') : Follows ts (if c then m else n) (if c then m' else n') := by
  by_cases h : c
  · simpa only [h, if_true] using hm
  · simpa only [h, if_false] using hn

theorem nested_left {m m' : Run α} (h : Follows ts m m') : Follows ts (Run.nested m) m' := by
  intro st d hst
  rcases h { st with depth := st.depth + 1 } d hst with ⟨e, he, hx⟩ | ⟨hr, hs, ht, hd⟩
  · exact .inl ⟨e, he, hx⟩
  · exact .inr ⟨hr, hs, ht, Run.depth_nested hd⟩

theorem within' {lim : Limits} {h h' : Nat} (hh : h' ≤ h) {m m' : Run α}
    (hm : Follows ts m m') : Follows ts (Run.within lim h m) (Run.within lim h' m') := by
  unfold Run.within
  by_cases hn : lim.nesting.any fun n => n < h
  · rw [if_pos hn]
    exact excused (.inl rfl) _
  · -- `h` is not too deep, so neither is `h'`
    rw [if_neg hn, if_neg]
    · exact hm
    · cases hlim : lim.nesting with
      | none => simp
      | some n =>
        rw [hlim] at hn
        simp only [Option.any_some, decide_eq_true_eq] at hn ⊢
        omega

theorem within_left {lim : Limits} {h : Nat} {m m' : Run α}
    (hm : Follows ts m m') : Follows ts (Run.within lim h m) m' := by
  unfold Run.within
  split
  · exact excused (.inl rfl) _
  · exact hm

end Follows

/-! The evaluator follows itself from a form to its expansion. -/

section

variable (lim : Limits) (ts : Templates)

/-- `r` may be evaluated in the place of `f`, with any room for expansions and
no deeper than `f`; and it is a symbol just when `f` is, if `f` is no macro
call. -/
structure Expands (f r : Value) : Prop where
  follows : ∀ room room' h h', h' ≤ h →
    Follows ts (evalAt lim room h f) (evalAt lim room' h' r)
  symbol : ts.call? f = none → ∀ name, f = .sym name ↔ r = .sym name

variable {lim ts}

theorem follows_resolve (name : String) : Follows ts (resolve name) (resolve name) := by
  unfold resolve
  refine .bind' (.read' fun _ _ => rfl) fun found => ?_
  cases found with
  | some v => exact .pure' v
  | none => exact .ite' (.pure' _) (.fail' rfl)

section

variable {room room' h h' : Nat} (hh : h' ≤ h)
include hh

theorem follows_args {fs rs : List Value} (hfs : List.Forall₂ (Expands lim ts) fs rs) :
    Follows ts (evalArgs lim room (expansionAt lim room) h fs)
      (evalArgs lim room' (expansionAt lim room') h' rs) := by
  induction hfs with
  | nil =>
    rw [evalArgs, evalArgs]
    exact .pure' []
  | cons hf _ ih =>
    rw [evalArgs, evalArgs, ← evalAt_eq, ← evalAt_eq]
    exact .bind' (hf.follows room room' h h' hh) fun v => .bind' ih fun vs => .pure' _

theorem follows_body {fs rs : List Value} (hfs : List.Forall₂ (Expands lim ts) fs rs)
    (last : Value) :
    Follows ts (evalBody lim room (expansionAt lim room) h last fs)
      (evalBody lim room' (expansionAt lim room') h' last rs) := by
  induction hfs generalizing last with
  | nil =>
    rw [evalBody, evalBody]
    exact .pure' last
  | cons hf _ ih =>
    rw [evalBody, evalBody, ← evalAt_eq, ← evalAt_eq]
    exact .bind' (hf.follows room room' _ _ (by omega)) fun v => ih v

theorem follows_define {fs rs : List Value} (hfs : List.Forall₂ (Expands lim ts) fs rs) :
    Follows ts (evalDefine lim room (expansionAt lim room) h fs)
      (evalDefine lim room' (expansionAt lim room') h' rs) := by
  match hfs with
  | .nil | .cons _ .nil | .cons _ (.cons _ (.cons _ _)) =>
    simp only [evalDefine]
    exact .fail' rfl
  | .cons (a := f) (b := r) hf (.cons (a := g) (b := s) hg .nil) =>
    by_cases hname : ∃ name, f = .sym name
    · obtain ⟨name, rfl⟩ := hname
      obtain rfl := (hf.symbol rfl name).1 rfl
      rw [evalDefine, evalDefine, ← evalAt_eq, ← evalAt_eq]
      exact .bind' (hg.follows room room' _ _ (by omega)) fun v =>
        .bind' (.define' name v) fun _ => .pure' v
    · rw [evalDefine_target lim room _ h (fun name hf' => hname ⟨name, hf'⟩)]
      by_cases hc : ts.call? f = none
      · rw [evalDefine_target lim room' _ h' fun name hr => hname ⟨name, (hf.symbol hc name).2 hr⟩]
        exact .fail' rfl
      · -- what the call expands to may be a symbol, which could be defined
        exact .excused (.inr ⟨f, rfl, hc⟩) _

theorem follows_cond {fs rs : List Value} (hfs : List.Forall₂ (Expands lim ts) fs rs) :
    Follows ts (evalCond lim room (expansionAt lim room) h fs)
      (evalCond lim room' (expansionAt lim room') h' rs) := by
  have hpart : ∀ {f r : Value}, Expands lim ts f r →
      Follows ts (evalWith lim room (expansionAt lim room) (h + 2) f)
        (evalWith lim room' (expansionAt lim room') (h' + 2) r) := by
    intro f r hf
    rw [← evalAt_eq, ← evalAt_eq]
    exact hf.follows room room' _ _ (by omega)
  match hfs with
  | .nil | .cons _ .nil | .cons _ (.cons _ (.cons _ (.cons _ _))) =>
    simp only [evalCond]
    exact .fail' rfl
  | .cons ht (.cons hy .nil) =>
    rw [evalCond, evalCond]
    exact .bind' (hpart ht) fun t => .ite' (hpart hy) (.pure' _)
  | .cons ht (.cons hy (.cons hn .nil)) =>
    rw [evalCond, evalCond]
    exact .bind' (hpart ht) fun t => .ite' (hpart hy) (hpart hn)

end

theorem follows_operator (room room' h h' : Nat) (name : String) :
    Follows ts (operator (evalWith lim room (expansionAt lim room) h) (.sym name))
      (operator (evalWith lim room' (expansionAt lim room') h') (.sym name)) := by
  unfold operator
  cases Primitive.ofValue? (.sym name) with
  | some p => exact .pure' p
  | none =>
    refine .bind' (.read' fun _ _ => rfl) fun unbound => ?_
    cases unbound with
    | some n => exact .fail' rfl
    | none =>
      rw [evalWith_sym, evalWith_sym]
      refine .bind' (follows_resolve name) fun target => ?_
      cases Primitive.ofValue? target with
      | some p => exact .pure' p
      | none => exact .fail' rfl

theorem expands_list {name : String} {fs rs : List Value}
    (hname : ts.get? name = none)
    (hbar : (SpecialForm.ofHead? (.sym name)).any SpecialForm.isBarred = false)
    (hquote : name ≠ "quote") (hfs : List.Forall₂ (Expands lim ts) fs rs) :
    Expands lim ts (.list (.sym name :: fs)) (.list (.sym name :: rs)) where
  symbol := fun _ n => by simp
  follows := by
    intro room room' h h' hh
    rw [evalAt_eq, evalAt_eq]
    cases hf : SpecialForm.ofHead? (.sym name) with
    | some form =>
      rw [evalWith_special lim room _ h fs hf, evalWith_special lim room' _ h' rs hf]
      refine .within' hh ?_
      rw [hf] at hbar
      cases form with
      | define => exact follows_define hh hfs
      | cond => exact follows_cond hh hfs
      | begin => exact follows_body hh hfs .nil
      | quote => exact absurd (SpecialForm.name_of_ofName? (n := name) hf).symm hquote
      | letIn | template | expandOnce | expandFully => simp [SpecialForm.isBarred] at hbar
    | none =>
      rw [evalWith_apply lim room _ h fs hf, evalWith_apply lim room' _ h' rs hf]
      -- only the macros at hand tell an application from a macro call
      have hop : ∀ room h fs st, st.templates = ts →
          evalApply lim room (expansionAt lim room) h (.sym name) fs st = _ := fun room h fs st hst =>
        evalApply_operator lim room _ h fs (by rw [hst]; exact hname)
      refine .within' hh (.congr' (hop room h fs) (hop room' h' rs) ?_)
      refine .bind' (follows_operator room room' _ _ name) fun op => ?_
      exact .bind' (follows_args (by omega) hfs) fun args => .lift' _

/-- A macro call may be replaced by whatever may replace its expansion. -/
theorem follows_call {name : String} {t : Template} (hts : ts.IsPlain)
    (hname : ts.get? name = some t) {args : List Value} {next : Value}
    (happly : t.apply args = .ok next) {r : Value} (hr : Expands lim ts next r)
    (room room' h h' : Nat) (hh : h' ≤ h) :
    Follows ts (evalAt lim room h (.list (.sym name :: args))) (evalAt lim room' h' r) := by
  have hhead : SpecialForm.ofHead? (.sym name) = none := hts.named name t hname
  rw [evalAt_eq, evalWith_apply lim room _ h args hhead]
  have hcall : ∀ st, st.templates = ts →
      evalApply lim room (expansionAt lim room) h (.sym name) args st =
        expansionAt lim room (h + 1) next st := by
    intro st hst
    rw [evalApply_call lim room _ h args (by rw [hst]; exact hname), happly]
    rfl
  refine .within_left (.congr' hcall (fun _ _ => rfl) ?_)
  -- without room the call ends in an excused error
  cases room with
  | zero => exact .excused (.inl rfl) _
  | succ room => exact .nested_left (hr.follows room room' (h + 1) h' (by omega))

/-- Expanding the head of a simple form leads to a simple form, and what may
replace that may replace the form. -/
theorem expands_of_headExpands (lim : Limits) (hts : ts.IsPlain) {n : Nat} {f g : Value}
    (h : HeadExpands ts n f g) (hf : f.isSimple = true) :
    g.isSimple = true ∧ ∀ r, Expands lim ts g r → Expands lim ts f r := by
  induction h with
  | refl => exact ⟨hf, fun _ hr => hr⟩
  | step hc happly _ ih =>
    obtain ⟨name, rfl, hname⟩ := Templates.call?_eq_some hc
    have hquote : name ≠ "quote" := by
      rintro rfl
      simpa using (hts.named _ _ hname).symm.trans (SpecialForm.ofName?_name .quote)
    obtain ⟨hg, hrun⟩ := ih (isSimple_apply hts hname (Value.isSimple_list hf hquote).2 happly)
    refine ⟨hg, fun r hr => ⟨follows_call hts hname happly (hrun r hr), ?_⟩⟩
    -- nothing is said of what a macro call expands to
    rw [hc]
    exact fun hnone => nomatch hnone

theorem expands_atom {v : Value} (hl : ∀ head tail, v ≠ .list (head :: tail)) :
    Expands lim ts v v where
  symbol := fun _ _ => Iff.rfl
  follows := by
    intro room room' h h' _
    rw [evalAt_eq, evalAt_eq]
    by_cases hs : ∃ name, v = .sym name
    · obtain ⟨name, rfl⟩ := hs
      rw [evalWith_sym, evalWith_sym]
      exact follows_resolve name
    · have hs' : ∀ name, v ≠ .sym name := fun name hv => hs ⟨name, hv⟩
      rw [evalWith_atom lim room _ h hs' hl, evalWith_atom lim room' _ h' hs' hl]
      exact .pure' v

theorem expands_quoted (tail : List Value) :
    Expands lim ts (.list (.sym "quote" :: tail)) (.list (.sym "quote" :: tail)) where
  symbol := fun _ _ => Iff.rfl
  follows := by
    intro room room' h h' hh
    have hq : SpecialForm.ofHead? (.sym "quote") = some .quote := SpecialForm.ofName?_name .quote
    rw [evalAt_eq, evalAt_eq, evalWith_special lim room _ h tail hq,
      evalWith_special lim room' _ h' tail hq]
    refine .within' hh ?_
    match tail with
    | [] | _ :: _ :: _ => exact .fail' rfl
    | [v] => exact .pure' v

theorem expands_parts {bound : Int} {room : Nat} (ih : ∀ f r, f.isSimple = true →
      ts.expandAll bound room f = .ok r → Expands lim ts f r)
    {items rs : List Value} (hs : (Value.list items).isSimple = true)
    (hc : ts.call? (.list items) = none) (hq : Templates.isQuoted items = false)
    (hrs : List.Forall₂ (fun f r => ts.expandAll bound room f = .ok r) items rs) :
    Expands lim ts (.list items) (.list rs) := by
  cases hrs with
  | nil => exact expands_atom (by simp)
  | @cons head head' tail rs hhead htail =>
    cases head with
    | sym name =>
      obtain rfl := eq_of_expandAll_sym hhead
      have hname : ts.get? name = none := by
        simpa [Templates.call?, Templates.named?] using hc
      have hquote : name ≠ "quote" := by
        rintro rfl
        simp [Templates.isQuoted] at hq
      obtain ⟨hbar, hparts⟩ := Value.isSimple_list hs hquote
      have hexp := (List.forall₂_and_left _ _).2 ⟨hparts, htail⟩
      exact expands_list hname hbar hquote (hexp.imp fun f r h => ih f r h.1 h.2)
    | _ => simp [Value.isSimple] at hs

/-- What a simple form expands to may be evaluated in its place. -/
theorem expands_expandAll (lim : Limits) (hts : ts.IsPlain) {bound : Int} {room : Nat}
    {f r : Value} (hf : f.isSimple = true) (h : ts.expandAll bound room f = .ok r) :
    Expands lim ts f r := by
  induction room generalizing f r with
  | zero => cases h
  | succ room ih =>
    obtain ⟨fewer, n, g, hroom, hsteps, hc, hcase⟩ := expandAll_ok h
    obtain rfl := Nat.succ.inj hroom
    obtain ⟨hg, hrun⟩ := expands_of_headExpands lim hts hsteps hf
    refine hrun r ?_
    rcases hcase with ⟨rfl, hq⟩ | ⟨items, rs, rfl, hq, rfl, hparts⟩
    · -- quoted data, or no list at all
      by_cases hlist : ∃ items, r = .list items
      · obtain ⟨items, rfl⟩ := hlist
        obtain ⟨tail, rfl⟩ := Templates.exists_of_isQuoted (hq items rfl)
        exact expands_quoted tail
      · exact expands_atom fun head tail hr => hlist ⟨head :: tail, hr⟩
    · exact expands_parts (fun f r hf h => ih hf h) hg hc hq hparts

end

/-- What a simple form expands to has the outcome of the form and leaves the
state that the form leaves, for plain macros: unless evaluating the form is
nested too deeply, or ends at a `define` whose target is a macro call. -/
theorem evaluate_expandAll {ts : Templates} (hts : ts.IsPlain) {bound : Int} {room : Nat}
    {f r : Value} (hf : f.isSimple = true) (hr : ts.expandAll bound room f = .ok r)
    (lim : Limits) {st : State} (hst : st.templates = ts)
    (hdeep : ∀ e, (evaluate lim f st).1 = .error e → e.kind? ≠ some .depthExceeded)
    (htarget : ∀ v, (evaluate lim f st).1 = .error (.defineTarget v) → ts.call? v = none) :
    SameOutcome (evaluate lim f st).1 (evaluate lim r st).1 ∧
      (evaluate lim r st).2 = (evaluate lim f st).2 := by
  have hfollows := (expands_expandAll lim hts hf hr).follows
    (Templates.roomAt lim.expansions st.depth) (Templates.roomAt lim.expansions st.depth) 0 0
    (Nat.le_refl 0) st st.depth hst
  rcases hfollows with ⟨e, he, hx⟩ | ⟨hsame, hstate, -, hd⟩
  · rcases hx with hk | ⟨v, rfl, hcall⟩
    · exact absurd hk (hdeep e he)
    · exact absurd (htarget v he) hcall
  · refine ⟨hsame, hstate.trans ?_⟩
    show { (evaluate lim f st).2 with depth := st.depth } = (evaluate lim f st).2
    rw [← hd]
    rfl

/-- Macros that use an argument twice, drop one, and quote one. -/
def plainSample : Templates :=
  [("twice", ⟨"twice", ["x"], .list [.sym "+", .sym "x", .sym "x"]⟩),
   ("second", ⟨"second", ["x", "y"], .list [.sym "twice", .sym "y"]⟩),
   ("data", ⟨"data", ["x"], .quote (.sym "x")⟩)]

/-- `(begin (define a (second (car 1) 4)) (if (< a 9) (data (twice a)) a))`
defines `a` as 8 and gives the call as data, expanded or not. -/
theorem evaluate_expandAll_sample :
    let form (define branch : Value) : Value := .list [.sym "begin",
      .list [.sym "define", .sym "a", define],
      .list [.sym "if", .list [.sym "<", .sym "a", .int 9], branch, .sym "a"]]
    let f := form (.list [.sym "second", .list [.sym "car", .int 1], .int 4])
      (.list [.sym "data", .list [.sym "twice", .sym "a"]])
    let r := form (.list [.sym "+", .int 4, .int 4])
      (.quote (.list [.sym "twice", .sym "a"]))
    let st : State := { scope := .root [], templates := plainSample }
    (evaluate ⟨9, none⟩ f st).1 = .ok (.list [.sym "twice", .sym "a"]) ∧
      SameOutcome (evaluate ⟨9, none⟩ f st).1 (evaluate ⟨9, none⟩ r st).1 ∧
      (evaluate ⟨9, none⟩ r st).2 = (evaluate ⟨9, none⟩ f st).2 := by
  intro form f r st
  have hvalue : (evaluate ⟨9, none⟩ f st).1 = .ok (.list [.sym "twice", .sym "a"]) := rfl
  have hplain : plainSample.IsPlain := Templates.isPlain_of_forall (by decide)
  have hexpand : plainSample.expandAll 9 9 f = .ok r := rfl
  refine ⟨hvalue, evaluate_expandAll hplain (by decide) hexpand ⟨9, none⟩ rfl ?_ ?_⟩
  · intro e he
    rw [hvalue] at he
    cases he
  · intro v hv
    rw [hvalue] at hv
    cases hv

/-- Without the condition on targets the outcomes differ: with a macro `m` that
stands for its argument, `(define (m y) 1)` is an error and its expansion is
not. -/
theorem define_call_differs :
    let ts : Templates := [("m", ⟨"m", ["x"], .sym "x"⟩)]
    let f : Value := .list [.sym "define", .list [.sym "m", .sym "y"], .int 1]
    let r : Value := .list [.sym "define", .sym "y", .int 1]
    let st : State := { scope := .root [], templates := ts }
    ts.IsPlain ∧ f.isSimple = true ∧ ts.expandAll 200 200 f = .ok r ∧
      (evaluate ⟨200, none⟩ f st).1 = .error (.defineTarget (.list [.sym "m", .sym "y"])) ∧
      ¬SameOutcome (evaluate ⟨200, none⟩ f st).1 (evaluate ⟨200, none⟩ r st).1 ∧
      (evaluate ⟨200, none⟩ f st).2.scope.lookup "y" = none ∧
      (evaluate ⟨200, none⟩ r st).2.scope.lookup "y" = some (.int 1) := by
  intro ts f r st
  have hf : evaluate ⟨200, none⟩ f st =
      (.error (.defineTarget (.list [.sym "m", .sym "y"])), st) := rfl
  have hr : evaluate ⟨200, none⟩ r st =
      (.ok (.int 1), { st with scope := .root [("y", .int 1)] }) := rfl
  refine ⟨Templates.isPlain_of_forall (by decide), by decide, rfl, ?_, ?_, ?_, ?_⟩
  · rw [hf]
  · rw [hf, hr]
    exact fun h => nomatch h
  · rw [hf]
    rfl
  · rw [hr]
    rfl

end Formulary
