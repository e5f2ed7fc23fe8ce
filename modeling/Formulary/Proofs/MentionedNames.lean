import Formulary.Proofs.OwnFrame

/-
  Evaluation depends only on the names it mentions.

  `mentioned form ts` lists the symbols in a form and in the bodies of macros.
  Two states are the same on some names if both have the same macros, whose
  bodies mention only these names, and every one of the names is bound to the
  same value in both or in neither (`SameOn`). Code that mentions only these
  names does the same in both, and they stay the same on the names
  (`alike_evalAt`): names come into play through code only, and symbols in data
  are never looked up.

  A frame of a `let` may hide a name on which the scopes around it agree, so
  what is kept has to include the frames around the innermost (`Kept`).
-/

namespace Formulary

variable {α β : Type}

namespace Value

mutual

def symbols : Value → List String
  | sym name => [name]
  | list items => itemSymbols items
  | _ => []

def itemSymbols : List Value → List String
  | [] => []
  | v :: vs => symbols v ++ itemSymbols vs

end

theorem mem_itemSymbols {name : String} {vs : List Value} :
    name ∈ itemSymbols vs ↔ ∃ v ∈ vs, name ∈ v.symbols := by
  induction vs with
  | nil => simp [itemSymbols]
  | cons v vs ih => simp [itemSymbols, ih]

/-- A value whose symbols are all among some names. -/
def Mentions (S : String → Prop) (v : Value) : Prop := ∀ name ∈ v.symbols, S name

theorem itemwise_mentions (S : String → Prop) : Itemwise (Mentions S) := by
  intro items
  unfold Mentions
  rw [symbols]
  constructor
  · intro h v hv name hname
    exact h name (mem_itemSymbols.2 ⟨v, hv, hname⟩)
  · intro h name hname
    obtain ⟨v, hv, hname⟩ := mem_itemSymbols.1 hname
    exact h v hv name hname

theorem mentions_sym {S : String → Prop} {name : String} : Mentions S (sym name) ↔ S name := by
  simp [Mentions, symbols]

end Value

/-- The symbols that a form or the body of a macro mentions. -/
def mentioned (form : Value) (ts : Templates) : List String :=
  form.symbols ++ ts.flatMap fun p => p.2.body.symbols

/-! States that are the same on some names. -/

section

variable (S : String → Prop)

/-- Two states with the same macros, which mention none but the given names, and
with the same bindings of these names. -/
structure SameOn (st st' : State) : Prop where
  lookup : ∀ name, S name → st'.scope.lookup name = st.scope.lookup name
  templates : st'.templates = st.templates
  bodies : st.templates.Has (Value.Mentions S)

/-- Two runs from `st` and `st'` have come to states that are the same on the
names, and have left the frames around the innermost as they were. -/
structure Kept (st st' t t' : State) : Prop where
  same : SameOn S t t'
  outer : t.scope.outer = st.scope.outer
  outer' : t'.scope.outer = st'.scope.outer

/-- From states that are the same on the names, two computations have the same
outcome and keep the states so. -/
def Alike (m m' : Run α) : Prop :=
  ∀ st st' : State, SameOn S st st' →
    (m' st').1 = (m st).1 ∧ Kept S st st' (m st).2 (m' st').2

end

variable {S : String → Prop}

theorem SameOn.kept {st st' : State} (h : SameOn S st st') : Kept S st st' st st' := ⟨h, rfl, rfl⟩

theorem Kept.trans {st st' t t' u u' : State} (h : Kept S st st' t t') (h' : Kept S t t' u u') :
    Kept S st st' u u' :=
  ⟨h'.same, h'.outer.trans h.outer, h'.outer'.trans h.outer'⟩

theorem Scope.lookup_push (s : Scope) (frame : Frame) (name : String) :
    (s.push frame).lookup name = (frame.get? name).or (s.lookup name) := by
  have hframes : (s.push frame).frames = frame :: s.frames := rfl
  rw [lookup, hframes, lookupIn]
  cases frame.get? name <;> rfl

/-! What the evaluator is made of does the same on both sides. -/

theorem alike_bind {m m' : Run α} {f f' : α → Run β} (hm : Alike S m m')
    (hf : ∀ a, Alike S (f a) (f' a)) : Alike S (m >>= f) (m' >>= f') := by
  intro st st' hst
  obtain ⟨heq, hkept⟩ := hm st st' hst
  rw [Run.bind_apply, Run.bind_apply]
  -- both have come to one outcome: name where they stand
  generalize m st = p at heq hkept ⊢
  generalize m' st' = p' at heq hkept ⊢
  obtain ⟨r, t⟩ := p
  obtain ⟨r', t'⟩ := p'
  cases heq
  cases r with
  | error e => exact ⟨rfl, hkept⟩
  | ok a =>
    obtain ⟨heq', hkept'⟩ := hf a t t' hkept.same
    exact ⟨heq', hkept.trans hkept'⟩

theorem alike_define (name : String) (v : Value) :
    Alike S (Run.define name v) (Run.define name v) := by
  intro st st' hst
  refine ⟨rfl, ⟨?_, hst.templates, hst.bodies⟩, rfl, rfl⟩
  intro n hn
  show (st'.scope.define name v).lookup n = (st.scope.define name v).lookup n
  rw [Scope.lookup_define, Scope.lookup_define, hst.lookup n hn]

theorem alike_addTemplate {t : Template} (ht : t.body.Mentions S) :
    Alike S (Run.addTemplate t) (Run.addTemplate t) := by
  intro st st' hst
  refine ⟨rfl, ⟨hst.lookup, ?_, ?_⟩, rfl, rfl⟩
  · show st'.templates.put t.name t = st.templates.put t.name t
    rw [hst.templates]
  · intro p hp
    rcases Bindings.mem_put hp with h | h
    · rwa [h]
    · exact hst.bodies p h

theorem alike_inFrame (frame : Frame) {m m' : Run α} (hm : Alike S m m') :
    Alike S (Run.inFrame frame m) (Run.inFrame frame m') := by
  intro st st' hst
  have hpush : SameOn S { st with scope := st.scope.push frame }
      { st' with scope := st'.scope.push frame } := by
    refine ⟨fun name hname => ?_, hst.templates, hst.bodies⟩
    show (st'.scope.push frame).lookup name = (st.scope.push frame).lookup name
    rw [Scope.lookup_push, Scope.lookup_push, hst.lookup name hname]
  obtain ⟨heq, hkept⟩ := hm _ _ hpush
  have hscope := Run.scope_inFrame hkept.outer
  have hscope' := Run.scope_inFrame hkept.outer'
  refine ⟨heq, ⟨fun name hname => ?_, hkept.same.templates, hkept.same.bodies⟩, ?_, ?_⟩
  · rw [hscope, hscope']
    exact hst.lookup name hname
  · rw [hscope]
  · rw [hscope']

theorem coupling_alike (S : String → Prop) (lim : Limits) :
    Coupling (Value.Mentions S) lim lim (· = ·) (Alike S) where
  itemwise := Value.itemwise_mentions S
  pure' := fun _ _ _ hst => ⟨rfl, hst.kept⟩
  fail' := fun _ _ _ hst => ⟨rfl, hst.kept⟩
  bind' := alike_bind
  lookup' := fun name hname _ _ hst =>
    ⟨congrArg Except.ok (hst.lookup name (Value.mentions_sym.1 hname)), hst.kept⟩
  templates' := fun _ _ hst => ⟨congrArg Except.ok hst.templates, hst.kept⟩
  named' := by
    intro head f f' hnone hsome st st' hst
    rw [Run.bind_apply, Run.bind_apply, Run.read_apply, Run.read_apply, hst.templates]
    cases hnamed : st.templates.named? head with
    | none => exact hnone st st' hst
    | some t =>
      cases head with
      | sym name => exact hsome t (hst.bodies _ (Bindings.mem_of_get? hnamed)) st st' hst
      | _ => cases hnamed
  define' := alike_define
  addTemplate' := fun _ ht => alike_addTemplate ht
  inFrame' := alike_inFrame
  nested' := by
    intro α m m' hm st st' hst
    obtain ⟨heq, hkept⟩ := hm { st with depth := st.depth + 1 } { st' with depth := st'.depth + 1 }
      ⟨hst.lookup, hst.templates, hst.bodies⟩
    exact ⟨heq, ⟨hkept.same.lookup, hkept.same.templates, hkept.same.bodies⟩, hkept.outer,
      hkept.outer'⟩
  deeper := fun n h => congrArg (· + n) h
  within' := by
    rintro α h _ m m' rfl hm
    unfold Run.within
    split
    · exact fun _ _ hst => ⟨rfl, hst.kept⟩
    · exact hm

/-- Code that mentions none but the names does the same from states that are the
same on them. -/
theorem alike_evalAt (lim : Limits) (room height : Nat) {form : Value} (hform : form.Mentions S) :
    Alike S (evalAt lim room height form) (evalAt lim room height form) := by
  have hK := coupling_alike S lim
  induction room generalizing height form with
  | zero =>
    rw [evalAt_eq]
    exact hK.evalWith (fun _ _ => hK.lift' _) (fun _ _ _ _ _ => hK.fail' _) form hform _ _ rfl
  | succ room ih =>
    rw [evalAt_eq]
    refine hK.evalWith (fun _ _ => hK.lift' _) (fun h _ next hh hnext => ?_) form hform _ _ rfl
    cases hh
    exact hK.nested' (ih h hnext)

/-- Two scopes in which every name that a form and the macros mention is bound to
the same value, or unbound, make no difference to the form: it has the same value
or error, leaves the same macros, and leaves the names bound to the same values in
both. -/
theorem evaluate_mentioned (lim : Limits) (form : Value) (st : State) (scope : Scope)
    (h : ∀ name ∈ mentioned form st.templates, scope.lookup name = st.scope.lookup name) :
    let run := evaluate lim form st
    let run' := evaluate lim form { st with scope := scope }
    run'.1 = run.1 ∧ run'.2.templates = run.2.templates ∧
      ∀ name ∈ mentioned form st.templates, run'.2.scope.lookup name = run.2.scope.lookup name := by
  have hform : form.Mentions (· ∈ mentioned form st.templates) := fun name hname =>
    List.mem_append_left _ hname
  have hbodies : st.templates.Has (Value.Mentions (· ∈ mentioned form st.templates)) :=
    fun p hp name hname => List.mem_append_right _ (List.mem_flatMap.2 ⟨p, hp, hname⟩)
  obtain ⟨heq, hkept⟩ := alike_evalAt lim (Templates.roomAt lim.expansions st.depth) 0 hform st
    { st with scope := scope } ⟨h, rfl, hbodies⟩
  exact ⟨heq, hkept.same.templates, hkept.same.lookup⟩

/-- `(begin (define b (twice a)) (defmacro n (x) (list x b)) (n (car q)))` in two
scopes that bind `a` and `q` alike, one of them further out, and `z` to different
values: the symbol `z` in `q` is data, and nothing looks it up. -/
theorem evaluate_mentioned_data :
    let form : Value := .list [.sym "begin",
      .list [.sym "define", .sym "b", .list [.sym "twice", .sym "a"]],
      .list [.sym "defmacro", .sym "n", .list [.sym "x"], .list [.sym "list", .sym "x", .sym "b"]],
      .list [.sym "n", .list [.sym "car", .sym "q"]]]
    let st : State :=
      { scope := .root [("a", .int 4), ("q", .list [.sym "z"]), ("z", .int 1)]
        templates := sumTemplates }
    let scope : Scope := ⟨[("q", .list [.sym "z"])], [[("z", .str "y")], [("a", .int 4)]]⟩
    scope.lookup "z" ≠ st.scope.lookup "z" ∧
      (evaluate ⟨9, none⟩ form st).1 = .ok (.list [.sym "z", .int 8]) ∧
      (evaluate ⟨9, none⟩ form { st with scope := scope }).1 = .ok (.list [.sym "z", .int 8]) := by
  intro form st scope
  have hvalue : (evaluate ⟨9, none⟩ form st).1 = .ok (.list [.sym "z", .int 8]) := rfl
  have hsame := (evaluate_mentioned ⟨9, none⟩ form st scope (by decide)).1
  exact ⟨by decide, hvalue, hsame.trans hvalue⟩

end Formulary
