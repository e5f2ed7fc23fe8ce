import Formulary.Proofs.ExpansionChain
import Formulary.Proofs.MentionedNames
import Formulary.Proofs.Workflow

/-
  The macros of structure types behave as functions of their arguments.

  A macro call is replaced by its expansion, and the arguments are put into it as
  they are. An argument that the template repeats is evaluated as often, one that
  it leaves out is not evaluated at all, and the order is that of the template.
  But a template may apply a primitive to its formals, each of them once and in
  order, with nothing but constants between them (`Template.IsStrict`). Then its
  expansion evaluates the arguments one after the other (`evalArgs_substAll`),
  and a call does what a function would do that is given their values
  (`evaluate_strict`). Every structure type has such a template
  (`isStrict_template`).
-/

namespace Formulary

/-! Replacing symbols. -/

namespace Value

mutual

theorem subst_congr {b b' : Bindings Value} : ∀ (v : Value),
    (∀ name ∈ v.symbols, b.get? name = b'.get? name) → v.subst b = v.subst b'
  | sym name, h => by
    rw [subst, subst, h name (by simp [symbols])]
  | list items, h => by
    rw [subst, subst, substAll_congr items h]
  | int _, _ | float _, _ | str _, _ | bool _, _ | nil, _ | elem _, _ => rfl

theorem substAll_congr {b b' : Bindings Value} : ∀ (vs : List Value),
    (∀ name ∈ itemSymbols vs, b.get? name = b'.get? name) → substAll b vs = substAll b' vs
  | [], _ => rfl
  | v :: vs, h => by
    rw [substAll, substAll, subst_congr v fun name hname => h name (by simp [itemSymbols, hname]),
      substAll_congr vs fun name hname => h name (by simp [itemSymbols, hname])]

end

theorem inert_of_isConstant {v : Value} (h : v.isConstant = true) :
    v.symbols = [] ∧ ∀ b, v.subst b = v := by
  cases v with
  | sym name => cases h
  | list items =>
    cases items with
    | nil => exact ⟨rfl, fun _ => rfl⟩
    | cons => cases h
  | _ => exact ⟨rfl, fun _ => rfl⟩

/-- The first of some names is replaced where it stands, and not in what mentions
the other names only. -/
theorem substAll_zip_cons {name : String} {operands : List Value}
    (hname : name ∉ itemSymbols operands) (names : List String) (v : Value) (vs : List Value) :
    substAll ((name :: names).zip (v :: vs)) (.sym name :: operands) =
      v :: substAll (names.zip vs) operands := by
  have hrest : substAll ((name, v) :: names.zip vs) operands =
      substAll (names.zip vs) operands := by
    apply substAll_congr
    intro n hn
    rw [Bindings.get?_cons, if_neg]
    rintro rfl
    exact hname hn
  rw [List.zip_cons_cons, substAll, hrest, subst, Bindings.get?_cons, if_pos rfl]
  rfl

end Value

/-! Strict templates. -/

/-- A template that applies what `name` names to `operands`: to constants and to its
formals, each of them once and in order. -/
structure Template.IsStrict (t : Template) (name : String) (operands : List Value) : Prop where
  body : t.body = .list (.sym name :: operands)
  atoms : ∀ o ∈ operands, o.isConstant = true ∨ ∃ x, o = .sym x
  inOrder : Value.itemSymbols operands = t.formals
  nodup : t.formals.Nodup
  spare : name ∉ t.formals

theorem Template.IsStrict.apply {t : Template} {name : String} {operands args : List Value}
    (h : t.IsStrict name operands) (hargs : args.length = t.arity) :
    t.apply args =
      .ok (.list (.sym name :: Value.substAll (t.formals.zip args) operands)) := by
  rw [Template.apply, if_pos hargs, h.body, Value.subst, Value.substAll, Value.subst,
    get?_zip_of_notMem args h.spare]
  rfl

/-- The arguments that stand for the symbols of operands are evaluated in order,
and their values stand in their places. -/
theorem evalArgs_substAll {lim : Limits} {room height : Nat}
    {expansion : Nat → Value → Run Value} : ∀ {operands args : List Value},
    (∀ o ∈ operands, o.isConstant = true ∨ ∃ x, o = .sym x) →
    (Value.itemSymbols operands).Nodup → args.length = (Value.itemSymbols operands).length →
    evalArgs lim room expansion height
        (Value.substAll ((Value.itemSymbols operands).zip args) operands) = (do
      let vs ← evalArgs lim room expansion height args
      pure (Value.substAll ((Value.itemSymbols operands).zip vs) operands))
  | [], [], _, _, _ => by
    rw [Value.substAll, evalArgs, pure_bind]
    rfl
  | o :: operands, args, hatoms, hnodup, hlen => by
    obtain ⟨hfirst, hrest⟩ := List.forall_mem_cons.1 hatoms
    -- a constant takes no argument, and a symbol takes the next one
    obtain hconstant | ⟨x, rfl⟩ := hfirst
    · obtain ⟨hnone, hstays⟩ := Value.inert_of_isConstant hconstant
      have hsymbols : Value.itemSymbols (o :: operands) = Value.itemSymbols operands := by
        rw [Value.itemSymbols, hnone, List.nil_append]
      rw [hsymbols] at hnodup hlen ⊢
      simp only [Value.substAll, hstays]
      rw [evalArgs_cons, evalWith_constant hconstant, pure_bind,
        evalArgs_substAll hrest hnodup hlen, bind_assoc]
      simp only [pure_bind]
    · have hsymbols : Value.itemSymbols (.sym x :: operands) = x :: Value.itemSymbols operands := by
        rw [Value.itemSymbols, Value.symbols, List.singleton_append]
      rw [hsymbols] at hnodup hlen ⊢
      obtain ⟨hx, hothers⟩ := List.nodup_cons.1 hnodup
      cases args with
      | nil => cases hlen
      | cons a args =>
        rw [Value.substAll_zip_cons hx, evalArgs_cons, evalArgs_cons,
          evalArgs_substAll hrest hothers (Nat.succ.inj hlen)]
        simp only [bind_assoc, pure_bind, Value.substAll_zip_cons hx]

section

variable {bound : Int}

theorem evalArgs_eq_mapM {room : Nat} (height : Nat) (args : List Value) {st : State}
    (hroom : Templates.roomAt bound st.depth = room) :
    evalArgs ⟨bound, none⟩ room (expansionAt ⟨bound, none⟩ room) height args st =
      args.mapM (evaluate ⟨bound, none⟩) st := by
  induction args generalizing st with
  | nil =>
    rw [evalArgs, List.mapM_nil]
  | cons a args ih =>
    have hfirst : evalWith ⟨bound, none⟩ room (expansionAt ⟨bound, none⟩ room) height a st =
        evaluate ⟨bound, none⟩ a st := by
      rw [← evalAt_eq, evalAt_height bound room height 0, evaluate, hroom]
    have hkeeps := (keepsDepth_evalAt ⟨bound, none⟩ room height a st).1
    rw [evalAt_eq, hfirst] at hkeeps
    rw [evalArgs_cons, List.mapM_cons, Run.bind_apply, Run.bind_apply, hfirst]
    generalize evaluate ⟨bound, none⟩ a st = run at hkeeps ⊢
    obtain ⟨r, mid⟩ := run
    cases r with
    | error e => rfl
    | ok v =>
      -- as many expansions are nested as before the first argument
      have hrest := ih (show Templates.roomAt bound mid.depth = room by
        rw [show mid.depth = st.depth from hkeeps]; exact hroom)
      simp only [Run.bind_apply, hrest]

theorem evalAt_strict {t : Template} {name : String} {p : Primitive} {operands args : List Value}
    (h : t.IsStrict name operands) (hp : Primitive.ofName? name = some p)
    (hargs : args.length = t.arity) (st : State) (hspare : st.templates.get? name = none)
    {room : Nat} (hroom : Templates.roomAt bound st.depth = room) (height : Nat) :
    evalAt ⟨bound, none⟩ room height
        (.list (.sym name :: Value.substAll (t.formals.zip args) operands)) st =
      (do
        let vs ← args.mapM (evaluate ⟨bound, none⟩)
        Run.lift (p.apply (Value.substAll (t.formals.zip vs) operands)) : Run Value) st := by
  have hlen : args.length = (Value.itemSymbols operands).length := by
    rw [hargs, h.inOrder]
    rfl
  have hnodup : (Value.itemSymbols operands).Nodup := h.inOrder ▸ h.nodup
  have hvalues := evalArgs_eq_mapM (height + 2) args hroom
  rw [evalAt_eq, evalWith_application _ _ _ _ _ hp hspare]
  show (evalArgs ⟨bound, none⟩ room (expansionAt ⟨bound, none⟩ room) (height + 2) _ >>= _) st = _
  rw [← h.inOrder, evalArgs_substAll h.atoms hnodup hlen, bind_assoc, Run.bind_apply,
    Run.bind_apply, hvalues]
  simp only [pure_bind]

/-- A call of a strict template evaluates its arguments from left to right, each of
them once, and gives their values to the primitive, all of it one expansion
deeper. -/
theorem evaluate_strict {t : Template} {key name : String} {p : Primitive}
    {operands args : List Value} (h : t.IsStrict name operands)
    (hp : Primitive.ofName? name = some p) (hargs : args.length = t.arity) {st : State}
    (hkey : SpecialForm.ofName? key = none) (htemplate : st.templates.get? key = some t)
    (hspare : st.templates.get? name = none) (hdepth : (st.depth : Int) < bound) :
    evaluate ⟨bound, none⟩ (.list (.sym key :: args)) st =
      Run.nested (do
        let vs ← args.mapM (evaluate ⟨bound, none⟩)
        Run.lift (p.apply (Value.substAll (t.formals.zip vs) operands))) st := by
  obtain ⟨room, hroom, hdeeper⟩ : ∃ room, Templates.roomAt bound st.depth = room + 1 ∧
      Templates.roomAt bound (st.depth + 1) = room := by
    refine ⟨Templates.roomAt bound (st.depth + 1), ?_, rfl⟩
    simp only [Templates.roomAt]
    omega
  have hhead : SpecialForm.ofHead? (.sym key) = none := hkey
  have hnamed : st.templates.named? (.sym key) = some t := htemplate
  have hbody := evalAt_strict h hp hargs { st with depth := st.depth + 1 } hspare hdeeper 1
  rw [evaluate, hroom, evalAt_eq, evalWith_apply _ _ _ _ args hhead, Run.within_zero,
    evalApply_call _ _ _ _ args hnamed, h.apply hargs]
  show Run.nested (evalAt ⟨bound, none⟩ room 1 _) st = _
  simp only [Run.nested, hbody]

end

/-! Structure types. -/

namespace StructureType

/-- What the macro of a structure type applies the primitive to: its sites, each
with its count. -/
def operands (s : StructureType) : List Value :=
  s.sites.flatMap fun p => [p.1.form, .int p.2]

theorem body_eq (s : StructureType) : s.body = .list (.sym "material" :: s.operands) := rfl

theorem itemSymbols_operands (s : StructureType) : Value.itemSymbols s.operands = s.formals := by
  unfold operands formals
  induction s.sites with
  | nil => rfl
  | cons p sites ih =>
    obtain ⟨site, n⟩ := p
    simp only [List.flatMap_cons, List.cons_append, List.nil_append, List.filterMap_cons,
      Value.itemSymbols, ih]
    cases site <;> rfl

end StructureType

theorem isStrict_template {t : StructureType} (ht : t ∈ catalogue) :
    t.template.IsStrict "material" t.operands := by
  obtain ⟨hnodup, hspare, -, -⟩ := catalogue_sites t ht
  refine ⟨t.body_eq, ?_, t.itemSymbols_operands, hnodup, hspare⟩
  intro o ho
  obtain ⟨⟨site, n⟩, -, ho⟩ := List.mem_flatMap.1 ho
  simp only [List.mem_cons, List.not_mem_nil, or_false] at ho
  obtain rfl | rfl := ho
  · cases site with
    | formal name => exact .inr ⟨name, rfl⟩
    | fixed tag => exact .inl rfl
  · exact .inl rfl

/-- Where nesting has no limit, a call of a structure type's macro does what a
function of its arguments does: it evaluates them from left to right, each of
them once, in the scope of the call and one expansion deeper, and builds the
formula from the operands of its template with the values in the place of the
formals. -/
theorem evaluate_structureType {t : StructureType} (ht : t ∈ catalogue) {args : List Value}
    (hargs : args.length = t.arity) {bound : Int} {st : State}
    (htemplate : st.templates.get? t.name = some t.template)
    (hmaterial : st.templates.get? "material" = none) (hdepth : (st.depth : Int) < bound) :
    evaluate ⟨bound, none⟩ (.list (.sym t.name :: args)) st =
      Run.nested (do
        let vs ← args.mapM (evaluate ⟨bound, none⟩)
        Run.lift (material (Value.substAll (t.formals.zip vs) t.operands))) st := by
  obtain ⟨-, -, -, hname⟩ := catalogue_sites t ht
  have hmaterialName : Primitive.ofName? "material" = some .material := by decide
  exact evaluate_strict (isStrict_template ht) hmaterialName hargs hname htemplate hmaterial hdepth

/-- `(spinel (define a :Mg) (begin (define b a) :Al))` finds in its second argument
what the first has bound, and `(spinel (define a :Mg) (car ()))` leaves it
behind when the second fails. -/
theorem evaluate_structureType_spinel :
    let st : State :=
      { scope := ⟨[], [[("a", .int 1)]]⟩, templates := catalogueTemplates, depth := 4 }
    let bindA : Value := .list [.sym "define", .sym "a", .elem "Mg"]
    let bindB : Value := .list [.sym "begin", .list [.sym "define", .sym "b", .sym "a"], .elem "Al"]
    let failing : Value := .list [.sym "car", .list []]
    let after (frame : Frame) : State := { st with scope := ⟨frame, [[("a", .int 1)]]⟩ }
    evaluate ⟨5, none⟩ (.list [.sym "spinel", bindA, bindB]) st =
        (.ok (.str "MgAl2O4"), after [("a", .elem "Mg"), ("b", .elem "Mg")]) ∧
      evaluate ⟨5, none⟩ (.list [.sym "spinel", bindA, failing]) st =
        (.error (.emptyList "car"), after [("a", .elem "Mg")]) := by
  intro st bindA bindB failing after
  let spinel : StructureType :=
    ⟨"spinel", [(.formal "A", 1), (.formal "B", 2), (.fixed "O", 4)], "MgAl2O4"⟩
  have hspinel : spinel ∈ catalogue := by decide +kernel
  have hcall : ∀ second, evaluate ⟨5, none⟩ (.list [.sym "spinel", bindA, second]) st = _ :=
    fun second => evaluate_structureType hspinel rfl (by decide +kernel) (by decide +kernel)
      (by decide)
  rw [hcall bindB, hcall failing]
  exact ⟨by decide +kernel, rfl⟩

end Formulary
