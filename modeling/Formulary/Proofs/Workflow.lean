import Formulary.Proofs.ExpandFirst
import Formulary.Proofs.WorkflowText
import Formulary.Session.Basic

/-
  A workflow's program computes what its steps say.

  The steps are taken here on a formula that is not set at first: a
  specification sets it, a substitution and a combination change it
  (`WorkflowStep.take`, `Workflow.outcome`). Evaluating the call of a step in a
  session gives what taking the step gives (`evalWith_call`), and so evaluating
  the program gives the outcome of all steps, be it the last formula or the
  first error (`eval_program`).
-/

namespace Formulary

open Text

/-! What steps mean. -/

/-- The sites of a structure with the tags of elements on the open ones, in
order. -/
def fillSites : List (Site × Nat) → List String → List (String × Nat)
  | (.fixed tag, n) :: sites, tags => (tag, n) :: fillSites sites tags
  | (.formal _, n) :: sites, tag :: tags => (tag, n) :: fillSites sites tags
  | _, _ => []

/-- Tags with their counts, side by side. -/
def formulaOf (parts : List (String × Nat)) : String :=
  String.join (parts.map fun p => partText p.1 p.2)

/-- The formula of a specification: that of its structure type with the first
elements on the open sites, or the elements side by side when the type is
unknown or they do not suffice. -/
def MaterialSpec.formula (s : MaterialSpec) : String :=
  match structureType? s.structureType with
  | none => String.join s.elements
  | some t =>
    if t.arity ≤ s.elements.length then formulaOf (fillSites t.sites (s.elements.take t.arity))
    else String.join s.elements

/-- What a step makes of the formula, which may not be set. -/
def WorkflowStep.take (formula? : Option String) : WorkflowStep → Except RunError String
  | .generate spec => .ok spec.formula
  | .substitute old new =>
    match formula? with
    | none => .error (.unbound "result")
    | some f => substituteTag f (withoutColons old) (withoutColons new)
  | .combine other =>
    match formula? with
    | none => .error (.unbound "result")
    | some f => .ok (f ++ other)

/-- The last formula of the steps, or their first error. -/
def Workflow.outcome : Option String → Workflow → Except RunError String
  | none, [] => .error (.unbound "result")
  | some f, [] => .ok f
  | formula?, step :: steps =>
    match step.take formula? with
    | .error e => .error e
    | .ok f => outcome (some f) steps

/-! Primitives on what steps are written as. -/

theorem materialFrom_partForms : ∀ (parts : List (String × Nat)) (position : Nat),
    (∀ p ∈ parts, 0 < p.2) → materialFrom position (partForms parts) = .ok (formulaOf parts)
  | [], _, _ => rfl
  | (tag, n) :: parts, position, h => by
    have hn : ¬ (n : Int) < 1 := by
      have := h (tag, n) List.mem_cons_self
      omega
    have hrest := materialFrom_partForms parts (position + 2)
      fun p hp => h p (List.mem_cons_of_mem _ hp)
    have hcons : partForms ((tag, n) :: parts) = .elem tag :: .int n :: partForms parts := rfl
    rw [hcons, materialFrom, if_neg hn, hrest]
    simp [Except.map, formulaOf]

theorem material_partForms {parts : List (String × Nat)} (h : ∀ p ∈ parts, 0 < p.2) :
    material (partForms parts) = .ok (.str (formulaOf parts)) := by
  have hlen : (partForms parts).length % 2 = 0 := by
    simp [partForms, List.length_flatMap]
  rw [material, if_neg (by omega), materialFrom_partForms parts 1 h]
  rfl

theorem formulaOf_ones (es : List String) :
    formulaOf (es.map fun e => (e, 1)) = String.join es := by
  have hpart : ∀ e : String, partText e 1 = e := fun e => if_pos rfl
  simp [formulaOf, Function.comp_def, hpart]

/-! Structure types as macros. -/

theorem catalogue_sites : ∀ t ∈ catalogue, t.formals.Nodup ∧ "material" ∉ t.formals ∧
    (∀ p ∈ t.sites, 0 < p.2) ∧ SpecialForm.ofName? t.name = none := by
  decide +kernel

theorem get?_templates (types : List StructureType) (name : String) :
    Bindings.get? name (types.map fun t => (t.name, t.template)) =
      (types.find? fun t => t.name = name).map StructureType.template := by
  induction types with
  | nil => rfl
  | cons t types ih =>
    rw [List.map_cons, Bindings.get?_cons, ih]
    by_cases ht : t.name = name <;> simp [ht]

theorem get?_zip {name : String} {v : Value} : ∀ {names : List String} {vs : List Value},
    names.Nodup → (name, v) ∈ names.zip vs → Bindings.get? name (names.zip vs) = some v
  | [], _, _, h => by cases h
  | _ :: _, [], _, h => by cases h
  | n :: names, w :: vs, hnodup, h => by
    rw [List.zip_cons_cons] at h ⊢
    rw [Bindings.get?_cons]
    obtain ⟨hn, hnodup⟩ := List.nodup_cons.1 hnodup
    rcases List.mem_cons.1 h with h | h
    · cases h
      exact if_pos rfl
    · have hne : n ≠ name := by
        rintro rfl
        exact hn (List.of_mem_zip h).1
      rw [if_neg hne]
      exact get?_zip hnodup h

theorem mem_fillSites {sites : List (Site × Nat)} {tags : List String} {p : String × Nat}
    (h : p ∈ fillSites sites tags) : ∃ site, (site, p.2) ∈ sites := by
  fun_induction fillSites sites tags with
  | case1 tag n sites tags ih =>
    rcases List.mem_cons.1 h with rfl | h
    · exact ⟨_, List.mem_cons_self⟩
    · obtain ⟨site, hsite⟩ := ih h
      exact ⟨site, List.mem_cons_of_mem _ hsite⟩
  | case2 name n sites tag tags ih =>
    rcases List.mem_cons.1 h with rfl | h
    · exact ⟨_, List.mem_cons_self⟩
    · obtain ⟨site, hsite⟩ := ih h
      exact ⟨site, List.mem_cons_of_mem _ hsite⟩
  | case3 => cases h

theorem substAll_sites {b : Bindings Value} : ∀ (sites : List (Site × Nat)) (tags : List String),
    (sites.filterMap fun p => p.1.formal?).length = tags.length →
    (∀ p ∈ (sites.filterMap fun p => p.1.formal?).zip (tags.map Value.elem),
      b.get? p.1 = some p.2) →
    Value.substAll b (sites.flatMap fun p => [p.1.form, .int p.2]) =
      partForms (fillSites sites tags)
  | [], _, _, _ => rfl
  | (.fixed tag, n) :: sites, tags, hlen, hb => by
    have hrest := substAll_sites sites tags hlen hb
    simp only [List.flatMap_cons, List.cons_append, List.nil_append, Value.substAll, hrest]
    rfl
  | (.formal name, n) :: sites, [], hlen, hb => by
    simp [Site.formal?] at hlen
  | (.formal name, n) :: sites, tag :: tags, hlen, hb => by
    have hform : (Site.formal name).form = .sym name := rfl
    have hformal : (Site.formal name).formal? = some name := rfl
    simp only [List.filterMap_cons, hformal, List.length_cons, Nat.add_right_cancel_iff,
      List.map_cons, List.zip_cons_cons, List.forall_mem_cons] at hlen hb
    have hrest := substAll_sites sites tags hlen hb.2
    simp only [List.flatMap_cons, List.cons_append, List.nil_append, Value.substAll, hrest,
      hform, Value.subst, hb.1]
    rfl

/-- A call of a structure type's macro stands for the call that builds the
formula. -/
theorem apply_template {t : StructureType} (ht : t ∈ catalogue) {tags : List String}
    (hlen : tags.length = t.arity) :
    t.template.apply (tags.map Value.elem) =
      .ok (.list (.sym "material" :: partForms (fillSites t.sites tags))) := by
  obtain ⟨hnodup, hmaterial, -, -⟩ := catalogue_sites t ht
  have hargs : (tags.map Value.elem).length = t.template.arity := by
    rw [List.length_map, hlen]
    rfl
  have hsites := substAll_sites (b := t.formals.zip (tags.map Value.elem)) t.sites tags hlen.symm
    fun p hp => get?_zip hnodup hp
  rw [Template.apply, if_pos hargs]
  simp only [StructureType.template, StructureType.body, Value.subst, Value.substAll, hsites,
    get?_zip_of_notMem _ hmaterial, Option.getD_none]

/-! Evaluating calls. -/

/-- Whether a form is its own value wherever it stands. -/
def Value.isConstant : Value → Bool
  | .sym _ | .list (_ :: _) => false
  | _ => true

theorem within_of_le {α : Type} {lim : Limits} {n height : Nat} (hn : lim.nesting = some n)
    (h : height ≤ n) (m : Run α) : Run.within lim height m = m := by
  simp [Run.within, hn, Nat.not_lt.2 h]

section

variable {lim : Limits} {room height n : Nat} {expansion : Nat → Value → Run Value} {st : State}

theorem evalWith_primitive {name : String} {p : Primitive} (args : List Value)
    (hn : lim.nesting = some n) (hheight : height ≤ n) (hp : Primitive.ofName? name = some p)
    (ht : st.templates.get? name = none) :
    evalWith lim room expansion height (.list (.sym name :: args)) st =
      (evalArgs lim room expansion (height + 2) args >>= fun vs => Run.lift (p.apply vs)) st := by
  rw [evalWith_application _ _ _ _ args hp ht, within_of_le hn hheight]

theorem evalArgs_cons (v : Value) (vs : List Value) :
    evalArgs lim room expansion height (v :: vs) = (do
      let a ← evalWith lim room expansion height v
      let as ← evalArgs lim room expansion height vs
      pure (a :: as)) := by
  rw [evalArgs]

theorem evalWith_constant {v : Value} (h : v.isConstant = true) :
    evalWith lim room expansion height v = pure v := by
  apply evalWith_atom
  · rintro name rfl
    cases h
  · rintro head tail rfl
    cases h

theorem evalArgs_constants : ∀ {vs : List Value}, (∀ v ∈ vs, v.isConstant = true) →
    evalArgs lim room expansion height vs = pure vs
  | [], _ => by rw [evalArgs]
  | v :: vs, h => by
    rw [evalArgs_cons, evalWith_constant (h v List.mem_cons_self),
      evalArgs_constants fun w hw => h w (List.mem_cons_of_mem v hw)]
    rfl

theorem evalWith_material {parts : List (String × Nat)} (hparts : ∀ p ∈ parts, 0 < p.2)
    (hn : lim.nesting = some n) (hheight : height ≤ n)
    (ht : st.templates = catalogueTemplates) :
    evalWith lim room expansion height (.list (.sym "material" :: partForms parts)) st =
      (.ok (.str (formulaOf parts)), st) := by
  have hconstants : ∀ v ∈ partForms parts, v.isConstant = true := by
    intro v hv
    obtain ⟨p, -, hv⟩ := List.mem_flatMap.1 hv
    simp only [List.mem_cons, List.not_mem_nil, or_false] at hv
    rcases hv with rfl | rfl <;> rfl
  rw [evalWith_primitive (p := .material) _ hn hheight (by decide) (by rw [ht]; decide +kernel),
    evalArgs_constants hconstants]
  show (Primitive.apply .material (partForms parts), st) = _
  rw [Primitive.apply, material_partForms hparts]

theorem evalWith_structure {t : StructureType} (htype : structureType? t.name = some t)
    {tags : List String} (hlen : tags.length = t.arity) (hn : lim.nesting = some n)
    (hheight : height + 1 ≤ n) (ht : st.templates = catalogueTemplates) :
    evalWith lim (room + 1) (expansionAt lim (room + 1)) height
        (.list (.sym t.name :: tags.map Value.elem)) st =
      (.ok (.str (formulaOf (fillSites t.sites tags))), st) := by
  have hmem := List.mem_of_find?_eq_some htype
  obtain ⟨-, -, hcounts, hform⟩ := catalogue_sites t hmem
  have hhead : SpecialForm.ofHead? (.sym t.name) = none := hform
  have hmacro : st.templates.named? (.sym t.name) = some t.template := by
    rw [ht]
    exact (get?_templates catalogue t.name).trans (congrArg _ htype)
  have hparts : ∀ p ∈ fillSites t.sites tags, 0 < p.2 := by
    intro p hp
    obtain ⟨site, hsite⟩ := mem_fillSites hp
    exact hcounts _ hsite
  -- the expansion runs one level deeper and leaves the state as it was
  have hbody : evalAt lim room (height + 1)
      (.list (.sym "material" :: partForms (fillSites t.sites tags)))
        { st with depth := st.depth + 1 } =
      (.ok (.str (formulaOf (fillSites t.sites tags))), { st with depth := st.depth + 1 }) := by
    rw [evalAt_eq]
    exact evalWith_material hparts hn hheight ht
  rw [evalWith_apply _ _ _ _ _ hhead, within_of_le hn (by omega), evalApply_call _ _ _ _ _ hmacro,
    apply_template hmem hlen]
  show Run.nested (evalAt lim room (height + 1) _) st = _
  rw [Run.nested, hbody]
  rfl

/-- Where the formula of a workflow stands in a state. -/
structure Holds (st : State) (formula? : Option String) : Prop where
  templates : st.templates = catalogueTemplates
  bound : st.scope.lookup "result" = formula?.map Value.str

def formulaValue : Option String → Except RunError Value
  | some f => .ok (.str f)
  | none => .error (.unbound "result")

theorem resolve_result {formula? : Option String} (h : Holds st formula?) :
    resolve "result" st = (formulaValue formula?, st) := by
  simp only [resolve, Run.bind_apply, Run.read_apply, h.bound]
  cases formula? with
  | some f => rfl
  | none => rfl

theorem evalArgs_result {formula? : Option String} (h : Holds st formula?) {vs : List Value}
    (hvs : ∀ v ∈ vs, v.isConstant = true) :
    evalArgs lim room expansion height (.sym "result" :: vs) st =
      ((formulaValue formula?).map fun f => f :: vs, st) := by
  rw [evalArgs_cons, evalWith_sym, evalArgs_constants hvs, Run.bind_apply, resolve_result h]
  cases formula? <;> rfl

theorem evalWith_spec (spec : MaterialSpec) (hn : lim.nesting = some n) (hheight : height + 1 ≤ n)
    (ht : st.templates = catalogueTemplates) :
    evalWith lim (room + 1) (expansionAt lim (room + 1)) height spec.call st =
      (.ok (.str spec.formula), st) := by
  have hgeneric : evalWith lim (room + 1) (expansionAt lim (room + 1)) height
      (.list (.sym "material" :: partForms (spec.elements.map fun e => (e, 1)))) st =
        (.ok (.str (String.join spec.elements)), st) := by
    rw [evalWith_material (by simp) hn (by omega) ht, formulaOf_ones]
  unfold MaterialSpec.call MaterialSpec.formula
  cases htype : structureType? spec.structureType with
  | none => exact hgeneric
  | some t =>
    have hname : t.name = spec.structureType := by simpa using List.find?_some htype
    by_cases hlen : t.arity ≤ spec.elements.length
    · simp only [hlen, if_true]
      exact evalWith_structure (hname ▸ htype) (by simp [hlen]) hn hheight ht
    · simp only [hlen, if_false]
      exact hgeneric

theorem evalWith_call (room : Nat) {formula? : Option String} (step : WorkflowStep)
    (h : Holds st formula?) (hn : lim.nesting = some n) (hheight : height + 1 ≤ n) :
    evalWith lim (room + 1) (expansionAt lim (room + 1)) height step.call st =
      ((step.take formula?).map Value.str, st) := by
  cases step with
  | generate spec => exact evalWith_spec spec hn hheight h.templates
  | substitute old new =>
    rw [WorkflowStep.call, evalWith_primitive (p := .substitute) _ hn (by omega) (by decide)
      (by rw [h.templates]; decide +kernel), Run.bind_apply,
      evalArgs_result h (by simp [Value.isConstant])]
    cases formula? <;> rfl
  | combine other =>
    rw [WorkflowStep.call, evalWith_primitive (p := .combine) _ hn (by omega) (by decide)
      (by rw [h.templates]; decide +kernel), Run.bind_apply,
      evalArgs_result h (by simp [Value.isConstant])]
    cases formula? with
    | none => rfl
    | some f =>
      have hjoin : String.join [f, other] = f ++ other := by simp
      show (Except.ok (Value.str (String.join [f, other])), st) = _
      rw [hjoin]
      rfl

theorem evalWith_definition (room height : Nat) {formula? : Option String} (step : WorkflowStep)
    (h : Holds st formula?) (hn : lim.nesting = some n) (hheight : height + 3 ≤ n) :
    evalWith lim (room + 1) (expansionAt lim (room + 1)) height step.definition st =
      match step.take formula? with
      | .error e => (.error e, st)
      | .ok f => (.ok (.str f), { st with scope := st.scope.define "result" (.str f) }) := by
  have hcall := evalWith_call room step h hn hheight
  have hdefine : SpecialForm.ofHead? (.sym "define") = some .define := by decide
  rw [WorkflowStep.definition, evalWith_special _ _ _ _ _ hdefine, within_of_le hn (by omega),
    evalSpecial, evalDefine, Run.bind_apply, hcall]
  cases step.take formula? <;> rfl

theorem Holds.define {f : String} {formula? : Option String} (h : Holds st formula?) :
    Holds { st with scope := st.scope.define "result" (.str f) } (some f) := by
  refine ⟨h.templates, ?_⟩
  rw [Scope.lookup_define, if_pos rfl]
  rfl

/-- Evaluating the definitions and then the formula gives the outcome of the
steps. -/
theorem evalBody_steps (hn : lim.nesting = some n) (hheight : height + 5 ≤ n) :
    ∀ (w : Workflow) {formula? : Option String} {st : State} (last : Value), Holds st formula? →
      (evalBody lim (room + 1) (expansionAt lim (room + 1)) height last
        (w.map WorkflowStep.definition ++ [.sym "result"]) st).1 =
        (w.outcome formula?).map Value.str
  | [], formula?, st, last, h => by
    rw [List.map_nil, List.nil_append, evalBody, evalWith_sym, Run.bind_apply, resolve_result h]
    cases formula? with
    | none => rfl
    | some f =>
      rw [Workflow.outcome]
      simp only [formulaValue, evalBody]
      rfl
  | step :: w, formula?, st, last, h => by
    have hstep := evalWith_definition room (height + 2) step h hn hheight
    rw [List.map_cons, List.cons_append, evalBody, Run.bind_apply, hstep, Workflow.outcome]
    cases step.take formula? with
    | error e => rfl
    | ok f => exact evalBody_steps hn hheight w (.str f) h.define

end

/-- The block of a workflow evaluates to the outcome of its steps. -/
theorem evaluate_block (w : Workflow) {bound : Int} (hbound : 0 < bound) :
    (evaluate ⟨bound, some evalNesting⟩ w.block State.initial).1 =
      (w.outcome none).map Value.str := by
  have hinitial : Holds State.initial none := ⟨rfl, rfl⟩
  have hbegin : SpecialForm.ofHead? (.sym "begin") = some .begin := by decide
  obtain ⟨room, hroom⟩ : ∃ room, Templates.roomAt bound State.initial.depth = room + 1 := by
    refine ⟨bound.toNat - 1, ?_⟩
    simp only [Templates.roomAt, State.initial]
    omega
  rw [evaluate, hroom, evalAt_eq, Workflow.block, evalWith_special _ _ _ _ _ hbegin,
    within_of_le rfl (Nat.zero_le _)]
  exact evalBody_steps rfl (by decide) w .nil hinitial

theorem eval_of_readAll {s : Session} {code : String} {form : Value}
    (h : readAllWithin (some readNesting) code = .ok [form]) :
    (s.eval code).1 = (evaluate s.limits form s.state).1.mapError Error.running := by
  simp only [Session.eval, Session.evalWith, runProgram, h, commitAll, commit, Evaluator.standard]
  rcases evaluate s.limits form s.state with ⟨e | v, st⟩
  · cases he : e.kind?.isSome <;> simp [he, Except.mapError]
  · rfl

/-- The program of a workflow is read as one form, and a new session makes of it
what the steps make of a formula that is not set. -/
theorem eval_program (w : Workflow) (hw : ∀ step ∈ w, step.isProper = true) (bound : Int)
    (hbound : 0 < bound) :
    readAll w.program = .ok [w.block] ∧
      ((Session.new bound).eval w.program).1 =
        ((w.outcome none).map Value.str).mapError Error.running := by
  have hread := readAll_program hw
  have hwithin : readAllWithin (some readNesting) w.program = .ok [w.block] := by
    refine readAllWithin_some_eq_ok.2 ⟨hread, ?_⟩
    simp only [List.mem_singleton, forall_eq]
    exact Nat.le_trans (nesting_block_le w) (by decide)
  refine ⟨hread, ?_⟩
  rw [eval_of_readAll hwithin, Session.new, evaluate_block w hbound]

/-- A structure type with an element too many, a colon before a name, and a text
of nothing but delimiters. -/
theorem eval_program_combined :
    ((Session.new 200).eval (Workflow.program
      [.generate { structureType := "perovskite", elements := ["Ba", "Ti", "O", "H"] },
        .substitute ":Ba" "Sr", .combine "\")\\\n(("])).1 = .ok (.str "SrTiO3\")\\\n((") := by
  rw [(eval_program _ (by decide +kernel) 200 (by decide)).2]
  decide +kernel

end Formulary
