import Formulary.Proofs.FloatRange
import Formulary.Proofs.Invariant

/-
  Integers stay in the signed 64-bit range.

  `Value.InRange` says that every integer in a value, at any depth, lies in the
  range. The primitives hand it on (`lawful_primitive`): sums, differences and
  products are checked, and nothing else makes an integer. Since every integer
  of the range has a double, the primitives then fail with errors of the
  language only. So evaluation keeps the range (`keepsValues_evaluate`).
-/

namespace Formulary

namespace Value

mutual

def ints : Value → List Int
  | int n => [n]
  | list items => itemInts items
  | _ => []

def itemInts : List Value → List Int
  | [] => []
  | v :: vs => ints v ++ itemInts vs

end

def InRange (v : Value) : Prop := ∀ n ∈ v.ints, inInt64 n = true

theorem mem_itemInts {n : Int} {vs : List Value} : n ∈ itemInts vs ↔ ∃ v ∈ vs, n ∈ v.ints := by
  induction vs with
  | nil => simp [itemInts]
  | cons v vs ih => simp [itemInts, ih]

theorem inRange_list {items : List Value} : InRange (list items) ↔ ∀ v ∈ items, v.InRange := by
  unfold InRange
  rw [ints]
  constructor
  · intro h v hv n hn
    exact h n (mem_itemInts.2 ⟨v, hv, hn⟩)
  · intro h n hn
    obtain ⟨v, hv, hn⟩ := mem_itemInts.1 hn
    exact h v hv n hn

theorem inRange_int {n : Int} : InRange (int n) ↔ inInt64 n = true := by
  simp [InRange, ints]

theorem inRange_of_ints {v : Value} (h : v.ints = []) : v.InRange := by
  intro n hn
  rw [h] at hn
  cases hn

end Value

/-! Arithmetic. -/

theorem lawful_checkedInt (op : String) (n : Int) : Lawful Value.InRange (checkedInt op n) := by
  unfold checkedInt
  split
  · rename_i h
    exact Value.inRange_int.2 h
  · rfl

theorem lawful_checkedFloat (op : String) (x : Float) :
    Lawful Value.InRange (checkedFloat op x) := by
  unfold checkedFloat
  split
  · rfl
  · exact Value.inRange_of_ints rfl

/-- Numbers whose conversion to a double cannot fail. -/
def Number.InRange : Number → Prop
  | int n => inInt64 n = true
  | float _ => True

theorem lawful_toFloat {n : Number} (h : n.InRange) : Lawful (fun _ => True) n.toFloat := by
  cases n with
  | float x => trivial
  | int n =>
    rw [Number.toFloat, floatOfInt_ok h]
    trivial

theorem lawful_checkNumbers (op : String) {vs : List Value} (hvs : ∀ v ∈ vs, v.InRange) :
    Lawful (fun ns => ∀ n ∈ ns, n.InRange) (checkNumbers op vs) := by
  induction vs with
  | nil => exact fun n hn => nomatch hn
  | cons v vs ih =>
    rw [checkNumbers]
    have hv := hvs v List.mem_cons_self
    split
    · rfl
    · rename_i m hm
      have hm' : m.InRange := by
        cases v with
        | int n => cases hm; exact Value.inRange_int.1 hv
        | float x => cases hm; trivial
        | _ => cases hm
      refine (ih fun w hw => hvs w (List.mem_cons_of_mem _ hw)).map fun ns hns => ?_
      exact List.forall_mem_cons.2 ⟨hm', hns⟩

theorem lawful_operands {ns : List Number} (hns : ∀ n ∈ ns, n.InRange) :
    Lawful (fun _ => True) (operands ns) := by
  unfold operands
  split
  · trivial
  · exact (lawful_mapM fun n hn => lawful_toFloat (hns n hn)).map fun _ _ => trivial

theorem lawful_arguments (op : String) {args : List Value} (hargs : ∀ v ∈ args, v.InRange) :
    Lawful (fun _ => True) (arguments op args) := by
  have hcheck := lawful_checkNumbers op hargs
  unfold arguments
  split
  · rename_i e he
    rwa [he] at hcheck
  · rename_i ns hns
    rw [hns] at hcheck
    exact lawful_operands hcheck

section

variable {args : List Value} (hargs : ∀ v ∈ args, v.InRange)
include hargs

theorem lawful_addNumbers : Lawful Value.InRange (addNumbers args) := by
  have h := lawful_arguments "+" hargs
  unfold addNumbers
  split
  · rename_i e he
    rwa [he] at h
  · exact lawful_checkedInt _ _
  · exact lawful_checkedFloat _ _

theorem lawful_mulNumbers : Lawful Value.InRange (mulNumbers args) := by
  have h := lawful_arguments "*" hargs
  unfold mulNumbers
  split
  · rename_i e he
    rwa [he] at h
  · exact lawful_checkedInt _ _
  · exact lawful_checkedFloat _ _

theorem lawful_subNumbers : Lawful Value.InRange (subNumbers args) := by
  have h := lawful_arguments "-" hargs
  unfold subNumbers
  split
  · rename_i e he
    rwa [he] at h
  · rfl
  · rfl
  · exact lawful_checkedInt _ _
  · exact lawful_checkedInt _ _
  · exact lawful_checkedFloat _ _
  · exact lawful_checkedFloat _ _

theorem lawful_divNumbers : Lawful Value.InRange (divNumbers args) := by
  have hcheck := lawful_checkNumbers "/" hargs
  -- dividing fails at a zero only
  have hdiv : ∀ x ds, Lawful Value.InRange ((divideBy x ds).bind (checkedFloat "/")) := by
    intro x ds
    induction ds generalizing x with
    | nil => exact lawful_checkedFloat "/" x
    | cons d ds ih =>
      rw [divideBy]
      split
      · rfl
      · exact ih _
  unfold divNumbers
  split
  · rename_i e he
    rwa [he] at hcheck
  · rename_i ns hns
    rw [hns] at hcheck
    have hfloats := lawful_mapM fun n hn => lawful_toFloat (hcheck n hn)
    split
    · rename_i e he
      rwa [he] at hfloats
    · rfl
    · exact hdiv _ _
    · exact hdiv _ _

theorem lawful_compare (c : Comparison) : Lawful Value.InRange (c.apply args) := by
  have hcheck := lawful_checkNumbers c.name hargs
  unfold Comparison.apply
  split
  · split
    · rename_i e he
      rwa [he] at hcheck
    · exact Value.inRange_of_ints rfl
  · rfl

/-! Lists and formulas. -/

theorem lawful_takeApart (op : String) : Lawful (fun p : Value × List Value =>
    p.1.InRange ∧ Value.InRange (.list p.2)) (Primitive.takeApart op args) := by
  unfold Primitive.takeApart
  split
  · rename_i v vs
    have hlist := Value.inRange_list.1 (hargs _ List.mem_cons_self)
    exact ⟨hlist v List.mem_cons_self,
      Value.inRange_list.2 fun w hw => hlist w (List.mem_cons_of_mem _ hw)⟩
  · rfl
  · rfl
  · rfl

end

theorem lawful_materialFrom : ∀ (position : Nat) (args : List Value),
    Lawful (fun _ => True) (materialFrom position args)
  | _, [] => trivial
  | _, [_] => trivial
  | position, element :: count :: rest => by
    unfold materialFrom
    split
    · split
      · split
        · rfl
        · exact (lawful_materialFrom (position + 2) rest).map fun _ _ => trivial
      · rfl
    · rfl

theorem lawful_material (args : List Value) : Lawful Value.InRange (material args) := by
  unfold material
  split
  · rfl
  · exact (lawful_materialFrom 1 args).map fun _ _ => Value.inRange_of_ints rfl

theorem lawful_substitute (args : List Value) : Lawful Value.InRange (substitute args) := by
  unfold substitute
  split
  · split
    · split
      · refine Lawful.map (P := fun _ => True) ?_ fun _ _ => Value.inRange_of_ints rfl
        unfold substituteTag
        split
        · trivial
        · rfl
      · rfl
    · rfl
  · rfl

theorem lawful_formulaTexts (args : List Value) : Lawful (fun _ => True) (formulaTexts args) := by
  fun_induction formulaTexts args with
  | case1 => trivial
  | case2 s vs ih => exact ih.map fun _ _ => trivial
  | case3 => rfl

theorem lawful_combine (args : List Value) : Lawful Value.InRange (combine args) := by
  unfold combine
  split
  · rfl
  · exact (lawful_formulaTexts args).map fun _ _ => Value.inRange_of_ints rfl

/-- The primitives make no integers beyond the range, and fail with errors of
the language only. -/
theorem lawful_primitive (op : Primitive) (args : List Value) (hargs : ∀ v ∈ args, v.InRange) :
    Lawful Value.InRange (op.apply args) := by
  cases op with
  | add => exact lawful_addNumbers hargs
  | sub => exact lawful_subNumbers hargs
  | mul => exact lawful_mulNumbers hargs
  | div => exact lawful_divNumbers hargs
  | compare c => exact lawful_compare hargs c
  | list => exact Value.inRange_list.2 hargs
  | first => exact (lawful_takeApart hargs "car").map fun _ hp => hp.1
  | rest => exact (lawful_takeApart hargs "cdr").map fun _ hp => hp.2
  | material => exact lawful_material args
  | substitute => exact lawful_substitute args
  | combine => exact lawful_combine args

theorem hereditary_inRange : Hereditary Value.InRange where
  list := fun _ => Value.inRange_list
  sym := fun _ => Value.inRange_of_ints rfl
  nil := Value.inRange_of_ints rfl

/-- From integers in the range evaluation comes to integers in the range, and to
errors of the language only. -/
theorem keepsValues_evaluate (lim : Limits) {form : Value} (hform : form.InRange) :
    KeepsValues Value.InRange Value.InRange (evaluate lim form) := fun st hst =>
  (keeping_keepsValues lawful_primitive).evalAt hereditary_inRange lim _ 0 hform st hst

end Formulary
