import Mathlib
import Formulary.Proofs.Evaluation

/-
  Arithmetic of integers is exact, or it overflows.

  An expression is built from integers by sums, differences and products of any
  number of operands. It has a value among all integers (`IntExpr.value`), and it
  fits if the values of all its operations lie in the signed 64-bit range
  (`IntExpr.fits`). What passes through on the way to the value of one operation
  does not count: only results are held against the range.

  So an expression that fits evaluates to its value, and any other ends in an
  overflow (`evaluate_intExpr`). Names are no matter: an operator stands for its
  primitive even where its name is bound.
-/

namespace Formulary

/-! Expressions. -/

/-- An expression of integers. A difference has a first operand. -/
inductive IntExpr where
  | lit (n : Int)
  | sum (operands : List IntExpr)
  | difference (first : IntExpr) (others : List IntExpr)
  | product (operands : List IntExpr)

/-- The first number less the others; alone, its negative. -/
def lessOthers (n : Int) : List Int → Int
  | [] => -n
  | ns => n - ns.sum

namespace IntExpr

mutual

def form : IntExpr → Value
  | lit n => .int n
  | sum es => .list (.sym "+" :: forms es)
  | difference e es => .list (.sym "-" :: form e :: forms es)
  | product es => .list (.sym "*" :: forms es)

def forms : List IntExpr → List Value
  | [] => []
  | e :: es => form e :: forms es

end

mutual

def value : IntExpr → Int
  | lit n => n
  | sum es => (values es).sum
  | difference e es => lessOthers (value e) (values es)
  | product es => (values es).prod

def values : List IntExpr → List Int
  | [] => []
  | e :: es => value e :: values es

end

mutual

/-- Whether the value of every operation in the expression lies in the signed
64-bit range. -/
def fits : IntExpr → Bool
  | lit _ => true
  | sum es => allFit es && inInt64 (sum es).value
  | difference e es => (fits e && allFit es) && inInt64 (difference e es).value
  | product es => allFit es && inInt64 (product es).value

def allFit : List IntExpr → Bool
  | [] => true
  | e :: es => fits e && allFit es

end

end IntExpr

/-! Primitives on integers. -/

theorem checkNumbers_ints (op : String) (ns : List Int) :
    checkNumbers op (ns.map Value.int) = .ok (ns.map Number.int) := by
  induction ns with
  | nil => rfl
  | cons n ns ih =>
    simp only [List.map_cons, checkNumbers, Value.number?, ih]
    rfl

theorem arguments_ints (op : String) (ns : List Int) :
    arguments op (ns.map Value.int) = .ok (.ints ns) := by
  have hints : (ns.map Number.int).mapM Number.int? = some ns := by
    induction ns with
    | nil => rfl
    | cons n ns ih => simp [Number.int?, ih]
  rw [arguments, checkNumbers_ints]
  simp only [operands, hints]

theorem addNumbers_ints (ns : List Int) :
    addNumbers (ns.map Value.int) = checkedInt "+" ns.sum := by
  rw [addNumbers, arguments_ints, List.sum_eq_foldl]

theorem foldl_sub (n : Int) (ns : List Int) : ns.foldl (· - ·) n = n - ns.sum := by
  induction ns generalizing n with
  | nil => simp
  | cons m ns ih =>
    rw [List.foldl_cons, ih, List.sum_cons]
    omega

theorem subNumbers_ints (n : Int) (ns : List Int) :
    subNumbers ((n :: ns).map Value.int) = checkedInt "-" (lessOthers n ns) := by
  rw [subNumbers, arguments_ints]
  cases ns with
  | nil => rfl
  | cons m ns => simp only [lessOthers, foldl_sub]

theorem mulNumbers_ints (ns : List Int) :
    mulNumbers (ns.map Value.int) = checkedInt "*" ns.prod := by
  rw [mulNumbers, arguments_ints, List.prod_eq_foldl]

/-! Evaluating. -/

/-- `m` gives `a` if `ok` holds and overflows if not, and leaves the state as it
was. -/
def GivesOrOverflows {α : Type} (ok : Bool) (a : α) (m : Run α) (st : State) : Prop :=
  (ok = true ∧ m st = (.ok a, st)) ∨
    (ok = false ∧ ∃ op, m st = (.error (.integerOverflow op), st))

namespace GivesOrOverflows

variable {α β : Type} {st : State}

theorem pure' (a : α) : GivesOrOverflows true a (pure a) st := .inl ⟨rfl, rfl⟩

theorem checkedInt' (op : String) (n : Int) :
    GivesOrOverflows (inInt64 n) (.int n) (Run.lift (checkedInt op n)) st := by
  unfold GivesOrOverflows checkedInt
  cases inInt64 n with
  | true => exact .inl ⟨rfl, rfl⟩
  | false => exact .inr ⟨rfl, op, rfl⟩

/-- The first of two computations that overflows is where both end. -/
theorem bind' {ok ok' : Bool} {a : α} {b : β} {m : Run α} {f : α → Run β}
    (hm : GivesOrOverflows ok a m st) (hf : GivesOrOverflows ok' b (f a) st) :
    GivesOrOverflows (ok && ok') b (m >>= f) st := by
  obtain ⟨rfl, hm⟩ | ⟨rfl, op, hm⟩ := hm
  · have hbind : (m >>= f) st = f a st := by rw [Run.bind_apply, hm]
    rw [Bool.true_and, GivesOrOverflows, hbind]
    exact hf
  · exact .inr ⟨rfl, op, by rw [Run.bind_apply, hm]⟩

end GivesOrOverflows

structure Templates.SparesArithmetic (ts : Templates) : Prop where
  add : ts.get? "+" = none
  sub : ts.get? "-" = none
  mul : ts.get? "*" = none

section

variable {bound : Int} {room height : Nat} {expansion : Nat → Value → Run Value} {st : State}

theorem givesOrOverflows_operation {name : String} {p : Primitive} {args : List Value}
    {ns : List Int} {n : Int} {ok : Bool} (hp : Primitive.ofName? name = some p)
    (ht : st.templates.get? name = none)
    (hargs : GivesOrOverflows ok (ns.map Value.int)
      (evalArgs ⟨bound, none⟩ room expansion (height + 2) args) st)
    (happly : p.apply (ns.map Value.int) = checkedInt name n) :
    GivesOrOverflows (ok && inInt64 n) (.int n)
      (evalWith ⟨bound, none⟩ room expansion height (.list (.sym name :: args))) st := by
  have hrun := hargs.bind' (f := fun vs => Run.lift (p.apply vs)) (b := .int n)
    (by rw [happly]; exact .checkedInt' name n)
  have heq := evalWith_application ⟨bound, none⟩ room expansion height args hp ht
  rw [GivesOrOverflows, heq]
  exact hrun

mutual

/-- Evaluating an expression gives its value if it fits, and overflows if not. -/
theorem givesOrOverflows_form (hts : st.templates.SparesArithmetic) :
    ∀ (e : IntExpr) (height : Nat), GivesOrOverflows e.fits (.int e.value)
      (evalWith ⟨bound, none⟩ room expansion height e.form) st
  | .lit n, height => by
    rw [IntExpr.form, evalWith_atom _ _ _ _ (by simp) (by simp)]
    exact .pure' _
  | .sum es, height => by
    rw [IntExpr.form, IntExpr.fits]
    exact givesOrOverflows_operation (p := .add) (by decide) hts.add
      (givesOrOverflows_forms hts es (height + 2)) (addNumbers_ints _)
  | .difference e es, height => by
    -- its first operand is an argument like the others
    have hargs := givesOrOverflows_forms hts (e :: es) (height + 2)
    rw [IntExpr.form, IntExpr.fits]
    exact givesOrOverflows_operation (p := .sub) (by decide) hts.sub hargs (subNumbers_ints _ _)
  | .product es, height => by
    rw [IntExpr.form, IntExpr.fits]
    exact givesOrOverflows_operation (p := .mul) (by decide) hts.mul
      (givesOrOverflows_forms hts es (height + 2)) (mulNumbers_ints _)

theorem givesOrOverflows_forms (hts : st.templates.SparesArithmetic) :
    ∀ (es : List IntExpr) (height : Nat),
      GivesOrOverflows (IntExpr.allFit es) ((IntExpr.values es).map Value.int)
        (evalArgs ⟨bound, none⟩ room expansion height (IntExpr.forms es)) st
  | [], height => by
    rw [IntExpr.forms, evalArgs]
    exact .pure' _
  | e :: es, height => by
    have hfirst := givesOrOverflows_form hts e height
    have hrest := givesOrOverflows_forms hts es height
    rw [IntExpr.forms, evalArgs, IntExpr.allFit]
    have hboth := hrest.bind' (f := fun vs => pure (.int e.value :: vs)) (.pure' _)
    rw [Bool.and_true] at hboth
    exact hfirst.bind' hboth

end

end

/-- Where nesting has no limit, an expression of integers evaluates to its value if
that of every operation in it lies in the signed 64-bit range, and ends in an
overflow otherwise. No name is looked up and nothing changes. -/
theorem evaluate_intExpr (e : IntExpr) (bound : Int) {st : State}
    (hts : st.templates.SparesArithmetic) :
    (e.fits = true → evaluate ⟨bound, none⟩ e.form st = (.ok (.int e.value), st)) ∧
    (e.fits = false → ∃ err, evaluate ⟨bound, none⟩ e.form st = (.error err, st) ∧
      err.kind? = some .overflow) := by
  have hrun : GivesOrOverflows e.fits (.int e.value) (evaluate ⟨bound, none⟩ e.form) st := by
    show GivesOrOverflows _ _ (evalAt ⟨bound, none⟩ (Templates.roomAt bound st.depth) 0 e.form) st
    rw [evalAt_eq]
    exact givesOrOverflows_form hts e 0
  obtain ⟨hfits, hok⟩ | ⟨hfits, op, herror⟩ := hrun
  · exact ⟨fun _ => hok, fun h => by rw [hfits] at h; cases h⟩
  · exact ⟨fun h => (by rw [hfits] at h; cases h), fun _ => ⟨_, herror, rfl⟩⟩

/-- `(* (+ 9223372036854775807 1 -1) -1)` passes the largest integer on its way.
`(+ (- -9223372036854775808) -1)` has a value in the range, and an operand that
has none. Names that are bound and other macros make no difference. -/
theorem evaluate_intExpr_edges :
    let st : State :=
      { scope := .root [("+", .str "sum"), ("-", .sym "*")],
        templates := [("less", ⟨"less", ["x"], .list [.sym "-", .sym "x"]⟩)] }
    let passing : IntExpr :=
      .product [.sum [.lit 9223372036854775807, .lit 1, .lit (-1)], .lit (-1)]
    let beyond : IntExpr := .sum [.difference (.lit (-9223372036854775808)) [], .lit (-1)]
    evaluate ⟨0, none⟩ passing.form st = (.ok (.int (-9223372036854775807)), st) ∧
      inInt64 beyond.value = true ∧
      ∃ err, evaluate ⟨0, none⟩ beyond.form st = (.error err, st) ∧
        err.kind? = some .overflow := by
  intro st passing beyond
  have hts : st.templates.SparesArithmetic := ⟨rfl, rfl, rfl⟩
  exact ⟨(evaluate_intExpr passing 0 hts).1 rfl, rfl, (evaluate_intExpr beyond 0 hts).2 rfl⟩

end Formulary
