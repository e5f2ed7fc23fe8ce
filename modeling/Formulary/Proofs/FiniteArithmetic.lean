import Formulary.Proofs.FloatRange
import Formulary.Proofs.FullExpansion
import Formulary.Proofs.IntRange
import Formulary.Proofs.RoundTrip

/-
  Doubles that stay finite.

  A sum, a difference or a product of finite doubles is finite or infinite, and
  so is a quotient by one that is not zero. What comes after an infinite result
  keeps it infinite (`Carries`), so the infinity is still there when the result
  of the whole operation is checked. There is one exception: a product that is
  infinite so far and then meets a zero is no number at all, and passes the check
  (`losesOverflow`). `finite_apply` says that the primitives make nothing but
  finite doubles out of finite doubles otherwise.
-/

namespace Formulary

open Float.Model Float.Model.UnpackedFloat

/-! Rounding and packing never make what is not a number. -/

theorem isNaN_unpack_packComponents {k : Nat} (hk : k < 2047) (s : Sign) (m : BitVec 52) :
    (unpack Format.binary64
      (packComponents Format.binary64 s (BitVec.ofNat 11 k) m)).isNaN = false := by
  have hfits : FitsIn 53 k (unpack Format.binary64
      (packComponents Format.binary64 s (BitVec.ofNat 11 k) m)) :=
    fitsIn_unpack hk (by omega) (by omega) s m
  match unpack Format.binary64 (packComponents Format.binary64 s (BitVec.ofNat 11 k) m), hfits with
  | .zero _, _ | .finite .., _ => rfl

theorem isNaN_unpack_pack (u : UnpackedFloat) :
    (unpack Format.binary64 (pack Format.binary64 u)).isNaN = u.isNaN := by
  match u with
  | .notANumber => rfl
  | .infinity .positive | .infinity .negative => rfl
  | .zero s => exact isNaN_unpack_packComponents (k := 0) (by decide) s 0
  | .finite s m e hm =>
    -- too large an exponent makes an infinity
    simp only [UnpackedFloat.pack]
    split
    · cases s <;> rfl
    · split
      · refine isNaN_unpack_packComponents ?_ s _
        omega
      · exact isNaN_unpack_packComponents (k := 0) (by decide) s _

theorem isInf_unpack_pack {u : UnpackedFloat} (h : u.isInf = true) :
    (unpack Format.binary64 (pack Format.binary64 u)).isInf = true := by
  match u with
  | .infinity .positive | .infinity .negative => rfl

theorem isNaN_roundWithAccuracy (s : Sign) (m : Nat) (e : Int) (a : Accuracy) :
    (roundWithAccuracy Format.binary64 s m e a).isNaN = false := by
  unfold roundWithAccuracy
  dsimp only
  split <;> rfl

theorem isNaN_normalize (m e : Int) (s : Sign) :
    (UnpackedFloat.normalize Format.binary64 m e s).isNaN = false := by
  unfold UnpackedFloat.normalize
  split
  · exact isNaN_roundWithAccuracy _ _ _ _
  · rfl
  · exact isNaN_roundWithAccuracy _ _ _ _

/-! Kinds of doubles. -/

theorem isFinite_of_not {x : Float} (hnan : x.isNaN = false) (hinf : x.isInf = false) :
    x.isFinite = true := by
  change x.toModel.unpack.isNaN = false at hnan
  change x.toModel.unpack.isInf = false at hinf
  show x.toModel.unpack.isFinite = true
  match x.toModel.unpack, hnan, hinf with
  | .zero _, _, _ | .finite .., _, _ => rfl

theorem isNaN_of_isInf {x : Float} (h : x.isInf = true) : x.isNaN = false := by
  change x.toModel.unpack.isInf = true at h
  show x.toModel.unpack.isNaN = false
  match x.toModel.unpack, h with
  | .infinity _, _ => rfl

theorem beq_zero_iff {x : Float} : (x == 0) = true ↔ ∃ s, x.toModel.unpack = .zero s := by
  have hzero : (0 : Float).toModel.unpack = .zero .positive := rfl
  show UnpackedFloat.beq x.toModel.unpack (0 : Float).toModel.unpack = true ↔ _
  rw [hzero]
  match x.toModel.unpack with
  | .zero s => exact ⟨fun _ => ⟨s, rfl⟩, fun _ => rfl⟩
  | .notANumber | .infinity .positive | .infinity .negative
  | .finite .positive .. | .finite .negative .. =>
    exact ⟨fun h => (nomatch h), fun ⟨_, h⟩ => (nomatch h)⟩

theorem unpack_of_ne_zero {x : Float} (hx : x.isFinite = true) (h : (x == 0) = false) :
    ∃ s m e hm, x.toModel.unpack = .finite s m e hm := by
  change x.toModel.unpack.isFinite = true at hx
  have hzero : ∀ s, x.toModel.unpack ≠ .zero s := by
    intro s hs
    rw [beq_zero_iff.2 ⟨s, hs⟩] at h
    cases h
  match x.toModel.unpack, hx, hzero with
  | .zero s, _, hzero => exact absurd rfl (hzero s)
  | .finite s m e hm, _, _ => exact ⟨s, m, e, hm, rfl⟩

/-! One operation. -/

/-- With `y` as its operand, the operation takes a finite double to a finite or an
infinite one, and leaves an infinite one infinite. -/
structure Carries (f : Float → Float → Float) (y : Float) : Prop where
  finite : ∀ {x : Float}, x.isFinite = true → (f x y).isNaN = false
  infinite : ∀ {x : Float}, x.isInf = true → (f x y).isInf = true

theorem carries_of_unpack {f : Float → Float → Float}
    {g : UnpackedFloat → UnpackedFloat → UnpackedFloat} {y : Float}
    (hf : ∀ x, (f x y).toModel.unpack =
      unpack Format.binary64 (pack Format.binary64 (g x.toModel.unpack y.toModel.unpack)))
    (hfinite : ∀ u, u.isFinite = true → (g u y.toModel.unpack).isNaN = false)
    (hinf : ∀ u, u.isInf = true → (g u y.toModel.unpack).isInf = true) : Carries f y where
  finite := by
    intro x hx
    show (f x y).toModel.unpack.isNaN = false
    rw [hf, isNaN_unpack_pack]
    exact hfinite _ hx
  infinite := by
    intro x hx
    show (f x y).toModel.unpack.isInf = true
    rw [hf]
    exact isInf_unpack_pack (hinf _ hx)

section

variable {y : Float} (hy : y.isFinite = true)
include hy

theorem carries_add : Carries (· + ·) y := by
  change y.toModel.unpack.isFinite = true at hy
  refine carries_of_unpack (g := UnpackedFloat.add Format.binary64) (fun _ => rfl) ?_ ?_
  · intro u hu
    match u, y.toModel.unpack, hu, hy with
    | .zero s, .zero t, _, _ => cases s <;> cases t <;> rfl
    | .zero _, .finite .., _, _ | .finite .., .zero _, _, _ => rfl
    | .finite .., .finite .., _, _ => exact isNaN_normalize _ _ _
  · intro u hu
    match u, y.toModel.unpack, hu, hy with
    | .infinity _, .zero _, _, _ | .infinity _, .finite .., _, _ => rfl

theorem carries_sub : Carries (· - ·) y := by
  change y.toModel.unpack.isFinite = true at hy
  refine carries_of_unpack (g := UnpackedFloat.sub Format.binary64) (fun _ => rfl) ?_ ?_
  · intro u hu
    match u, y.toModel.unpack, hu, hy with
    | .zero s, .zero t, _, _ => cases s <;> cases t <;> rfl
    | .zero _, .finite .., _, _ | .finite .., .zero _, _, _ => rfl
    | .finite .., .finite .., _, _ => exact isNaN_normalize _ _ _
  · intro u hu
    match u, y.toModel.unpack, hu, hy with
    | .infinity _, .zero _, _, _ | .infinity _, .finite .., _, _ => rfl

theorem isNaN_mul {x : Float} (hx : x.isFinite = true) : (x * y).isNaN = false := by
  change x.toModel.unpack.isFinite = true at hx
  change y.toModel.unpack.isFinite = true at hy
  show (unpack Format.binary64 (pack Format.binary64
    (mul Format.binary64 x.toModel.unpack y.toModel.unpack))).isNaN = false
  rw [isNaN_unpack_pack]
  match x.toModel.unpack, y.toModel.unpack, hx, hy with
  | .zero _, .zero _, _, _ | .zero _, .finite .., _, _ | .finite .., .zero _, _, _ => rfl
  | .finite .., .finite .., _, _ => exact isNaN_roundWithAccuracy _ _ _ _

variable (hzero : (y == 0) = false)
include hzero

theorem carries_mul : Carries (· * ·) y := by
  refine ⟨isNaN_mul hy, ?_⟩
  obtain ⟨s, m, e, hm, hy'⟩ := unpack_of_ne_zero hy hzero
  intro x hx
  change x.toModel.unpack.isInf = true at hx
  refine isInf_unpack_pack ?_
  rw [hy']
  match x.toModel.unpack, hx with
  | .infinity _, _ => rfl

theorem carries_div : Carries (· / ·) y := by
  obtain ⟨s, m, e, hm, hy'⟩ := unpack_of_ne_zero hy hzero
  refine carries_of_unpack (g := UnpackedFloat.div Format.binary64) (fun _ => rfl) ?_ ?_
  · intro u hu
    rw [hy']
    match u, hu with
    | .zero _, _ => rfl
    | .finite .., _ => exact isNaN_roundWithAccuracy _ _ _ _
  · intro u hu
    rw [hy']
    match u, hu with
    | .infinity _, _ => rfl

end

theorem isNaN_neg (x : Float) : (-x).isNaN = x.isNaN := by
  show (unpack Format.binary64 (pack Format.binary64 x.toModel.unpack.neg)).isNaN =
    x.toModel.unpack.isNaN
  rw [isNaN_unpack_pack]
  cases x.toModel.unpack <;> rfl

/-- What is no number stays so, and an infinity times a zero is no number. -/
theorem isNaN_mul_of_lost {x y : Float}
    (h : x.isNaN = true ∨ x.isInf = true ∧ (y == 0) = true) : (x * y).isNaN = true := by
  show (unpack Format.binary64 (pack Format.binary64
    (mul Format.binary64 x.toModel.unpack y.toModel.unpack))).isNaN = true
  rw [isNaN_unpack_pack]
  rcases h with hx | ⟨hx, hy⟩
  · change x.toModel.unpack.isNaN = true at hx
    match x.toModel.unpack, hx with
    | .notANumber, _ => cases y.toModel.unpack <;> rfl
  · change x.toModel.unpack.isInf = true at hx
    obtain ⟨s, hy⟩ := beq_zero_iff.1 hy
    rw [hy]
    match x.toModel.unpack, hx with
    | .infinity _, _ => rfl

/-! Decimals and integers. -/

/-- The powers of ten that decimals are made with. -/
theorem powersOfTen_finite (e : Fin 23) :
    (Float.exactlyRepresentablePowersOfTen[e.val]).isFinite = true ∧
      (Float.exactlyRepresentablePowersOfTen[e.val] == 0) = false := by
  revert e
  decide +kernel

theorem isFinite_toFloat (n : UInt64) : n.toFloat.isFinite = true := by
  show n.toFloat.toModel.unpack.isFinite = true
  match n.toFloat.toModel.unpack, fitsIn_toFloat n with
  | .zero _, _ | .finite .., _ => rfl

theorem isNaN_ofScientific (m : Nat) (s : Bool) (e : Nat) :
    (Float.ofScientific m s e).isNaN = false := by
  unfold Float.ofScientific
  split
  · rename_i hsmall
    obtain ⟨hten, hzero⟩ := powersOfTen_finite ⟨e, Nat.lt_succ_of_le hsmall.2⟩
    cases s with
    | true => exact (carries_div hten hzero).finite (isFinite_toFloat _)
    | false => exact isNaN_mul hten (isFinite_toFloat _)
  · generalize (if s = true then Int.negOfNat e else Int.ofNat e) = k
    show (unpack Format.binary64 (pack Format.binary64
      (UnpackedFloat.ofScientific Format.binary64 m k))).isNaN = false
    rw [isNaN_unpack_pack]
    unfold UnpackedFloat.ofScientific
    split
    · rfl
    · split
      · rfl
      · split
        · rfl
        · split
          · exact isNaN_roundWithAccuracy _ _ _ _
          · exact isNaN_roundWithAccuracy _ _ _ _

theorem isNaN_ofInt (n : Int) : (Float.ofInt n).isNaN = false := by
  cases n with
  | ofNat m => exact isNaN_ofScientific m false 0
  | negSucc m =>
    show (-Float.ofNat (m + 1)).isNaN = false
    rw [isNaN_neg]
    exact isNaN_ofScientific (m + 1) false 0

/-! Operations in a row. -/

/-- Along the operands a result stays a number, and infinite once it is. -/
def CarriesOn (f : Float → Float → Float) : Float → List Float → Prop
  | _, [] => True
  | x, y :: ys => (x.isFinite = true → (f x y).isNaN = false) ∧
      (x.isInf = true → (f x y).isInf = true) ∧ CarriesOn f (f x y) ys

theorem carriesOn_of_forall {f : Float → Float → Float} {ys : List Float}
    (hys : ∀ y ∈ ys, Carries f y) (x : Float) : CarriesOn f x ys := by
  induction ys generalizing x with
  | nil => trivial
  | cons y ys ih =>
    obtain ⟨hy, hrest⟩ := List.forall_mem_cons.1 hys
    exact ⟨hy.finite, hy.infinite, ih hrest _⟩

/-- So what was infinite on the way is infinite in the end. -/
theorem CarriesOn.foldl {f : Float → Float → Float} {x : Float} {ys : List Float}
    (h : CarriesOn f x ys) (hx : x.isNaN = false) :
    (ys.foldl f x).isNaN = false ∧
      ∀ z ∈ ys.scanl f x, z.isInf = true → (ys.foldl f x).isInf = true := by
  induction ys generalizing x with
  | nil =>
    refine ⟨hx, fun z hz hinf => ?_⟩
    rw [List.scanl_nil, List.mem_singleton] at hz
    rwa [← hz]
  | cons y ys ih =>
    obtain ⟨hfinite, hinfinite, hrest⟩ := h
    have hnext : (f x y).isNaN = false := by
      cases hinf : x.isInf with
      | true => exact isNaN_of_isInf (hinfinite hinf)
      | false => exact hfinite (isFinite_of_not hx hinf)
    obtain ⟨hnan, hstays⟩ := ih hrest hnext
    refine ⟨hnan, fun z hz hinf => ?_⟩
    rw [List.scanl_cons, List.mem_cons] at hz
    rcases hz with rfl | hz
    · refine hstays _ ?_ (hinfinite hinf)
      cases ys <;> simp
    · exact hstays z hz hinf

/-- Whether a product that is infinite so far meets a zero later. -/
def losesFrom (x : Float) : List Float → Bool
  | [] => false
  | y :: ys => x.isInf && y == 0 || losesFrom (x * y) ys

theorem carriesOn_mul {ys : List Float} (hys : ∀ y ∈ ys, y.isFinite = true) {x : Float}
    (h : losesFrom x ys = false) : CarriesOn (· * ·) x ys := by
  induction ys generalizing x with
  | nil => trivial
  | cons y ys ih =>
    obtain ⟨hy, hrest⟩ := List.forall_mem_cons.1 hys
    rw [losesFrom, Bool.or_eq_false_iff] at h
    refine ⟨isNaN_mul hy, fun hinf => ?_, ih hrest h.2⟩
    rw [hinf, Bool.true_and] at h
    exact (carries_mul hy h.1).infinite hinf

theorem isNaN_foldl_mul {ys : List Float} {x : Float} (hx : x.isNaN = true) :
    (ys.foldl (· * ·) x).isNaN = true := by
  induction ys generalizing x with
  | nil => exact hx
  | cons y ys ih =>
    rw [List.foldl_cons]
    exact ih (isNaN_mul_of_lost (.inl hx))

theorem isNaN_of_losesFrom {ys : List Float} {x : Float} (h : losesFrom x ys = true) :
    (ys.foldl (· * ·) x).isNaN = true := by
  induction ys generalizing x with
  | nil => cases h
  | cons y ys ih =>
    rw [losesFrom, Bool.or_eq_true, Bool.and_eq_true] at h
    rw [List.foldl_cons]
    rcases h with hlost | hlater
    · exact isNaN_foldl_mul (isNaN_mul_of_lost (.inr hlost))
    · exact ih hlater

theorem divideBy_eq (x : Float) (ds : List Float) :
    divideBy x ds = if ds.any (· == 0) then .error .divisionByZero
      else .ok (ds.foldl (· / ·) x) := by
  induction ds generalizing x with
  | nil => rfl
  | cons d ds ih =>
    rw [divideBy, ih, List.any_cons, List.foldl_cons]
    cases hd : d == 0 with
    | true => simp only [if_true, Bool.true_or]
    | false => simp only [Bool.false_eq_true, if_false, Bool.false_or]

/-! Doubles in values. -/

namespace Value

theorem mem_itemFloats {x : Float} {vs : List Value} :
    x ∈ itemFloats vs ↔ ∃ v ∈ vs, x ∈ v.floats := by
  induction vs with
  | nil => simp [itemFloats]
  | cons v vs ih => simp [itemFloats, ih]

def Floats (F : Float → Prop) (v : Value) : Prop := ∀ x ∈ v.floats, F x

def Finite : Value → Prop := Floats fun x => x.isFinite = true

theorem floats_list {F : Float → Prop} {items : List Value} :
    Floats F (list items) ↔ ∀ v ∈ items, v.Floats F := by
  unfold Floats
  rw [floats]
  constructor
  · intro h v hv x hx
    exact h x (mem_itemFloats.2 ⟨v, hv, hx⟩)
  · intro h x hx
    obtain ⟨v, hv, hx⟩ := mem_itemFloats.1 hx
    exact h v hv x hx

theorem floats_of_none {F : Float → Prop} {v : Value} (h : v.floats = []) : v.Floats F := by
  intro x hx
  rw [h] at hx
  cases hx

end Value

theorem hereditary_floats (F : Float → Prop) : Hereditary (Value.Floats F) where
  list := fun _ => Value.floats_list
  sym := fun _ => Value.floats_of_none rfl
  nil := Value.floats_of_none rfl

/-! Arithmetic. -/

theorem Number.isFinite_toFloat {v : Value} {n : Number} {x : Float} (hv : v.Finite)
    (hn : v.number? = some n) (h : n.toFloat = .ok x) : x.isFinite = true := by
  cases v with
  | int i =>
    cases hn
    rw [Number.toFloat, floatOfInt] at h
    split at h
    · cases h
    · rename_i hinf
      cases h
      exact isFinite_of_not (isNaN_ofInt i) (Bool.eq_false_of_not_eq_true hinf)
  | float y =>
    cases hn
    cases h
    exact hv x (by simp [Value.floats])
  | _ => cases hn

theorem checkNumbers_eq_ok {op : String} {vs : List Value} {ns : List Number}
    (h : checkNumbers op vs = .ok ns) : ∀ n ∈ ns, ∃ v ∈ vs, v.number? = some n := by
  induction vs generalizing ns with
  | nil =>
    cases h
    simp
  | cons v vs ih =>
    rw [checkNumbers] at h
    split at h
    · cases h
    · rename_i m hm
      obtain ⟨ms, hms, rfl⟩ : ∃ ms, checkNumbers op vs = .ok ms ∧ ns = m :: ms := by
        cases hc : checkNumbers op vs with
        | error e => rw [hc] at h; cases h
        | ok ms => rw [hc] at h; cases h; exact ⟨ms, rfl, rfl⟩
      refine List.forall_mem_cons.2 ⟨⟨v, List.mem_cons_self, hm⟩, fun n hn => ?_⟩
      obtain ⟨w, hw, hwn⟩ := ih hms n hn
      exact ⟨w, List.mem_cons_of_mem _ hw, hwn⟩

theorem finite_toFloats {op : String} {args : List Value} (hargs : ∀ v ∈ args, v.Finite)
    {ns : List Number} (hns : checkNumbers op args = .ok ns) {xs : List Float}
    (h : ns.mapM Number.toFloat = .ok xs) : ∀ x ∈ xs, x.isFinite = true := by
  intro x hx
  obtain ⟨n, hn, hnx⟩ := exists_of_forall₂_right (forall₂_of_mapM h) x hx
  obtain ⟨v, hv, hvn⟩ := checkNumbers_eq_ok hns n hn
  exact Number.isFinite_toFloat (hargs v hv) hvn hnx

/-- The operands of a sum, a difference or a product when they are doubles. -/
def floatArguments? (op : String) (args : List Value) : Option (List Float) :=
  match arguments op args with
  | .ok (.floats xs) => some xs
  | _ => none

theorem floatArguments?_eq_some {op : String} {args : List Value} {xs : List Float}
    (h : floatArguments? op args = some xs) : arguments op args = .ok (.floats xs) := by
  unfold floatArguments? at h
  split at h
  · rename_i ys hys
    cases h
    exact hys
  · cases h

theorem isSome_floatArguments? {op : String} {args : List Value} {xs : List Float}
    (h : arguments op args = .ok (.floats xs)) : (floatArguments? op args).isSome = true := by
  simp [floatArguments?, h]

theorem finite_floatArguments? {op : String} {args : List Value} (hargs : ∀ v ∈ args, v.Finite)
    {xs : List Float} (h : floatArguments? op args = some xs) : ∀ x ∈ xs, x.isFinite = true := by
  have harguments := floatArguments?_eq_some h
  unfold arguments at harguments
  split at harguments
  · cases harguments
  · rename_i ns hns
    unfold operands at harguments
    split at harguments
    · cases harguments
    · cases hm : ns.mapM Number.toFloat with
      | error e => rw [hm] at harguments; cases harguments
      | ok ys =>
        rw [hm] at harguments
        cases harguments
        exact finite_toFloats hargs hns hm

/-- The operands of a quotient, which are always doubles. -/
def quotientArguments? (args : List Value) : Option (List Float) :=
  match checkNumbers "/" args with
  | .ok ns => (ns.mapM Number.toFloat).toOption
  | .error _ => none

theorem quotientArguments?_eq_some {args : List Value} {xs : List Float}
    (h : quotientArguments? args = some xs) :
    ∃ ns, checkNumbers "/" args = .ok ns ∧ ns.mapM Number.toFloat = .ok xs := by
  unfold quotientArguments? at h
  split at h
  · rename_i ns hns
    refine ⟨ns, hns, ?_⟩
    cases hm : ns.mapM Number.toFloat with
    | error e => rw [hm] at h; cases h
    | ok ys => rw [hm] at h; cases h; rfl
  · cases h

namespace Primitive

/-- The doubles that an arithmetic operation works on; none when it works on
integers, or fails before it works on anything. -/
def doubles? : Primitive → List Value → Option (List Float)
  | add, args => floatArguments? "+" args
  | sub, args => floatArguments? "-" args
  | mul, args => floatArguments? "*" args
  | div, args => quotientArguments? args
  | _, _ => none

/-- What an arithmetic operation on doubles comes to after each of them. -/
def onTheWay : Primitive → List Float → List Float
  | add, xs => xs.scanl (· + ·) 0.0
  | sub, [x] => [-x]
  | sub, x :: xs => xs.scanl (· - ·) x
  | mul, xs => xs.scanl (· * ·) 1.0
  | div, [x] => [x].scanl (· / ·) 1.0
  | div, x :: xs => xs.scanl (· / ·) x
  | _, _ => []

end Primitive

/-- Whether a product of values is infinite on the way and meets a zero later. -/
def losesOverflow (args : List Value) : Bool :=
  (Primitive.mul.doubles? args).any (losesFrom 1.0)

/-- An outcome that is finite or an error, and that is an error of overflow, or of
division by a zero, when something on the way was infinite. -/
structure Checked (onTheWay : List Float) (r : Except RunError Value) : Prop where
  finite : ∀ v, r = .ok v → v.Finite
  overflow : ∀ z ∈ onTheWay, z.isInf = true →
    (∃ op, r = .error (.floatOverflow op)) ∨ r = .error .divisionByZero

theorem CarriesOn.checked {f : Float → Float → Float} {x : Float} {ys : List Float}
    (h : CarriesOn f x ys) (hx : x.isNaN = false) (op : String) :
    Checked (ys.scanl f x) (checkedFloat op (ys.foldl f x)) := by
  obtain ⟨hnan, hstays⟩ := h.foldl hx
  constructor
  · intro v hv
    unfold checkedFloat at hv
    split at hv
    · cases hv
    · rename_i hinf
      cases hv
      intro z hz
      rw [Value.floats, List.mem_singleton] at hz
      rw [hz]
      exact isFinite_of_not hnan (Bool.eq_false_of_not_eq_true hinf)
  · intro z hz hinf
    rw [checkedFloat, if_pos (hstays z hz hinf)]
    exact .inl ⟨op, rfl⟩

theorem checked_divide {x : Float} (hx : x.isNaN = false) {ds : List Float}
    (hds : ∀ d ∈ ds, d.isFinite = true) :
    Checked (ds.scanl (· / ·) x) ((divideBy x ds).bind (checkedFloat "/")) := by
  rw [divideBy_eq]
  cases hzero : ds.any (· == 0) with
  | true => exact ⟨fun v h => (nomatch h), fun _ _ _ => .inr rfl⟩
  | false =>
    have hcarries : ∀ d ∈ ds, Carries (· / ·) d := fun d hd =>
      carries_div (hds d hd) (Bool.eq_false_of_not_eq_true (List.any_eq_false.1 hzero d hd))
    exact (carriesOn_of_forall hcarries x).checked hx "/"

section

variable {args : List Value} {xs : List Float} (hargs : ∀ v ∈ args, v.Finite)
include hargs

theorem checked_addNumbers (h : floatArguments? "+" args = some xs) :
    Checked (Primitive.add.onTheWay xs) (addNumbers args) := by
  have hxs := finite_floatArguments? hargs h
  have hcarries := carriesOn_of_forall (fun x hx => carries_add (hxs x hx)) 0.0
  simp only [addNumbers, floatArguments?_eq_some h]
  exact hcarries.checked (isNaN_ofScientific _ _ _) "+"

theorem checked_subNumbers (h : floatArguments? "-" args = some xs) :
    Checked (Primitive.sub.onTheWay xs) (subNumbers args) := by
  have hxs := finite_floatArguments? hargs h
  simp only [subNumbers, floatArguments?_eq_some h]
  match xs, hxs with
  | [], _ => exact ⟨fun v h => (nomatch h), fun z hz => (nomatch hz)⟩
  | [x], hxs =>
    have hnan : (-x).isNaN = false := by
      rw [isNaN_neg]
      exact isNaN_of_isFinite (hxs x List.mem_cons_self)
    have hcarries : CarriesOn (· - ·) (-x) [] := trivial
    exact hcarries.checked hnan "-"
  | x :: y :: ys, hxs =>
    obtain ⟨hx, hrest⟩ := List.forall_mem_cons.1 hxs
    have hcarries := carriesOn_of_forall (fun y hy => carries_sub (hrest y hy)) x
    exact hcarries.checked (isNaN_of_isFinite hx) "-"

theorem checked_mulNumbers (h : floatArguments? "*" args = some xs)
    (hlost : losesOverflow args = false) :
    Checked (Primitive.mul.onTheWay xs) (mulNumbers args) := by
  have hxs := finite_floatArguments? hargs h
  have hloses : losesFrom 1.0 xs = false := by
    rwa [losesOverflow, Primitive.doubles?, h, Option.any_some] at hlost
  simp only [mulNumbers, floatArguments?_eq_some h]
  exact (carriesOn_mul hxs hloses).checked (isNaN_ofScientific _ _ _) "*"

theorem checked_divNumbers (h : quotientArguments? args = some xs) :
    Checked (Primitive.div.onTheWay xs) (divNumbers args) := by
  obtain ⟨ns, hns, hm⟩ := quotientArguments?_eq_some h
  have hxs := finite_toFloats hargs hns hm
  simp only [divNumbers, hns, hm]
  match xs, hxs with
  | [], _ => exact ⟨fun v h => (nomatch h), fun z hz => (nomatch hz)⟩
  | [x], hxs => exact checked_divide (isNaN_ofScientific _ _ _) hxs
  | x :: y :: ys, hxs =>
    obtain ⟨hx, hrest⟩ := List.forall_mem_cons.1 hxs
    exact checked_divide (isNaN_of_isFinite hx) hrest

end

/-- Arithmetic on finite doubles comes to a finite double or to an error. -/
theorem checked_apply {op : Primitive} {args : List Value} (hargs : ∀ v ∈ args, v.Finite)
    {xs : List Float} (h : op.doubles? args = some xs)
    (hmul : op = .mul → losesOverflow args = false) :
    Checked (op.onTheWay xs) (op.apply args) := by
  cases op with
  | add => exact checked_addNumbers hargs h
  | sub => exact checked_subNumbers hargs h
  | mul => exact checked_mulNumbers hargs h (hmul rfl)
  | div => exact checked_divNumbers hargs h
  | _ => cases h

/-! The primitives. -/

theorem floats_checkedInt {op : String} {n : Int} {v : Value} (h : checkedInt op n = .ok v) :
    v.floats = [] := by
  unfold checkedInt at h
  split at h
  · cases h
    rfl
  · cases h

theorem checkedFloat_eq_ok {op : String} {x : Float} {v : Value} (h : checkedFloat op x = .ok v) :
    v = .float x ∧ x.isInf = false := by
  unfold checkedFloat at h
  split at h
  · cases h
  · rename_i hinf
    cases h
    exact ⟨rfl, Bool.eq_false_of_not_eq_true hinf⟩

/-- A result whose doubles occur in the arguments, or one that is a double and was
found not to be infinite. -/
def Derived (op : Primitive) (args : List Value) (v : Value) : Prop :=
  (∀ x ∈ v.floats, ∃ a ∈ args, x ∈ a.floats) ∨
    ∃ x, v = .float x ∧ x.isInf = false ∧ (op.doubles? args).isSome = true

theorem derived_of_none {op : Primitive} {args : List Value} {v : Value} (h : v.floats = []) :
    Derived op args v :=
  .inl fun x hx => by
    rw [h] at hx
    cases hx

theorem derived_of_checkedFloat {op : Primitive} {args : List Value} {name : String} {x : Float}
    {v : Value} (h : checkedFloat name x = .ok v) (hop : (op.doubles? args).isSome = true) :
    Derived op args v :=
  .inr ⟨x, (checkedFloat_eq_ok h).1, (checkedFloat_eq_ok h).2, hop⟩

theorem derived_map_str {op : Primitive} {args : List Value} {v : Value} {α : Type}
    {r : Except RunError α} {f : α → String} (h : (r.map fun a => Value.str (f a)) = .ok v) :
    Derived op args v := by
  cases r with
  | error e => cases h
  | ok a =>
    cases h
    exact derived_of_none rfl

theorem takeApart_eq_ok {op : String} {args : List Value} {p : Value × List Value}
    (h : Primitive.takeApart op args = .ok p) : args = [.list (p.1 :: p.2)] := by
  unfold Primitive.takeApart at h
  split at h
  · cases h
    rfl
  · cases h
  · cases h
  · cases h

theorem derived_takeApart {op : Primitive} {name : String} {args : List Value} {v : Value}
    {part : Value × List Value → Value}
    (hpart : ∀ w ws, ∀ x ∈ (part (w, ws)).floats, x ∈ Value.itemFloats (w :: ws))
    (h : (Primitive.takeApart name args).map part = .ok v) : Derived op args v := by
  cases ht : Primitive.takeApart name args with
  | error e => rw [ht] at h; cases h
  | ok p =>
    rw [ht] at h
    cases h
    refine .inl fun x hx => ⟨.list (p.1 :: p.2), ?_, hpart p.1 p.2 x hx⟩
    rw [takeApart_eq_ok ht]
    exact List.mem_cons_self

section

variable {args : List Value} {v : Value}

theorem derived_addNumbers (h : addNumbers args = .ok v) : Derived .add args v := by
  unfold addNumbers at h
  split at h
  · cases h
  · exact derived_of_none (floats_checkedInt h)
  · rename_i xs hxs
    exact derived_of_checkedFloat h (isSome_floatArguments? hxs)

theorem derived_mulNumbers (h : mulNumbers args = .ok v) : Derived .mul args v := by
  unfold mulNumbers at h
  split at h
  · cases h
  · exact derived_of_none (floats_checkedInt h)
  · rename_i xs hxs
    exact derived_of_checkedFloat h (isSome_floatArguments? hxs)

theorem derived_subNumbers (h : subNumbers args = .ok v) : Derived .sub args v := by
  unfold subNumbers at h
  split at h
  · cases h
  · cases h
  · cases h
  · exact derived_of_none (floats_checkedInt h)
  · exact derived_of_none (floats_checkedInt h)
  · rename_i xs hxs
    exact derived_of_checkedFloat h (isSome_floatArguments? hxs)
  · rename_i xs hxs
    exact derived_of_checkedFloat h (isSome_floatArguments? hxs)

theorem derived_divideBy {x : Float} {ds : List Float}
    (h : (divideBy x ds).bind (checkedFloat "/") = .ok v)
    (hop : (Primitive.div.doubles? args).isSome = true) : Derived .div args v := by
  rw [divideBy_eq] at h
  split at h
  · cases h
  · exact derived_of_checkedFloat h hop

theorem derived_divNumbers (h : divNumbers args = .ok v) : Derived .div args v := by
  unfold divNumbers at h
  split at h
  · cases h
  · rename_i ns hns
    cases hm : ns.mapM Number.toFloat with
    | error e => rw [hm] at h; cases h
    | ok xs =>
      have hop : (Primitive.div.doubles? args).isSome = true := by
        simp [Primitive.doubles?, quotientArguments?, hns, hm, Except.toOption]
      rw [hm] at h
      match xs with
      | [] => cases h
      | [x] => exact derived_divideBy h hop
      | x :: y :: ys => exact derived_divideBy h hop

theorem derived_compare {c : Comparison} (h : c.apply args = .ok v) :
    Derived (.compare c) args v := by
  unfold Comparison.apply at h
  split at h
  · split at h
    · cases h
    · cases h
      exact derived_of_none rfl
  · cases h

theorem derived_material (h : material args = .ok v) : Derived .material args v := by
  unfold material at h
  split at h
  · cases h
  · exact derived_map_str h

theorem derived_substitute (h : substitute args = .ok v) : Derived .substitute args v := by
  unfold substitute at h
  split at h
  · split at h
    · split at h
      · exact derived_map_str h
      · cases h
    · cases h
  · cases h

theorem derived_combine (h : combine args = .ok v) : Derived .combine args v := by
  unfold combine at h
  split at h
  · cases h
  · exact derived_map_str h

end

theorem derived_apply {op : Primitive} {args : List Value} {v : Value}
    (h : op.apply args = .ok v) : Derived op args v := by
  cases op with
  | add => exact derived_addNumbers h
  | sub => exact derived_subNumbers h
  | mul => exact derived_mulNumbers h
  | div => exact derived_divNumbers h
  | compare c => exact derived_compare h
  | list =>
    cases h
    exact .inl fun x hx => Value.mem_itemFloats.1 hx
  | first =>
    refine derived_takeApart (fun w ws x hx => ?_) h
    exact List.mem_append_left _ hx
  | rest =>
    refine derived_takeApart (fun w ws x hx => ?_) h
    exact List.mem_append_right _ hx
  | material => exact derived_material h
  | substitute => exact derived_substitute h
  | combine => exact derived_combine h

/-- The primitives make finite doubles out of finite doubles, unless a product loses
an overflow. -/
theorem finite_apply {op : Primitive} {args : List Value} (hargs : ∀ v ∈ args, v.Finite)
    (hmul : op = .mul → losesOverflow args = false) {v : Value} (h : op.apply args = .ok v) :
    v.Finite := by
  rcases derived_apply h with hfrom | ⟨x, -, -, hop⟩
  · intro x hx
    obtain ⟨a, ha, hxa⟩ := hfrom x hx
    exact hargs a ha x hxa
  · obtain ⟨xs, hxs⟩ := Option.isSome_iff_exists.1 hop
    exact (checked_apply hargs hxs hmul).finite v h

/-- A product that does is no number, and no error either. -/
theorem lost_overflow {args : List Value} (h : losesOverflow args = true) :
    ∃ x, Primitive.mul.apply args = .ok (.float x) ∧ x.isNaN = true := by
  obtain ⟨xs, hxs, hloses⟩ := (Option.any_eq_true _ _).1 h
  have hnan := isNaN_of_losesFrom hloses
  have hinf : (xs.foldl (· * ·) 1.0).isInf = false := by
    cases hi : (xs.foldl (· * ·) 1.0).isInf with
    | false => rfl
    | true => rw [isNaN_of_isInf hi] at hnan; cases hnan
  refine ⟨_, ?_, hnan⟩
  simp only [Primitive.apply, mulNumbers, floatArguments?_eq_some hxs, checkedFloat, hinf,
    Bool.false_eq_true, if_false]

end Formulary
