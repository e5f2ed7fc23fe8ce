import Mathlib
import Formulary.Primitive.Number
import Formulary.Proofs.Numeral

/-
  Integers of the signed 64-bit range as doubles.

  The double nearest to such an integer is never infinite (`isInf_ofInt`), so
  converting it cannot fail. Only the size of the exponent matters, and there is
  room enough for crude bounds: rounding a mantissa of `bits` bits raises the
  exponent by about twice as much at most, and exponents up to 970 are finite.
-/

namespace Formulary

open Float.Model Float.Model.UnpackedFloat

/-- Zero, or a finite number with a mantissa of at most `bits` bits and an
exponent of at most `top`. -/
def FitsIn (bits : Nat) (top : Int) : UnpackedFloat → Prop
  | .zero _ => True
  | .finite _ m e _ => m < 2 ^ bits ∧ e ≤ top
  | _ => False

theorem FitsIn.isInf {bits : Nat} {top : Int} {u : UnpackedFloat} (h : FitsIn bits top u) :
    u.isInf = false := by
  cases u with
  | infinity s => exact h.elim
  | notANumber | zero s | finite s m e hm => rfl

theorem FitsIn.mono {bits bits' : Nat} {top top' : Int} {u : UnpackedFloat}
    (hu : FitsIn bits top u) (hb : bits ≤ bits') (ht : top ≤ top') : FitsIn bits' top' u := by
  match u with
  | .infinity _ | .notANumber => exact hu.elim
  | .zero _ => trivial
  | .finite s m e hm =>
    exact ⟨Nat.lt_of_lt_of_le hu.1 (Nat.pow_le_pow_right (by decide) hb), Int.le_trans hu.2 ht⟩

/-! Rounding. -/

theorem mantissa_shiftRight_le (em : ExtendedMantissa) (k : Nat) :
    (em >>> k).mantissa ≤ em.mantissa := by
  induction k with
  | zero => exact Nat.le_refl _
  | succ k ih =>
    show (em >>> k).mantissa / 2 ≤ em.mantissa
    omega

theorem roundedMantissa_le (em : ExtendedMantissa) : em.roundedMantissa ≤ em.mantissa + 1 := by
  obtain ⟨m, r, s⟩ := em
  cases r <;> cases s <;>
    simp only [ExtendedMantissa.roundedMantissa, ExtendedMantissa.accuracy,
      Accuracy.roundToNearestEven] <;> omega

theorem log2_le_of_lt {m bits : Nat} (h : m < 2 ^ bits) : m.log2 ≤ bits := by
  by_cases hm : m = 0
  · simp [hm]
  · exact Nat.le_of_lt ((Nat.log2_lt hm).2 h)

theorem shiftToTargetExponent_le {m bits : Nat} {e top : Int} (hm : m < 2 ^ bits) (he : e ≤ top)
    (htop : 0 ≤ top) (a : Accuracy) :
    (shiftToTargetExponent Format.binary64 m e a).1.mantissa ≤ m ∧
      (shiftToTargetExponent Format.binary64 m e a).2 ≤ top + bits := by
  have hlog := log2_le_of_lt hm
  constructor
  · refine Nat.le_trans (mantissa_shiftRight_le _ _) ?_
    cases a with
    | exact => exact Nat.le_refl m
    | inexact o => cases o <;> exact Nat.le_refl m
  · simp only [shiftToTargetExponent, shiftToExponent, Format.targetExponent, totalExponent,
      Format.mantissaBits, Format.minExponent]
    omega

theorem fitsIn_roundWithAccuracy {m bits : Nat} {e top : Int} (hm : m < 2 ^ bits) (he : e ≤ top)
    (htop : 0 ≤ top) (s : Sign) (a : Accuracy) :
    FitsIn (bits + 1) (top + bits + (bits + 1)) (roundWithAccuracy Format.binary64 s m e a) := by
  obtain ⟨hm₁, he₁⟩ := shiftToTargetExponent_le hm he htop a
  unfold roundWithAccuracy
  generalize shiftToTargetExponent Format.binary64 m e a = first at hm₁ he₁ ⊢
  -- rounding may carry into one more bit
  have hround : first.1.roundedMantissa < 2 ^ (bits + 1) := by
    have := roundedMantissa_le first.1
    rw [Nat.pow_succ]
    omega
  have hnonneg : 0 ≤ top + bits := by omega
  obtain ⟨hm₂, he₂⟩ := shiftToTargetExponent_le hround he₁ hnonneg .exact
  dsimp only
  split
  · trivial
  · refine ⟨?_, ?_⟩
    · omega
    · push_cast at he₂
      omega

theorem fitsIn_mul {u v : UnpackedFloat} {b c bits : Nat} {t r top : Int} (hu : FitsIn b t u)
    (hv : FitsIn c r v) (htop : 0 ≤ t + r) (hbits : b + c + 1 ≤ bits)
    (hmax : t + r + (b + c : Nat) + ((b + c : Nat) + 1) ≤ top) :
    FitsIn bits top (mul Format.binary64 u v) := by
  match u, v with
  | .infinity _, _ | .notANumber, _ => exact hu.elim
  | _, .infinity _ | _, .notANumber => exact hv.elim
  | .zero _, .zero _ | .zero _, .finite .. | .finite .., .zero _ => trivial
  | .finite s m e _, .finite s' m' e' _ =>
    have hm : m * m' < 2 ^ (b + c) := by
      rw [Nat.pow_add]
      exact Nat.mul_lt_mul'' hu.1 hv.1
    exact (fitsIn_roundWithAccuracy hm (Int.add_le_add hu.2 hv.2) htop _ _).mono hbits hmax

/-! Packing. -/

/-- What is packed with the exponent `k`, which must not be the last one, is
unpacked to a number with that exponent. -/
theorem fitsIn_unpack {k : Nat} {top : Int} (hk : k < 2047) (htop : (k : Int) - 1075 ≤ top)
    (hmin : -1074 ≤ top) (s : Sign) (m : BitVec 52) :
    FitsIn 53 top (unpack Format.binary64
      (packComponents Format.binary64 s (BitVec.ofNat 11 k) m)) := by
  have hexp : (BitVec.ofNat 11 k).toNat = k := by
    rw [BitVec.toNat_ofNat]
    omega
  have hlast : BitVec.ofNat 11 k ≠ -1#11 := by
    intro h
    have := congrArg BitVec.toNat h
    rw [hexp] at this
    simp at this
    omega
  unfold Float.Model.UnpackedFloat.unpack
  simp only [unpackMantissa_packComponents, unpackExponent_packComponents, hexp, if_neg hlast]
  split
  · split
    · trivial
    · refine ⟨Nat.lt_trans m.isLt (by decide), ?_⟩
      rename_i hzero _
      have hk0 : k = 0 := by
        rw [← hexp, hzero]
        rfl
      have hbias : (Format.binary64.exponentBias : Int) = 1023 := rfl
      omega
  · refine ⟨(1#1 ++ m).isLt, ?_⟩
    have hbias : (Format.binary64.exponentBias : Int) = 1023 := rfl
    omega

theorem fitsIn_unpack_pack {bits : Nat} {top : Int} {u : UnpackedFloat} (hu : FitsIn bits top u)
    (htop : 0 ≤ top) (hmax : top ≤ 970) :
    FitsIn 53 top (unpack Format.binary64 (pack Format.binary64 u)) := by
  have hzero : ∀ s m, FitsIn 53 top (unpack Format.binary64
      (packComponents Format.binary64 s 0#11 m)) := fun s m =>
    fitsIn_unpack (k := 0) (by decide) (by omega) (by omega) s m
  match u with
  | .infinity _ | .notANumber => exact hu.elim
  | .zero s => exact hzero s 0
  | .finite s m e hm =>
    have he := hu.2
    have hbias : (Format.binary64.exponentBias : Int) = 1023 := rfl
    simp only [UnpackedFloat.pack]
    split
    · omega
    · split
      · exact fitsIn_unpack (by omega) (by omega) (by omega) s _
      · exact hzero s _


/-! Integers. -/

theorem shiftLeft_lt {n k bits : Nat} (hn : n < 2 ^ 64) (hk : 64 + k ≤ bits) :
    n <<< k < 2 ^ bits := by
  rw [Nat.shiftLeft_eq]
  calc n * 2 ^ k < 2 ^ 64 * 2 ^ k := Nat.mul_lt_mul_of_pos_right hn (Nat.two_pow_pos k)
    _ = 2 ^ (64 + k) := (Nat.pow_add 2 64 k).symm
    _ ≤ 2 ^ bits := Nat.pow_le_pow_right (by decide) hk

theorem fitsIn_round {n : Nat} (hn : n < 2 ^ 64) (s : Sign) :
    FitsIn 118 235 (round Format.binary64 s n 0) := by
  unfold Float.Model.UnpackedFloat.round decreaseExponent
  simp only [Format.targetExponent, totalExponent, Format.mantissaBits, Format.minExponent]
  refine fitsIn_roundWithAccuracy (shiftLeft_lt hn ?_) ?_ (Int.le_refl 0) s .exact
  · omega
  · omega

theorem fitsIn_toFloat (n : UInt64) : FitsIn 53 235 n.toFloat.toModel.unpack := by
  have hn : n.toNat < 2 ^ 64 := n.toNat_lt
  have hround : FitsIn 118 235 (UnpackedFloat.normalize Format.binary64 (n.toNat : Int) 0 .positive) := by
    unfold UnpackedFloat.normalize
    split
    · exact fitsIn_round (by omega) _
    · trivial
    · exact fitsIn_round hn _
  exact fitsIn_unpack_pack hround (by decide) (by decide)

theorem fitsIn_ofScientific {n : Nat} (hn : n < 2 ^ 64) :
    FitsIn 119 237 (UnpackedFloat.ofScientific Format.binary64 n 0) := by
  have hbits : (2 : Int) ^ Format.binary64.exponentBits = 2048 := rfl
  have hmant : Format.binary64.mantissaBits = 53 := rfl
  have hleft : ∀ h, FitsIn 117 0 (.finite .positive (n <<< Format.binary64.mantissaBits)
      (-Format.binary64.mantissaBits) h) := fun _ =>
    ⟨shiftLeft_lt hn (by omega), by omega⟩
  have hright : ∀ h, FitsIn 1 0 (.finite .positive (10 ^ (0 : Int).toNat) 0 h) := fun _ =>
    ⟨by decide, by decide⟩
  unfold UnpackedFloat.ofScientific
  split
  · trivial
  · rw [if_neg (by omega), if_neg (by omega), if_pos (Int.le_refl 0)]
    refine fitsIn_mul (b := 117) (c := 1) (t := 0) (r := 0) ?_ ?_ ?_ ?_ ?_
    · exact hleft _
    · exact hright _
    · decide
    · decide
    · decide

theorem fitsIn_ofNat {n : Nat} (hn : n < 2 ^ 64) :
    FitsIn 53 448 (Float.ofNat n).toModel.unpack := by
  by_cases hsmall : n < 2 ^ 53 ∧ 0 ≤ 22
  · have hmul : Float.ofNat n = n.toUInt64.toFloat * Float.ofBits 0x3FF0000000000000 := by
      show Float.ofScientific n false 0 = _
      unfold Float.ofScientific
      rw [dif_pos hsmall]
      rfl
    have hone : FitsIn 53 0 (Float.ofBits 0x3FF0000000000000).toModel.unpack :=
      ⟨by decide, by decide⟩
    have hprod : FitsIn 107 448 (mul Format.binary64 n.toUInt64.toFloat.toModel.unpack
        (Float.ofBits 0x3FF0000000000000).toModel.unpack) :=
      fitsIn_mul (fitsIn_toFloat n.toUInt64) hone (by decide) (by decide) (by decide)
    rw [hmul]
    exact fitsIn_unpack_pack hprod (by decide) (by decide)
  · have hslow : Float.ofNat n = Float.ofModel (Float.Model.ofScientific n 0) := by
      show Float.ofScientific n false 0 = _
      unfold Float.ofScientific
      rw [dif_neg hsmall]
      rfl
    rw [hslow]
    exact (fitsIn_unpack_pack (fitsIn_ofScientific hn) (by decide) (by decide)).mono (by decide)
      (by decide)

theorem fitsIn_neg {x : Float} {top : Int} (hx : FitsIn 53 top x.toModel.unpack) (htop : 0 ≤ top)
    (hmax : top ≤ 970) : FitsIn 53 top (-x).toModel.unpack := by
  have hneg : FitsIn 53 top x.toModel.unpack.neg := by
    match x.toModel.unpack, hx with
    | .zero _, _ => trivial
    | .finite s m e hm, h => exact h
  exact fitsIn_unpack_pack hneg htop hmax

/-- Converting an integer of the signed 64-bit range never overflows. -/
theorem isInf_ofInt {n : Int} (hn : inInt64 n = true) : (Float.ofInt n).isInf = false := by
  rw [inInt64_iff] at hn
  obtain ⟨hlow, hhigh⟩ := hn
  cases n with
  | ofNat m =>
    have hm : m < 2 ^ 64 := by
      rw [Int.ofNat_eq_natCast] at hhigh
      omega
    exact (fitsIn_ofNat hm).isInf
  | negSucc m =>
    have hm : m + 1 < 2 ^ 64 := by omega
    exact (fitsIn_neg (fitsIn_ofNat hm) (by decide) (by decide)).isInf

theorem floatOfInt_ok {n : Int} (hn : inInt64 n = true) :
    floatOfInt n = .ok (Float.ofInt n) := by
  simp only [floatOfInt, isInf_ofInt hn, Bool.false_eq_true, if_false]

end Formulary
