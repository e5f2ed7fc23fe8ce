import Formulary.Decimal.Layout
import Formulary.Reader.Form

/-
  Numerals: the texts that numbers are written as.

  The digits of a number denote it, and the text of an integer of 64 bits reads
  as that integer. The text of a finite double has digits, a point and digits,
  after a minus sign when the double is negative.
-/

namespace Formulary

open Text

theorem inInt64_iff {n : Int} :
    inInt64 n = true ↔ -9223372036854775808 ≤ n ∧ n ≤ 9223372036854775807 := by
  simp only [inInt64, Bool.and_eq_true, decide_eq_true_eq]
  exact Iff.rfl

/-! Digits. -/

theorem isAsciiDigit_of_mem_toDigits {c : Char} {n : Nat} (h : c ∈ Nat.toDigits 10 n) :
    isAsciiDigit c = true := by
  have hd := Nat.isDigit_of_mem_toDigits (by decide) (by decide) h
  simpa [Char.isDigit, isAsciiDigit, UInt32.le_iff_toNat_le] using hd

theorem natOfDigits_toDigits (n : Nat) : natOfDigits (Nat.toDigits 10 n) = n :=
  Nat.ofDigitChars_ten_toDigits

theorem length_toDigits_le {n : Nat} (h : n ≤ 9223372036854775808) :
    (Nat.toDigits 10 n).length ≤ 19 := by
  rw [Nat.length_toDigits_le_iff (by decide) (by decide)]
  omega

theorem isDigits_toDigits (n : Nat) : isDigits (Nat.toDigits 10 n) = true := by
  simp only [isDigits, Bool.and_eq_true, List.all_eq_true]
  refine ⟨by simp, fun c hc => isAsciiDigit_of_mem_toDigits hc⟩

/-- A digit is none of the characters that a match on texts asks for. -/
theorem ne_of_isAsciiDigit {c : Char} (h : isAsciiDigit c = true) :
    c ≠ '-' ∧ c ≠ '.' ∧ c ≠ '#' ∧ c ≠ ':' := by
  refine ⟨?_, ?_, ?_, ?_⟩ <;>
  · rintro rfl
    exact absurd h (by decide)

theorem startsNumber_digit {c : Char} (cs : List Char) (h : isAsciiDigit c = true) :
    startsNumber (c :: cs) = true := by
  obtain ⟨hm, hp, _, _⟩ := ne_of_isAsciiDigit h
  unfold startsNumber
  split <;> simp_all

theorem splitSign_digit {c : Char} (cs : List Char) (h : isAsciiDigit c = true) :
    splitSign (c :: cs) = (false, c :: cs) := by
  obtain ⟨hm, _, _, _⟩ := ne_of_isAsciiDigit h
  unfold splitSign
  split <;> simp_all

theorem atomKind?_number {cs : List Char} (h : startsNumber cs = true) :
    atomKind? cs = some .number := by
  have ht : ¬ (cs = ['#', 't'] ∨ cs = ['#', 'f']) := by
    rintro (rfl | rfl) <;> exact absurd h (by decide)
  have he : isElementAtom cs = false := by
    unfold isElementAtom
    split
    · exact absurd h (by simp [startsNumber, isAsciiDigit])
    · rfl
  simp [atomKind?, ht, he, h]

/-! Integers. -/

theorem readInteger_nonneg {n : Nat} (h : inInt64 n = true) (o : Int) :
    readInteger (String.ofList (Nat.toDigits 10 n)) o = .ok (.int n) := by
  have hn : n ≤ 9223372036854775808 := by
    rw [inInt64_iff] at h
    omega
  have hlen := length_toDigits_le hn
  have hsplit : splitSign (Nat.toDigits 10 n) = (false, Nat.toDigits 10 n) := by
    cases hd : Nat.toDigits 10 n with
    | nil => rfl
    | cons c cs => exact splitSign_digit cs (isAsciiDigit_of_mem_toDigits (n := n) (by simp [hd]))
  have hlimit : ¬ digitLimit < (Nat.toDigits 10 n).length := by
    simp only [digitLimit]
    omega
  simp [readInteger, hsplit, isDigits_toDigits, hlimit, natOfDigits_toDigits, h]

theorem readInteger_neg {n : Nat} (h : inInt64 (Int.negSucc n) = true) (o : Int) :
    readInteger (String.ofList ('-' :: Nat.toDigits 10 (n + 1))) o = .ok (.int (Int.negSucc n)) := by
  have hn : n + 1 ≤ 9223372036854775808 := by
    rw [inInt64_iff] at h
    omega
  have hlen := length_toDigits_le hn
  have hlimit : ¬ digitLimit < (Nat.toDigits 10 (n + 1)).length := by
    simp only [digitLimit]
    omega
  have hvalue : -((n : Int) + 1) = Int.negSucc n := by omega
  simp [readInteger, splitSign, isDigits_toDigits, hlimit, natOfDigits_toDigits, hvalue, h]

/-! Doubles. -/

/-- Digits, a point and digits, with a digit before the point. -/
def IsPositional (cs : List Char) : Prop :=
  ∃ c whole part, cs = c :: whole ++ '.' :: part ∧ isAsciiDigit c = true ∧
    (∀ d ∈ whole, isAsciiDigit d = true) ∧ ∀ d ∈ part, isAsciiDigit d = true

theorem isAsciiDigit_of_mem_replicate {n : Nat} {c : Char} (h : c ∈ List.replicate n '0') :
    isAsciiDigit c = true := by
  rw [List.eq_of_mem_replicate h]
  decide

theorem isPositional_positional (d : Decimal) : IsPositional d.positional := by
  have hdigit : ∀ c ∈ d.text, isAsciiDigit c = true := fun c => isAsciiDigit_of_mem_toDigits
  have hne : d.text ≠ [] := Nat.toDigits_ne_nil
  unfold Decimal.positional
  simp only
  split
  · refine ⟨'0', [], _, rfl, by decide, by simp, ?_⟩
    intro c hc
    rcases List.mem_append.mp hc with hc | hc
    · exact isAsciiDigit_of_mem_replicate hc
    · exact hdigit c hc
  · next hp =>
    obtain ⟨c, cs, hcs⟩ := List.exists_cons_of_ne_nil hne
    split
    · refine ⟨c, cs ++ List.replicate (d.point - d.text.length).toNat '0', ['0'], ?_, ?_, ?_, ?_⟩
      · simp [hcs]
      · exact hdigit c (by simp [hcs])
      · intro x hx
        rcases List.mem_append.mp hx with hx | hx
        · exact hdigit x (by simp [hcs, hx])
        · exact isAsciiDigit_of_mem_replicate hx
      · intro x hx
        rw [List.mem_singleton.1 hx]
        rfl
    · obtain ⟨k, hk⟩ : ∃ k, d.point.toNat = k + 1 := ⟨d.point.toNat - 1, by omega⟩
      refine ⟨c, cs.take k, d.text.drop d.point.toNat, ?_, ?_, ?_, ?_⟩
      · rw [hk, hcs, List.take_succ_cons]
      · exact hdigit c (by simp [hcs])
      · intro x hx
        exact hdigit x (by simp [hcs, List.mem_of_mem_take hx])
      · intro x hx
        exact hdigit x (List.mem_of_mem_drop hx)

theorem isNaN_of_isFinite {x : Float} (h : x.isFinite = true) : x.isNaN = false := by
  have hu : x.toModel.unpack.isFinite = true := h
  show x.toModel.unpack.isNaN = false
  cases hx : x.toModel.unpack with
  | zero s | finite s m e hm => rfl
  | infinity s | notANumber =>
    rw [hx] at hu
    cases hu

theorem isInf_of_isFinite {x : Float} (h : x.isFinite = true) : x.isInf = false := by
  have hu : x.toModel.unpack.isFinite = true := h
  show x.toModel.unpack.isInf = false
  cases hx : x.toModel.unpack with
  | zero s | finite s m e hm => rfl
  | infinity s | notANumber =>
    rw [hx] at hu
    cases hu

theorem plainFloat_cases {x : Float} (h : x.isFinite = true) :
    ∃ cs, IsPositional cs ∧ ((plainFloat x).toList = cs ∨ (plainFloat x).toList = '-' :: cs) := by
  refine ⟨(Decimal.shortest x).positional, isPositional_positional _, ?_⟩
  unfold plainFloat writeFloat
  rw [isNaN_of_isFinite h, isInf_of_isFinite h]
  cases isNegative x with
  | false => left; simp
  | true => right; simp

end Formulary
