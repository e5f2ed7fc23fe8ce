/-
  The shortest decimal that reads back as a given double.

  A decimal is a whole number of digits times a power of ten. Of the decimals
  with one, two, and so on up to seventeen digits, those next to the double on
  the grid of that many digits are tried, and the first that reads back is
  taken; of two on one grid the nearer, and an exact tie goes to the even one.
-/

namespace Formulary

/-- The number `digits · 10 ^ exponent`. -/
structure Decimal where
  digits : Nat
  exponent : Int
  deriving DecidableEq, Repr

/-- The double nearest to a decimal, ties to even. -/
def Decimal.toFloat (d : Decimal) : Float :=
  if 0 ≤ d.exponent then Float.ofScientific d.digits false d.exponent.toNat
  else Float.ofScientific d.digits true (-d.exponent).toNat

/-- A positive rational number, as a numerator over a denominator. -/
structure Fraction where
  num : Nat
  den : Nat

/-- The absolute value of a finite double: its significand times the power of
two that its exponent field gives. -/
def Fraction.ofFloat (x : Float) : Fraction :=
  let bits := x.toBits.toNat
  let field := bits / Nat.pow 2 52 % Nat.pow 2 11
  let low := bits % Nat.pow 2 52
  let significand := if field = 0 then low else Nat.pow 2 52 + low
  let shift := if field = 0 then 1 else field
  if 1075 ≤ shift then ⟨significand * Nat.pow 2 (shift - 1075), 1⟩
  else ⟨significand, Nat.pow 2 (1075 - shift)⟩

/-- The exponent of the first digit of a positive double: the greatest `e` with
`10 ^ e` not above it. No positive double lies below `10 ^ (-400)`. -/
def Fraction.leading (v : Fraction) : Int :=
  ((Nat.toDigits 10 (v.num * Nat.pow 10 400 / v.den)).length : Int) - 401

/-- The numerator and denominator of `v` in units of `10 ^ e`. -/
def Fraction.inUnits (v : Fraction) (e : Int) : Fraction :=
  if 0 ≤ e then ⟨v.num, v.den * Nat.pow 10 e.toNat⟩ else ⟨v.num * Nat.pow 10 (-e).toNat, v.den⟩

/-- The decimals next to `v` in units of `10 ^ e`, the nearer one first and the
even one first when both are equally near. -/
def Fraction.neighbours (v : Fraction) (e : Int) : List Decimal :=
  let u := v.inUnits e
  let below := u.num / u.den
  let rest := u.num % u.den
  if rest = 0 then [⟨below, e⟩]
  else if 2 * rest < u.den ∨ (2 * rest = u.den ∧ below % 2 = 0) then
    [⟨below, e⟩, ⟨below + 1, e⟩]
  else [⟨below + 1, e⟩, ⟨below, e⟩]

/-- The first neighbour of `v` on the grids of `n`, `n + 1`, … digits that
reads back as `x`, trying `fuel` more grids after the current one. -/
def Decimal.search (x : Float) (v : Fraction) (top : Int) : Nat → Nat → Decimal
  | 0, n => ((v.neighbours (top - n + 1)).head?).getD ⟨0, 0⟩
  | fuel + 1, n =>
    match (v.neighbours (top - n + 1)).find? fun d => d.toFloat.toBits == x.toBits with
    | some d => d
    | none => Decimal.search x v top fuel (n + 1)

/-- A decimal without trailing zeros, given how many may be dropped. -/
def Decimal.stripZeros : Nat → Decimal → Decimal
  | 0, d => d
  | fuel + 1, d =>
    if d.digits ≠ 0 ∧ d.digits % 10 = 0 then
      Decimal.stripZeros fuel ⟨d.digits / 10, d.exponent + 1⟩
    else d

/-- The shortest decimal that reads back as the magnitude of the finite double
`x`. -/
def Decimal.shortest (x : Float) : Decimal :=
  let v := Fraction.ofFloat x
  if v.num = 0 then ⟨0, 0⟩
  else Decimal.stripZeros 20 (Decimal.search x.abs v v.leading 16 1)

end Formulary
