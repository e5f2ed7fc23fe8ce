import Formulary.Decimal.Shortest

/-
  How doubles are written.

  Both layouts take the digits of the shortest decimal that reads back.
  `plain` is positional for every magnitude and always has a point, so it is
  a literal of the language when the double is finite. `compact` is the same
  from 1e-4 up to 1e16 and has an exponent of at least two digits outside.
-/

namespace Formulary

def Decimal.text (d : Decimal) : List Char := Nat.toDigits 10 d.digits

/-- How many digits stand before the point, negative when zeros follow it. -/
def Decimal.point (d : Decimal) : Int := d.text.length + d.exponent

/-- Positional notation, with at least one digit on either side of the point. -/
def Decimal.positional (d : Decimal) : List Char :=
  let ds := d.text
  let p := d.point
  if p ≤ 0 then '0' :: '.' :: (List.replicate (-p).toNat '0' ++ ds)
  else if ds.length ≤ p then ds ++ List.replicate (p - ds.length).toNat '0' ++ ['.', '0']
  else ds.take p.toNat ++ '.' :: ds.drop p.toNat

/-- Scientific notation: one digit before the point, no point without digits
after it, a signed exponent of at least two digits. -/
def Decimal.scientific (d : Decimal) : List Char :=
  let e := d.point - 1
  let magnitude := Nat.toDigits 10 e.natAbs
  let significand := match d.text with
    | [] => []
    | [c] => [c]
    | c :: cs => c :: '.' :: cs
  significand ++ 'e' :: (if e < 0 then '-' else '+') ::
    (List.replicate (2 - magnitude.length) '0' ++ magnitude)

def isNegative (x : Float) : Bool := x.toBits.toNat / Nat.pow 2 63 == 1

/-- The text of a double whose magnitude is written by `layout`. -/
def writeFloat (layout : Decimal → List Char) (x : Float) : String :=
  if x.isNaN then "nan"
  else
    let sign := if isNegative x then "-" else ""
    if x.isInf then sign ++ "inf"
    else sign ++ String.ofList (layout (Decimal.shortest x))

/-- A double in plain decimal notation, never with an exponent. -/
def plainFloat (x : Float) : String := writeFloat Decimal.positional x

/-- A double as messages show it: positional from 1e-4 up to 1e16, scientific
outside. Zero is positional. -/
def compactFloat (x : Float) : String :=
  writeFloat (fun d =>
    let e := d.point - 1
    if -4 ≤ e ∧ e < 16 then d.positional else d.scientific) x

end Formulary
