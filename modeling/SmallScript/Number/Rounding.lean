/-
  Rounding fractions to double precision.

  The nearest double-precision number is found exactly: scale the fraction so that its whole part
  has 53 bits (or fewer, at the lower end), then round that to the nearest whole number, ties to
  the even one.  A carry runs into the exponent by itself, since the magnitudes of consecutive
  numbers are consecutive.
-/
import SmallScript.Number.Double

namespace SmallScript

/-- `num / den` to the nearest whole number, a tie to the even one. -/
def roundDiv (num den : Nat) : Nat :=
  let q := num / den
  let r := num % den
  if 2 * r < den then q
  else if den < 2 * r then q + 1
  else if q % 2 = 0 then q else q + 1

namespace Double

/-- The exponent of the highest power of two that is not above the fraction `num / den`. -/
def binaryExponent (num den : Nat) : Int :=
  let e : Int := (num.log2 : Int) - den.log2
  let reaches :=
    if 0 ≤ e then decide (den * 2 ^ e.toNat ≤ num) else decide (den ≤ num * 2 ^ (-e).toNat)
  if reaches then e else e - 1

/-- The magnitude nearest to `num / den`. -/
def nearest (num den : Nat) : Nat :=
  if num = 0 then 0
  else
    let q := max (binaryExponent num den - 52) (-1074)
    let m := if 0 ≤ q then roundDiv num (den * 2 ^ q.toNat) else roundDiv (num * 2 ^ (-q).toNat) den
    min infinityMagnitude ((q + 1074).toNat * 2 ^ 52 + m)

/-- The magnitude nearest to `coefficient * 10 ^ exponent`.  Exponents beyond all magnitudes are
answered without computing their powers. -/
def nearestDecimal (coefficient : Nat) (exponent : Int) : Nat :=
  if coefficient = 0 then 0
  else if 400 < exponent then infinityMagnitude
  else if 0 ≤ exponent then nearest (coefficient * 10 ^ exponent.toNat) 1
  else if exponent < -((401 + coefficient.log2 : Nat) : Int) then 0
  else nearest coefficient (10 ^ (-exponent).toNat)

/-- The number nearest to a whole number. -/
def ofInt (n : Int) : Double := ofParts (decide (n < 0)) (nearest n.natAbs 1)

end Double

end SmallScript
