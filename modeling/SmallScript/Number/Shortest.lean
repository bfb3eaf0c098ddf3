/-
  The shortest decimal that reads back as a given number.

  For one digit, two digits, and so on, the two neighbours of the number among the decimals with
  so many digits are tried; the first count with a neighbour that reads back wins, of two such
  neighbours the nearer, and of two equally near ones the upper.  Seventeen digits always suffice;
  should they not, the exact value is written out, which reads back in any case.
-/
import SmallScript.Number.Rounding

namespace SmallScript

/-- The number `coefficient * 10 ^ exponent`. -/
structure Decimal where
  coefficient : Nat
  exponent : Int
deriving DecidableEq, Repr, Inhabited

namespace Decimal

/-- How many digits a number is written with; none for zero. -/
def digitCount (n : Nat) : Nat := if n = 0 then 0 else (Nat.toDigits 10 n).length

/-- The digits of the coefficient without the zeros at its end. -/
def digits (d : Decimal) : List Char :=
  ((Nat.toDigits 10 d.coefficient).reverse.dropWhile (· == '0')).reverse

/-- The exponent of the first digit. -/
def leadingExponent (d : Decimal) : Int := d.exponent + digitCount d.coefficient - 1

end Decimal

namespace Double

/-- The exponent of the highest power of ten that is not above the fraction `num / den`. -/
def decimalExponent (num den : Nat) : Int :=
  if den ≤ num then (Decimal.digitCount (num / den) : Int) - 1
  else -(Decimal.digitCount ((den - 1) / num) : Int)

/-- The better of the two decimals with last digit at `exponent` that enclose `num / den`, if one
of them reads back as `magnitude`. -/
def neighbour? (magnitude num den : Nat) (exponent : Int) : Option Decimal :=
  let num := if exponent < 0 then num * 10 ^ (-exponent).toNat else num
  let den := if exponent < 0 then den else den * 10 ^ exponent.toNat
  let below := num / den
  let readsBack (c : Nat) : Bool := nearestDecimal c exponent == magnitude
  if readsBack below then
    if readsBack (below + 1) && decide (den ≤ 2 * (num % den)) then some ⟨below + 1, exponent⟩
    else some ⟨below, exponent⟩
  else if readsBack (below + 1) then some ⟨below + 1, exponent⟩
  else none

/-- The exact value of the fraction `num / 2 ^ k`. -/
def exactDecimal (num k : Nat) : Decimal := ⟨num * 5 ^ k, -(k : Int)⟩

/-- Try digit counts from `count` on, `more` of them. -/
def shortestFrom (magnitude num den : Nat) (leading : Int) : Nat → Nat → Decimal
  | _, 0 => exactDecimal num den.log2
  | count, more + 1 =>
    match neighbour? magnitude num den (leading - count + 1) with
    | some d => d
    | none => shortestFrom magnitude num den leading (count + 1) more

/-- The shortest decimal that reads back as the magnitude of a finite number. -/
def shortest (x : Double) : Decimal :=
  let (num, den) := x.fraction
  if num = 0 then ⟨0, 0⟩
  else shortestFrom x.magnitude num den (decimalExponent num den) 1 17

end Double

end SmallScript
