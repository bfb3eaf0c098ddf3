/-
  Arithmetic on double-precision numbers.

  Sums, products and the elementary functions are those of the machine's floating-point unit;
  what is added here is which not-a-number comes out.  Remainders and whole parts are computed
  exactly.
-/
import SmallScript.Number.Rounding

namespace SmallScript

namespace Double

def toFloat (x : Double) : Float := Float.ofBits x.bits

/-- What an operation without a result answers: the first operand that is not a number passes
through; where all operands are numbers, `failed` marks the failure. -/
def unresolved (failed : Double) (operands : List Double) : Double :=
  match operands.find? isNaN with
  | some x => x.quiet
  | none => failed

/-- The result `r` of an operation on `operands`, if it has one. -/
def settle (failed : Double) (operands : List Double) (r : Float) : Double :=
  if r.isNaN then unresolved failed operands else ⟨r.toBits⟩

/-- A function of one number; `failed` is its answer outside its domain. -/
def lift (failed : Double) (f : Float → Float) (x : Double) : Double :=
  settle failed [x] (f x.toFloat)

/-- A function of two numbers; `failed` is its answer outside its domain. -/
def liftTwo (failed : Double) (f : Float → Float → Float) (x y : Double) : Double :=
  settle failed [x, y] (f x.toFloat y.toFloat)

def add : Double → Double → Double := liftTwo invalid (· + ·)
def sub : Double → Double → Double := liftTwo invalid (· - ·)
def mul : Double → Double → Double := liftTwo invalid (· * ·)
def div : Double → Double → Double := liftTwo invalid (· / ·)

/-- The whole number that `f` rounds to.  What is not a number stays as it is, to the last bit. -/
def roundBy (f : Float → Float) (x : Double) : Double :=
  if x.isNaN then x else ⟨(f x.toFloat).toBits⟩

def floor : Double → Double := roundBy Float.floor
def ceil : Double → Double := roundBy Float.ceil

/-- Whether a number is whole and odd. -/
def isOdd (x : Double) : Bool :=
  let (n, d) := x.fraction
  n % d == 0 && n / d % 2 == 1

/-- `x` to the power of `y`.  What is not a number loses its sign in an odd power.  Everything has
one for its zeroth power, and one has no other powers, unless an operand is signalling. -/
def pow (x y : Double) : Double :=
  if x.isNaN && y.isOdd then x.abs.quiet
  else if x.isSignalling || y.isSignalling then unresolved invalid [x, y]
  else liftTwo invalid Float.pow x y

/-- What is left of `x` when `y` has been taken off as often as it goes, with the sign of `x`. -/
def rem (x y : Double) : Double :=
  if x.isNaN || y.isNaN || x.isInfinite || y.isZero then unresolved invalid [x, y]
  else if y.isInfinite then x
  else
    let q := min x.exponent y.exponent
    let a := x.significand * 2 ^ (x.exponent - q).toNat
    let b := y.significand * 2 ^ (y.exponent - q).toNat
    let r := a % b
    ofParts x.isNegative
      (if 0 ≤ q then nearest (r * 2 ^ q.toNat) 1 else nearest r (2 ^ (-q).toNat))

/-- The greater of two numbers, the second if they are equal; not a number if one of them is not. -/
def greater (x y : Double) : Double :=
  if x.isNaN || y.isNaN then nan else if x.atMost y then y else x

/-- The lesser of two numbers, the second if they are equal; not a number if one of them is not. -/
def lesser (x y : Double) : Double :=
  if x.isNaN || y.isNaN then nan else if y.atMost x then y else x

/-- The number cut off toward zero and kept within 64 bits; zero for what is not a number. -/
def toInt64 (x : Double) : Int64 :=
  if x.isNaN then 0
  else if x.isInfinite then if x.isNegative then Int64.minValue else Int64.maxValue
  else
    let n := x.wholePart
    if x.isNegative then
      if 2 ^ 63 ≤ n then Int64.minValue else Int64.ofInt (-(n : Int))
    else
      if 2 ^ 63 ≤ n then Int64.maxValue else Int64.ofInt n

/-- A 64-bit integer as a number. -/
def ofInt64 (n : Int64) : Double := ofInt n.toInt

end Double

end SmallScript
