/-
  Double-precision numbers, held as their 64 bits.

  A `Double` is a sign and a magnitude.  Magnitudes below `infinity` are the finite numbers in
  increasing order, `infinity` itself is infinite, and everything above it is not a number.
  Holding the bits keeps the payload of a not-a-number, which equality of lists can see, and makes
  the order of numbers an order of integers (`Double.rank`).
-/

namespace SmallScript

-- Powers are those of the core library, also where others are known, so that what is written here
-- means the same everywhere.
attribute [instance (high), default_instance (high + 1)] instPowNat

/-- A double-precision number by its bits. -/
structure Double where
  bits : UInt64
deriving DecidableEq, Repr, Inhabited, Hashable

namespace Double

/-- The magnitude of the infinite numbers. -/
def infinityMagnitude : Nat := 0x7FF0000000000000

/-- The bit of the sign. -/
def signBit : Nat := 0x8000000000000000

/-- The number with a sign and a magnitude. -/
def ofParts (negative : Bool) (magnitude : Nat) : Double :=
  ⟨UInt64.ofNat (if negative then signBit + magnitude else magnitude)⟩

def isNegative (x : Double) : Bool := decide (signBit ≤ x.bits.toNat)

/-- The bits without the sign. -/
def magnitude (x : Double) : Nat := x.bits.toNat % signBit

def isNaN (x : Double) : Bool := decide (infinityMagnitude < x.magnitude)
def isInfinite (x : Double) : Bool := decide (x.magnitude = infinityMagnitude)
def isFinite (x : Double) : Bool := decide (x.magnitude < infinityMagnitude)
def isZero (x : Double) : Bool := decide (x.magnitude = 0)

def infinity (negative : Bool) : Double := ofParts negative infinityMagnitude
def zero (negative : Bool) : Double := ofParts negative 0

/-- The not-a-number that is written `NaN`. -/
def nan : Double := ⟨0x7FF8000000000000⟩

/-- The not-a-number that an operation without a result yields. -/
def invalid : Double := ⟨0xFFF8000000000000⟩

/-- A not-a-number as it leaves an operation: its quiet bit is set. -/
def quiet (x : Double) : Double := ⟨x.bits ||| 0x0008000000000000⟩

/-- Whether an operation on this not-a-number is to be noticed: its quiet bit is not yet set. -/
def isSignalling (x : Double) : Bool := x.isNaN && x != x.quiet

/-- The number without its sign, whatever it is. -/
def abs (x : Double) : Double := ofParts false x.magnitude

/-- The number with its sign changed, whatever it is. -/
def negate (x : Double) : Double := ⟨x.bits ^^^ 0x8000000000000000⟩

/-! ## Order -/

/-- The place of a number among all numbers; a negative zero comes right before the positive. -/
def rank (x : Double) : Int := if x.isNegative then -(x.magnitude : Int) - 1 else x.magnitude

/-- The total order: by rank, with every not-a-number equal to every other and above the rest. -/
def order (a b : Double) : Ordering :=
  if a.isNaN then if b.isNaN then .eq else .gt
  else if b.isNaN then .lt
  else compare a.rank b.rank

/-- Numeric equality: the zeros are equal, and a not-a-number differs even from itself. -/
def eqv (a b : Double) : Bool :=
  !a.isNaN && !b.isNaN && (a.bits == b.bits || (a.isZero && b.isZero))

/-- Numeric order of two numbers. -/
def atMost (a b : Double) : Bool := a.eqv b || (order a b).isLT

/-! ## The value of a finite number -/

/-- The biased exponent. -/
def exponentField (x : Double) : Nat := x.magnitude / 2 ^ 52

/-- A finite number is `significand * 2 ^ exponent`, up to its sign. -/
def significand (x : Double) : Nat :=
  if x.exponentField = 0 then x.magnitude else 2 ^ 52 + x.magnitude % 2 ^ 52

def exponent (x : Double) : Int :=
  if x.exponentField = 0 then -1074 else (x.exponentField : Int) - 1075

/-- The value of a finite number without its sign, as a fraction. -/
def fraction (x : Double) : Nat × Nat :=
  let q := x.exponent
  if 0 ≤ q then (x.significand * 2 ^ q.toNat, 1) else (x.significand, 2 ^ (-q).toNat)

/-- The whole part of a finite number, without its sign. -/
def wholePart (x : Double) : Nat := x.fraction.1 / x.fraction.2

end Double

end SmallScript
