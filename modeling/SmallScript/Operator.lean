/-
  Operators.

  Arithmetic goes by the left operand: two integers give an integer that wraps around at 64 bits, an
  integer and a float give a float, and a string can be joined with the printed form of anything or
  repeated.  Numbers are compared as numbers and strings by their code points; everything else has
  no order.  Operators only look at the heap: where the result is a new string, its content is
  answered (`Product.text`) and the string has yet to be made.
-/
import SmallScript.Heap.Access

namespace SmallScript

/-- The result of an operation: a value, or the content of a string that is yet to be made. -/
inductive Product where
  | value (v : Value)
  | text (content : String)

instance : Inhabited Product := ⟨.value .null⟩

/-- The value of a result. -/
def Heap.make (p : Product) (h : Heap) : Value × Heap :=
  match p with
  | .value v => (v, h)
  | .text content => h.newText content

namespace Operator

/-! ## Arithmetic -/

/-- Integers wrap around; quotients are cut off toward zero, and a remainder has the sign of the
number that is divided. -/
def onInts (op : ArithOp) (a b : Int64) : Except Fault Int64 :=
  match op with
  | .add => .ok (a + b)
  | .sub => .ok (a - b)
  | .mul => .ok (a * b)
  | .div => if b = 0 then .error .divisionByZero else .ok (a / b)
  | .rem => if b = 0 then .error .divisionByZero else .ok (a % b)

def onFloats (op : ArithOp) (x y : Double) : Double :=
  match op with
  | .add => x.add y
  | .sub => x.sub y
  | .mul => x.mul y
  | .div => x.div y
  | .rem => x.rem y

/-- The longest string that a repetition may make, in bytes. -/
def longestRepetition : Nat := 2 ^ 30

/-- How many times a count asks for: no time at all if it is negative. -/
def times (count : Int64) : Nat := count.toInt.toNat?.getD 0

/-- A text several times over. -/
def repeated (s : String) (times : Nat) : String :=
  if s.isEmpty then "" else Nat.repeat (· ++ s) times ""

/-- The product of two sizes, unless it is too large for a size of 64 bits. -/
def productOfSizes? (m n : Nat) : Option Nat := if m * n < 2 ^ 64 then some (m * n) else none

/-- A repetition whose length is allowed. -/
def repetition (s : String) (count : Int64) : Except Fault Product :=
  if (productOfSizes? s.utf8ByteSize (times count)).any (· ≤ longestRepetition) then
    .ok (.text (repeated s (times count)))
  else .error (.repeatTooLong s.utf8ByteSize count)

def floatProduct (x : Double) : Except Fault Product := .ok (.value (.float x))

def arithmetic (h : Heap) (op : ArithOp) (a b : Value) : Except Fault Product :=
  match op, a, b with
  | _, .int a, .int b => (onInts op a b).map fun n => .value (.int n)
  | _, .int a, .float y => floatProduct (onFloats op (Double.ofInt64 a) y)
  | _, .float x, .int b => floatProduct (onFloats op x (Double.ofInt64 b))
  | _, .float x, .float y => floatProduct (onFloats op x y)
  | .add, .text s, v => .ok (.text (s.content ++ h.print v))
  | .mul, .text s, .int n => repetition s.content n
  | _, a, b => .error (.unsupportedBinary (BinaryOp.arith op).text (h.typeName a) (h.typeName b))

/-! ## Order and equality -/

/-- How two values compare, if they have an order: numbers with numbers and strings with strings. -/
def order? : Value → Value → Option Ordering
  | .int a, .int b => some (compare a.toInt b.toInt)
  | .int a, .float y => some (Double.order (Double.ofInt64 a) y)
  | .float x, .int b => some (Double.order x (Double.ofInt64 b))
  | .float x, .float y => some (Double.order x y)
  | .text s, .text t => some (compare s.content t.content)
  | _, _ => none

/-- Equality of the items of lists: a number equals only numbers of its kind, and whatever has an
identity equals only itself. -/
def itemEquals : Value → Value → Bool
  | .null, .null => true
  | .bool a, .bool b => a == b
  | .int a, .int b => a == b
  | .float x, .float y => x.bits == y.bits || x.eqv y
  | a, b => a.same b

/-- Equality of two sequences, item by item. -/
def itemsEqual : List Value → List Value → Bool
  | [], [] => true
  | a :: as, b :: bs => itemEquals a b && itemsEqual as bs
  | _, _ => false

/-- Equality of the language: by order where there is one, lists by their items, everything else
by content or identity. -/
def equals (h : Heap) (a b : Value) : Bool :=
  match order? a b with
  | some o => o == .eq
  | none =>
    match a, b with
    | .null, .null => true
    | .bool a, .bool b => a == b
    | .list r, .list s => r == s || itemsEqual (h.items r).toList (h.items s).toList
    | a, b => a.same b

end Operator

/-- Whether an operator's question is answered with yes. -/
def OrderOp.holds : OrderOp → Ordering → Bool
  | less, o => o.isLT
  | lessEq, o => o.isLE
  | greater, o => o.isGT
  | greaterEq, o => o.isGE

namespace Operator

/-- The result of an operator between two values. -/
def binary (h : Heap) (op : BinaryOp) (a b : Value) : Except Fault Product :=
  match op with
  | .arith op => arithmetic h op a b
  | .order question =>
    match order? a b with
    | some o => .ok (.value (.bool (question.holds o)))
    | none => .error (.unsupportedBinary op.text (h.typeName a) (h.typeName b))
  | .eq => .ok (.value (.bool (equals h a b)))
  | .notEq => .ok (.value (.bool (!equals h a b)))

/-- The result of an operator in front of a value. -/
def unary (h : Heap) (op : UnaryOp) (a : Value) : Except Fault Product :=
  match op, a with
  | .not, v => .ok (.value (.bool (!v.isTruthy)))
  | .plus, .int n => .ok (.value (.int n))
  | .plus, .float x => .ok (.value (.float x))
  | .minus, .int n => .ok (.value (.int (-n)))
  | .minus, .float x => .ok (.value (.float x.negate))
  | .plus, v => .error (.unsupportedUnary "unary +" (h.typeName v))
  | .minus, v => .error (.unsupportedUnary "unary -" (h.typeName v))

end Operator

end SmallScript
