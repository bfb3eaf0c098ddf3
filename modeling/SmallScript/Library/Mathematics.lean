/-
  The functions of `math`.

  The extremes of two integers are integers; everything else answers a float.  Rounding to a whole
  number insists on a float.
-/
import SmallScript.Method.Text

namespace SmallScript

namespace MathFunction

/-- The extreme of two values, by one rule for integers and one for floats. -/
def extreme (h : Heap) (ints : Int64 → Int64 → Int64) (floats : Double → Double → Double) :
    Value → Value → Except Fault Value
  | .int a, .int b => .ok (.int (ints a b))
  | a, b => do
    let x ← h.expectNumber a
    let y ← h.expectNumber b
    .ok (.float (floats x y))

def greaterInt (a b : Int64) : Int64 := if a.toInt ≤ b.toInt then b else a

def lesserInt (a b : Int64) : Int64 := if a.toInt ≤ b.toInt then a else b

/-- The functions of one number, as the machine computes them.  Outside their domains the inverse
functions and the decimal logarithm answer the plain not-a-number, the others the one of an invalid
operation. -/
def ofNumber? : MathFunction → Option (Double → Double)
  | sqrt => some (Double.lift .invalid Float.sqrt)
  | sin => some (Double.lift .invalid Float.sin)
  | cos => some (Double.lift .invalid Float.cos)
  | tan => some (Double.lift .invalid Float.tan)
  | asin => some (Double.lift .nan Float.asin)
  | acos => some (Double.lift .nan Float.acos)
  | atan => some (Double.lift .invalid Float.atan)
  | log => some (Double.lift .invalid Float.log)
  | log10 => some (Double.lift .nan Float.log10)
  | max | min | floor | ceil | pow => none

/-- What a function of `math` answers. -/
def apply (h : Heap) (f : MathFunction) (args : List Value) : Except Fault Value :=
  match f, args with
  | max, [a, b] => extreme h greaterInt Double.greater a b
  | min, [a, b] => extreme h lesserInt Double.lesser a b
  | floor, [a] => (h.expectFloat a).map fun x => .float x.floor
  | ceil, [a] => (h.expectFloat a).map fun x => .float x.ceil
  | pow, [a, b] => do
    let x ← h.expectNumber a
    let y ← h.expectNumber b
    .ok (.float (x.pow y))
  | f, args =>
    match f.ofNumber?, args with
    | some g, [a] => (h.expectNumber a).map fun x => .float (g x)
    | _, _ => wrongCount f.params args

end MathFunction

end SmallScript
