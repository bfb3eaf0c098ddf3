/-
  Conversions between numbers and texts.

  A text that is no number is converted to null; what is neither a number nor a text is a fault.
-/
import SmallScript.Literal
import SmallScript.Operator
import SmallScript.Text.Blank

namespace SmallScript

namespace Conversion

/-- The integer that a text is: an optional sign and decimal digits, within 64 bits. -/
def integer? (s : String) : Option Int64 :=
  let (negative, digits) := Double.readSign s.toList
  (Literal.numeral? 10 digits).bind fun n =>
    let i : Int := if negative then -n else n
    if -(2 ^ 63) ≤ i ∧ i < 2 ^ 63 then some (Int64.ofInt i) else none

/-- The number that a text is, white space around it apart. -/
def number? (s : String) : Option Double :=
  Double.ofText? (String.ofList (trimWhiteSpace s.toList))

/-- As an integer; a float is cut off toward zero. -/
def toInt (h : Heap) : Value → Except Fault Value
  | .int n => .ok (.int n)
  | .float x => .ok (.int x.toInt64)
  | .text t => .ok (((integer? t.content).map Value.int).getD .null)
  | v => .error (h.unexpected "num|str" v)

/-- As a float. -/
def toFloat (h : Heap) : Value → Except Fault Value
  | .float x => .ok (.float x)
  | .int n => .ok (.float (Double.ofInt64 n))
  | .text t => .ok (((number? t.content).map Value.float).getD .null)
  | v => .error (h.unexpected "num|str" v)

end Conversion

end SmallScript
