/-
  Faults: what can go wrong while a script runs.

  A fault is a cause; how it is put into words is `Fault.message` and nothing else.
-/

namespace SmallScript

/-- The statements that leave a loop body. -/
inductive Jump where
  | break
  | continue
deriving DecidableEq, Repr, Inhabited

def Jump.text : Jump → String
  | .break => "Break"
  | .continue => "Continue"

/-- Why an evaluation failed.  Types and operands are kept by the names they had at that time. -/
inductive Fault where
  | undefinedVariable (name : String)
  | undefinedProperty (name : String)
  /-- A property was added that was there already. -/
  | duplicateProperty (name : String)
  /-- A property was set that was not there. -/
  | missingProperty (name : String)
  | typeMismatch (expected actual : String)
  | unsupportedBinary (op left right : String)
  | unsupportedUnary (op operand : String)
  | arityMismatch (expected actual : Nat)
  | functionExists (name : String)
  | indexOutOfBounds (index : Int64) (length : Nat)
  | invalidRange (first last : Int)
  | undefinedEscape (c : Char)
  | invalidLiteral (sort raw : String)
  | repeatTooLong (length : Nat) (count : Int64)
  | divisionByZero
  | callDepthExceeded (limit : Nat)
  /-- A `break` or `continue` left a function body. -/
  | jumpOutsideLoop (jump : Jump)
  | custom (text : String)
deriving DecidableEq, Repr, Inhabited

namespace Fault

/-- The fault in words. -/
def message : Fault → String
  | undefinedVariable name => "Variable " ++ name ++ " is undefined."
  | undefinedProperty name => "Property " ++ name ++ " is undefined."
  | duplicateProperty name => "Property " ++ name ++ " already exists"
  | missingProperty name => "Can't set property " ++ name
  | typeMismatch expected actual => "Expected " ++ expected ++ " got " ++ actual
  | unsupportedBinary op left right =>
    "Unsupported operation " ++ op ++ " on " ++ left ++ " and " ++ right
  | unsupportedUnary op operand => "Unsupported operation " ++ op ++ " on " ++ operand
  | arityMismatch expected actual =>
    "Expected " ++ toString expected ++ " args got " ++ toString actual
  | functionExists name => "Function " ++ name ++ " already exists."
  | indexOutOfBounds index length =>
    "Index " ++ toString index.toInt ++ " out of bound 0.." ++ toString length
  | invalidRange first last => "Invalid range " ++ toString first ++ ".." ++ toString last
  | undefinedEscape c => "Undefined escape: '" ++ String.ofList [c] ++ "'"
  | invalidLiteral sort raw => "Invalid " ++ sort ++ " literal '" ++ raw ++ "'"
  | repeatTooLong length count =>
    "String of length " ++ toString length ++ " can't be repeated " ++ toString count.toInt
      ++ " times"
  | divisionByZero => "Division by zero"
  | callDepthExceeded limit => "Maximum call depth " ++ toString limit ++ " exceeded"
  | jumpOutsideLoop jump => jump.text ++ " outside loop"
  | custom text => text

end Fault

/-- How a whole run can fail: by a fault, or by a signal that nothing took up. -/
inductive RunFault where
  | fault (f : Fault)
  | returnOutsideFunction
  | jumpOutsideLoop (jump : Jump)
deriving DecidableEq, Repr, Inhabited

namespace RunFault

def message : RunFault → String
  | fault f => f.message
  | returnOutsideFunction => "Return outside function"
  | jumpOutsideLoop jump => jump.text ++ " outside loop"

/-- Whether a signal escaped, rather than a fault. -/
def isStraySignal : RunFault → Bool
  | fault _ => false
  | _ => true

/-- The report of a failed run. -/
def report (colour : String → String) (f : RunFault) : String :=
  colour (if f.isStraySignal then "control flow error" else "runtime error") ++ ": " ++ f.message

end RunFault

end SmallScript
