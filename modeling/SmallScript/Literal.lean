/-
  What literals mean.

  An integer literal is a numeral in base ten, in base sixteen behind `0x`, or in base seven behind
  `0o`; it wraps around at 64 bits.  A string literal stands for the text between its quotes with
  its escapes resolved.
-/
import SmallScript.Fault
import SmallScript.Number.FloatReader

namespace SmallScript

namespace Literal

/-! ## Numerals -/

/-- The value of a digit in a base up to thirty-six. -/
def digit? (base : Nat) (c : Char) : Option Nat :=
  let d :=
    if '0' ≤ c ∧ c ≤ '9' then c.toNat - '0'.toNat
    else if 'a' ≤ c ∧ c ≤ 'z' then c.toNat - 'a'.toNat + 10
    else if 'A' ≤ c ∧ c ≤ 'Z' then c.toNat - 'A'.toNat + 10
    else base
  if d < base then some d else none

/-- The value of the numeral that goes on with these digits behind one of value `high`. -/
def valueBehind? (base high : Nat) : List Char → Option Nat
  | [] => some high
  | c :: cs => (digit? base c).bind fun d => valueBehind? base (base * high + d) cs

/-- The value of a numeral, which has at least one digit. -/
def numeral? (base : Nat) (digits : List Char) : Option Nat :=
  if digits.isEmpty then none else valueBehind? base 0 digits

/-- The base of a literal and its digits. -/
def baseAndDigits : List Char → Nat × List Char
  | '0' :: 'x' :: digits => (16, digits)
  | '0' :: 'o' :: digits => (7, digits)
  | digits => (10, digits)

/-- The integer that a literal denotes. -/
def int (raw : String) : Except Fault Int64 :=
  let (base, digits) := baseAndDigits raw.toList
  match numeral? base digits with
  | some n => .ok (Int64.ofNat n)
  | none => .error (.invalidLiteral "int" raw)

/-- The floating-point number that a literal denotes. -/
def float (raw : String) : Except Fault Double :=
  match Double.ofText? raw with
  | some x => .ok x
  | none => .error (.invalidLiteral "float" raw)

/-! ## Strings -/

/-- The character that is meant by one behind a backslash. -/
def escaped? : Char → Option Char
  | '\\' => some '\\'
  | '"' => some '"'
  | 'r' => some '\r'
  | 'n' => some '\n'
  | 't' => some '\t'
  | 'b' => some '\x08'
  | _ => none

/-- A text with its escapes resolved.  A backslash that nothing follows stands for nothing. -/
def resolve : List Char → Except Fault (List Char)
  | [] => .ok []
  | ['\\'] => .ok []
  | '\\' :: c :: rest =>
    match escaped? c with
    | some d => (resolve rest).map (d :: ·)
    | none => .error (.undefinedEscape c)
  | c :: rest => (resolve rest).map (c :: ·)

/-- What stands between two quotes; everything if it is not quoted at both ends. -/
def unquoted (raw : List Char) : List Char :=
  match raw with
  | '"' :: rest => if rest.getLast? = some '"' then rest.dropLast else raw
  | _ => raw

/-- The text that a string literal denotes. -/
def text (raw : String) : Except Fault String :=
  (resolve (unquoted raw.toList)).map String.ofList

end Literal

end SmallScript
