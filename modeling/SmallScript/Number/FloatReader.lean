/-
  Reading numbers.

  A number is an optional sign and then either a word for infinity or for not-a-number, in any
  case, or digits with at most one point among or beside them and perhaps an exponent.  There is
  at least one digit before the exponent, and at least one in it.
-/
import SmallScript.Number.Rounding

namespace SmallScript

/-- The value of a list of digits. -/
def digitsValue (digits : List Char) : Nat :=
  digits.foldl (fun n c => 10 * n + (c.toNat - 48)) 0

namespace Double

/-- A sign, which is positive where none is written, and what follows it. -/
def readSign : List Char → Bool × List Char
  | '-' :: rest => (true, rest)
  | '+' :: rest => (false, rest)
  | cs => (false, cs)

/-- The value of the digits of an exponent.  Once it has reached `2 ^ 16` no further digit counts,
so that its size is bounded whatever the length of the text. -/
def exponentValue (digits : List Char) : Nat :=
  digits.foldl (fun n c => if n < 2 ^ 16 then 10 * n + (c.toNat - 48) else n) 0

/-- The exponent behind a mantissa; zero if there is nothing. -/
def readExponent? : List Char → Option Int
  | [] => some 0
  | c :: rest =>
    if c == 'e' || c == 'E' then
      let (negative, digits) := readSign rest
      if digits.isEmpty || !digits.all Char.isDigit then none
      else
        let n := exponentValue digits
        some (if negative then -(n : Int) else n)
    else none

/-- The magnitude of an unsigned decimal number. -/
def readDecimal? (cs : List Char) : Option Nat :=
  let whole := cs.takeWhile Char.isDigit
  let rest := cs.dropWhile Char.isDigit
  let (fraction, rest) :=
    match rest with
    | '.' :: rest => (rest.takeWhile Char.isDigit, rest.dropWhile Char.isDigit)
    | _ => ([], rest)
  if whole.isEmpty && fraction.isEmpty then none
  else
    (readExponent? rest).map fun e =>
      nearestDecimal (digitsValue (whole ++ fraction)) (e - fraction.length)

/-- The number that a text denotes. -/
def ofText? (s : String) : Option Double :=
  let (negative, cs) := readSign s.toList
  let word := cs.map Char.toLower
  if word = "inf".toList || word = "infinity".toList then some (infinity negative)
  else if word = "nan".toList then some (if negative then nan.negate else nan)
  else (readDecimal? cs).map (ofParts negative)

end Double

end SmallScript
