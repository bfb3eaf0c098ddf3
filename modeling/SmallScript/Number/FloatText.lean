/-
  How numbers are written.

  The shortest decimal of a number is written in one of two notations: with all its digits around
  the point (`Double.decimalText`), or with a mantissa and an exponent (`Double.exponentText`).  In
  both there is a point only if there are digits behind it.  The language chooses between them by the
  leading exponent, and then sees to it that what it writes has a point (`withPoint`,
  `withMantissaPoint`).
-/
import SmallScript.Number.Shortest

namespace SmallScript

/-- The decisions of a way to write numbers. -/
structure FloatLayout where
  /-- The least and the greatest leading exponent that is written positionally. -/
  least : Int
  greatest : Int
  /-- Whether a mantissa of one digit takes a point and a zero. -/
  fullMantissa : Bool
  infinity : String

namespace FloatLayout

/-- The language's own way: positional from a thousandth up to ten million. -/
def printed : FloatLayout := ⟨-3, 6, true, "Infinity"⟩

/-- The way of inspected values: positional from a ten-thousandth up to ten quadrillion. -/
def inspected : FloatLayout := ⟨-4, 15, false, "inf"⟩

end FloatLayout

/-! ## The two notations -/

/-- Digits behind a point, if there are any. -/
def fractionText (digits : List Char) : List Char :=
  if digits.isEmpty then [] else '.' :: digits

/-- Digits with the point where the leading exponent puts it. -/
def positional (digits : List Char) (leading : Int) : List Char :=
  if leading < 0 then
    '0' :: '.' :: (List.replicate ((-leading).toNat - 1) '0' ++ digits)
  else
    let whole := leading.toNat + 1
    digits.take whole ++ List.replicate (whole - digits.length) '0'
      ++ fractionText (digits.drop whole)

/-- The first digit, the others behind a point, and the exponent. -/
def scientific (digits : List Char) (leading : Int) : List Char :=
  digits.take 1 ++ fractionText (digits.drop 1) ++ 'e' :: (toString leading).toList

namespace Double

/-- The sign of a number as it is written. -/
def signText (x : Double) : List Char := if x.isNegative then ['-'] else []

/-- A finite number other than zero, with all its digits around the point. -/
def decimalText (x : Double) : List Char :=
  x.signText ++ positional x.shortest.digits x.shortest.leadingExponent

/-- A finite number other than zero, with a mantissa and an exponent. -/
def exponentText (x : Double) : List Char :=
  x.signText ++ scientific x.shortest.digits x.shortest.leadingExponent

end Double

/-! ## Points -/

/-- A text without a point takes one, with a zero behind it. -/
def withPoint (text : List Char) : List Char :=
  if '.' ∈ text then text else text ++ ['.', '0']

/-- A mantissa without a point takes one, with a zero between it and the exponent. -/
def withMantissaPoint (text : List Char) : List Char :=
  let mantissa := text.takeWhile (· != 'e')
  let exponent := text.dropWhile (· != 'e')
  if exponent.isEmpty ∨ '.' ∈ mantissa then text else mantissa ++ ['.', '0'] ++ exponent

/-- The text of a number. -/
def FloatLayout.text (layout : FloatLayout) (x : Double) : String :=
  if x.isNaN then "NaN"
  else
    let sign := String.ofList x.signText
    if x.isInfinite then sign ++ layout.infinity
    else if x.isZero then sign ++ "0.0"
    else
      let leading := x.shortest.leadingExponent
      String.ofList <|
        if layout.least ≤ leading ∧ leading ≤ layout.greatest then withPoint x.decimalText
        else if layout.fullMantissa then withMantissaPoint x.exponentText
        else x.exponentText

/-- A number as the language writes it. -/
def Double.text (x : Double) : String := FloatLayout.printed.text x

end SmallScript
