/-
  White space between words, for input and conversions.

  This is the white space of any script of the world; between the tokens of a program only four
  characters count as blank (`Lexeme.isBlank`).
-/
import SmallScript.Text.ClassTable

namespace SmallScript

def isWhiteSpace (c : Char) : Bool := ClassTable.holds ClassTable.blank c.toNat

/-- A text without the white space at its ends. -/
def trimWhiteSpace (cs : List Char) : List Char :=
  ((cs.dropWhile isWhiteSpace).reverse.dropWhile isWhiteSpace).reverse

/-- The words of a text, `word` being the beginning of the first, last character first. -/
def wordsFrom (word : List Char) : List Char → List (List Char)
  | [] => if word.isEmpty then [] else [word.reverse]
  | c :: cs =>
    if isWhiteSpace c then
      if word.isEmpty then wordsFrom [] cs else word.reverse :: wordsFrom [] cs
    else wordsFrom (c :: word) cs

/-- The words of a text: its longest runs of characters that are not white space. -/
def wordsOf (s : String) : List String := (wordsFrom [] s.toList).map String.ofList

end SmallScript
