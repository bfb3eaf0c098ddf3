/-
  Diagnostics: what is wrong with a script's text, and where.

  A diagnostic quotes the line it points into, so that it can be shown without the document.
-/
import SmallScript.Source.Document

namespace SmallScript

/-- The number that names a kind of diagnostic. -/
structure Code where
  number : Nat
deriving DecidableEq, Repr, Inhabited

namespace Code

def unexpectedToken : Code := ⟨100⟩
def unexpectedCharacter : Code := ⟨101⟩
def unterminatedString : Code := ⟨102⟩
def unterminatedComment : Code := ⟨103⟩
def malformedNumber : Code := ⟨104⟩
def invalidTarget : Code := ⟨105⟩
def chainedComparison : Code := ⟨106⟩
def nestingTooDeep : Code := ⟨107⟩

/-- Codes are written with a leading `E`. -/
def text (c : Code) : String := "E" ++ toString c.number

end Code

/-- One complaint about a script's text. -/
structure Diagnostic where
  file : String
  code : Code
  message : String
  span : Span
  /-- The line on which the span begins. -/
  sourceLine : String
  /-- What the writer of the script might do instead. -/
  suggestion : Option String := none
deriving DecidableEq, Repr, Inhabited

namespace Diagnostic

/-- A diagnostic about `span` in `doc`, with the line it begins on. -/
def about (doc : Document) (code : Code) (message : String) (span : Span)
    (suggestion : Option String) : Diagnostic where
  file := doc.name
  code := code
  message := message
  span := span
  sourceLine := doc.line span.first.line
  suggestion := suggestion

/-- The diagnostic on one line. -/
def text (d : Diagnostic) : String := d.span.text ++ ": " ++ d.code.text ++ " " ++ d.message

end Diagnostic

end SmallScript
