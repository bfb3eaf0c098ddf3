/-
  A named text and its lines.

  A line is a piece between two line feeds; carriage returns at its end do not belong to it.
  `Document.line?` counts lines from one, as places do.
-/
import SmallScript.Source.Span

namespace SmallScript

/-- The pieces of a text between its line feeds; there is always one more than line feeds. -/
def piecesOf (cs : List Char) : List (List Char) :=
  cs.foldr
    (fun c pieces =>
      if c = '\n' then [] :: pieces
      else match pieces with
        | [] => [[c]]
        | p :: ps => (c :: p) :: ps)
    [[]]

/-- A piece without the carriage returns at its end. -/
def trimReturns (cs : List Char) : List Char := (cs.reverse.dropWhile (· == '\r')).reverse

/-- The lines of a text, in order. -/
def linesOf (text : String) : Array String :=
  ((piecesOf text.toList).map fun piece => String.ofList (trimReturns piece)).toArray

/-- A script's text with the name it is reported under. -/
structure Document where
  name : String
  text : String
  /-- The lines of the text, kept because every report quotes one. -/
  lines : Array String := linesOf text
  lines_eq : lines = linesOf text := by rfl

namespace Document

/-- Line `n`, counted from one. -/
def line? (d : Document) (n : Nat) : Option String :=
  if n = 0 then none else d.lines[n - 1]?

/-- Line `n`, or nothing where the document has no such line. -/
def line (d : Document) (n : Nat) : String := (d.line? n).getD ""

def lineCount (d : Document) : Nat := d.lines.size

end Document

theorem piecesOf_ne_nil (cs : List Char) : piecesOf cs ≠ [] := by
  cases cs with
  | nil => simp [piecesOf]
  | cons c cs =>
    simp only [piecesOf, List.foldr_cons]
    split
    · simp
    · split <;> simp

@[simp] theorem piecesOf_newline (cs : List Char) :
    piecesOf ('\n' :: cs) = [] :: piecesOf cs := by
  simp [piecesOf]

end SmallScript
