/-
  The console: lines written to two outputs, and words read from an input.

  An input serves the words of a text one by one.  It can hold the words themselves, or the lines
  that have not been looked at yet and what is left of the words of the last one; either way the
  same words come out.
-/
import SmallScript.Text.Blank

namespace SmallScript

/-- The lines of a text, each with the newline that ends it; `line` is the beginning of the first,
last character first. -/
def linesBehind (line : List Char) : List Char → List (List Char)
  | [] => if line.isEmpty then [] else [line.reverse]
  | c :: cs =>
    if c = '\n' then (c :: line).reverse :: linesBehind [] cs else linesBehind (c :: line) cs

/-- The lines of a text make up the text. -/
theorem flatten_linesBehind (line cs : List Char) :
    (linesBehind line cs).flatten = line.reverse ++ cs := by
  fun_induction linesBehind line cs <;> simp_all

/-- Words that are still to be read. -/
inductive Input where
  | words (rest : List String)
  /-- Words are left of the last line that was read; `unread` are the lines behind it. -/
  | lines (left : List String) (unread : List String)
deriving DecidableEq, Repr

namespace Input

instance : Inhabited Input := ⟨.words []⟩

/-- An input that looks at the whole text at once. -/
def ofText (s : String) : Input := words (wordsOf s)

/-- An input that looks at a text line by line. -/
def ofLines (s : String) : Input := lines [] ((linesBehind [] s.toList).map String.ofList)

/-- The next word when no word is left of the last line: lines are read until one has a word. -/
def nextFrom : List String → Option String × Input
  | [] => (none, lines [] [])
  | line :: unread =>
    match wordsOf line with
    | [] => nextFrom unread
    | w :: left => (some w, lines left unread)

/-- The next word, if there is one, and the input behind it. -/
def next : Input → Option String × Input
  | words [] => (none, words [])
  | words (w :: rest) => (some w, words rest)
  | lines (w :: left) unread => (some w, lines left unread)
  | lines [] unread => nextFrom unread

end Input

structure Console where
  /-- The lines written to the output and to the error output. -/
  out : Array String := #[]
  err : Array String := #[]
  input : Input := default
deriving DecidableEq, Repr, Inhabited

namespace Console

def print (line : String) (c : Console) : Console := { c with out := c.out.push line }

def eprint (line : String) (c : Console) : Console := { c with err := c.err.push line }

/-- Read a word. -/
def read (c : Console) : Option String × Console :=
  let (word, input) := c.input.next
  (word, { c with input })

end Console

/-- Lines as they are written, each with a newline behind it. -/
def writtenLines (lines : List String) : String := String.join (lines.map (· ++ "\n"))

end SmallScript
