/-
  The cursor of a tree reader, and the steps a reader is made of.

  A cursor stands before its current token; the token list of a text never runs out, since its
  last token is never passed.  A `Reading` is a step that moves the cursor and either yields a
  result or gives up.  A reading that gives up has logged why, and leaves the cursor where it
  noticed.  Three things are counted along the way: the next node number, the depth of nesting
  and, in the log, the diagnostics.
-/
import SmallScript.Diagnostic.Log
import SmallScript.Token
import SmallScript.Tree

namespace SmallScript

/-- Where a reader of a token list stands, and what it has counted so far. -/
structure Cursor where
  doc : Document
  current : Token
  /-- The tokens behind the current one. -/
  later : List Token
  /-- The span of the token read last. -/
  previous : Span := Span.point Place.start
  log : Log := Log.empty
  nextId : NodeId := 0
  /-- How many statements, expressions and operands of prefix operators are open. -/
  depth : Nat := 0

namespace Cursor

/-- How deep statements, expressions and operands of prefix operators may nest. -/
def maxDepth : Nat := 128

/-- A cursor before the first of `tokens`; an empty list is read as the end of an empty text. -/
def ofTokens (doc : Document) : List Token → Cursor
  | [] => { doc, current := ⟨.eof, Span.point Place.start⟩, later := [] }
  | t :: ts => { doc, current := t, later := ts }

def kind (c : Cursor) : Kind := c.current.kind

/-- The kind behind the current token. -/
def nextKind (c : Cursor) : Kind :=
  match c.later with
  | [] => .eof
  | t :: _ => t.kind

def atEnd (c : Cursor) : Bool := c.kind == .eof

/-- How many loops over tokens can still be worth taking. -/
def turns (c : Cursor) : Nat := c.later.length + 1

/-- The cursor behind its current token, unless that is the last one. -/
def advance (c : Cursor) : Cursor :=
  match c.later with
  | [] => { c with previous := c.current.span }
  | t :: ts => { c with current := t, later := ts, previous := c.current.span }

/-- Log a complaint about a span. -/
def complain (c : Cursor) (code : Code) (message : String) (span : Span)
    (suggestion : Option String) : Cursor :=
  { c with log := c.log.push (Diagnostic.about c.doc code message span suggestion) }

/-- Log a complaint about the current token. -/
def complainHere (c : Cursor) (code : Code) (message : String) : Cursor :=
  c.complain code message c.current.span none

end Cursor

/-- A step of a reader. -/
def Reading (α : Type) : Type := Cursor → Option α × Cursor

namespace Reading

@[inline] protected def pure {α : Type} (x : α) : Reading α := fun c => (some x, c)

@[inline] protected def bind {α β : Type} (m : Reading α) (f : α → Reading β) : Reading β :=
  fun c =>
    match m c with
    | (some x, c) => f x c
    | (none, c) => (none, c)

instance : Monad Reading where
  pure := Reading.pure
  bind := Reading.bind

/-- Look at the cursor. -/
@[inline] def look {α : Type} (f : Cursor → α) : Reading α := fun c => (some (f c), c)

/-- Move the cursor. -/
@[inline] def move (f : Cursor → Cursor) : Reading Unit := fun c => (some (), f c)

/-- Give up. -/
@[inline] def fail {α : Type} : Reading α := fun c => (none, c)

/-- Give up with a complaint about the current token. -/
def refuse {α : Type} (code : Code) (message : Kind → String) : Reading α :=
  fun c => (none, c.complainHere code (message c.kind))

/-- Read one token, whatever it is. -/
def token : Reading Token := fun c => (some c.current, c.advance)

/-- Read one token for its span. -/
def tokenSpan : Reading Span := fun c => (some c.current.span, c.advance)

/-- Read the symbol `s` if it comes next, and tell whether it did. -/
def eat (s : Symbol) : Reading Bool := fun c =>
  if c.kind = .symbol s then (some true, c.advance) else (some false, c)

/-- Read the word `k` if it comes next, and tell whether it did. -/
def eatKeyword (k : Keyword) : Reading Bool := fun c =>
  if c.kind = .keyword k then (some true, c.advance) else (some false, c)

/-- Whether the symbol `s` comes next. -/
def at? (s : Symbol) : Reading Bool := look fun c => decide (c.kind = .symbol s)

/-- Read the symbol `s`. -/
def expect (s : Symbol) : Reading Unit := fun c =>
  if c.kind = .symbol s then (some (), c.advance)
  else
    (none, c.complainHere .unexpectedToken
      ("expected '" ++ s.text ++ "', got '" ++ c.kind.text ++ "'"))

/-- Read the semicolon that ends a statement. -/
def endStatement : Reading Unit := fun c =>
  if c.kind = .symbol .semicolon then (some (), c.advance)
  else
    (none, c.complain .unexpectedToken ("expected ';', got '" ++ c.kind.text ++ "'")
      c.current.span (some "end the statement with ';'"))

/-- Read a name; a reserved word is no name. -/
def identifier : Reading Ident := fun c =>
  match c.kind with
  | .identifier name => (some ⟨name, c.current.span⟩, c.advance)
  | .keyword k =>
    (none, c.complainHere .unexpectedToken
      ("'" ++ k.text ++ "' is a reserved word and cannot be used as a name"))
  | kind =>
    (none, c.complainHere .unexpectedToken
      ("expected identifier, got '" ++ kind.text ++ "'"))

/-- The number of a new node. -/
def freshId : Reading NodeId := fun c => (some c.nextId, { c with nextId := c.nextId + 1 })

/-- The span of the token read last. -/
def previous : Reading Span := look Cursor.previous

/-- One level deeper, as long as there are levels; on every way out the level is left again. -/
def nested {α : Type} (m : Reading α) : Reading α := fun c =>
  if c.depth < Cursor.maxDepth then
    let (x, d) := m { c with depth := c.depth + 1 }
    (x, { d with depth := d.depth - 1 })
  else
    (none, c.complainHere .nestingTooDeep
      ("nesting deeper than " ++ toString Cursor.maxDepth ++ " levels"))

/-- Items up to the symbol `close`, parted by commas; a comma may stand behind the last one.
`item` is told the items before it, the nearest first, and so is the result built. -/
def itemsFrom {α : Type} (close : Symbol) (item : List α → Reading α) :
    Nat → List α → Reading (List α)
  | 0, before => pure before
  | turns + 1, before => do
    if ← at? close then
      pure before
    else
      let x ← item before
      if ← eat .comma then itemsFrom close item turns (x :: before) else pure (x :: before)

/-- The items of a list whose opening token has been read, and its closing symbol. -/
def items {α : Type} (close : Symbol) (item : List α → Reading α) : Reading (List α) := do
  let turns ← look Cursor.turns
  let read ← itemsFrom close item turns []
  expect close
  pure read.reverse

/-- Operands of one level, joined to the left by the operators that `join?` knows. -/
def chainFrom {α : Type} (join? : Kind → Option (α → α → α)) (operand : Reading α) :
    Nat → α → Reading α
  | 0, left => pure left
  | turns + 1, left => do
    match join? (← look Cursor.kind) with
    | none => pure left
    | some join =>
      let _ ← token
      let right ← operand
      chainFrom join? operand turns (join left right)

/-- One operand, and as many more as operators of the level follow. -/
def chain {α : Type} (join? : Kind → Option (α → α → α)) (operand : Reading α) : Reading α := do
  let first ← operand
  let turns ← look Cursor.turns
  chainFrom join? operand turns first

end Reading

end SmallScript
