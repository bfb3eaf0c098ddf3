/-
  Places and spans: where a piece of a script stands in its text.

  A place is a line and a column, both counted from one; a column counts the bytes of the UTF-8
  form, so that a span can be laid under the bytes of its line.  A span names its first and its
  last place, both included.  `Place.step` is the only rule that moves a place, `Span.between`
  the only one that makes a span from two places of a walk, and `Span.cover` the only one that
  joins two spans.

  Lines and columns are counted in 32 bits, and counting is checked: a walk to a place with a greater
  number comes to nothing (`Place.after?`).
-/

namespace SmallScript

/-- A line and a column of a text, both counted from one; columns count bytes. -/
structure Place where
  line : Nat
  column : Nat
deriving DecidableEq, Repr, Inhabited

namespace Place

/-- Where every text begins. -/
def start : Place := ⟨1, 1⟩

/-- The place behind `c`, when `c` stands at `p`. -/
def step (p : Place) (c : Char) : Place :=
  if c = '\n' then ⟨p.line + 1, 1⟩ else ⟨p.line, p.column + c.utf8Size⟩

/-- The place behind all of `cs`, when they begin at `p`. -/
def after (p : Place) (cs : List Char) : Place := cs.foldl step p

/-- The greatest number that a counter of lines or columns can hold; it has 32 bits. -/
def ceiling : Nat := 2 ^ 32 - 1

/-- The counters can hold the place. -/
def Counted (p : Place) : Prop := p.line ≤ ceiling ∧ p.column ≤ ceiling

instance (p : Place) : Decidable p.Counted :=
  inferInstanceAs (Decidable (p.line ≤ ceiling ∧ p.column ≤ ceiling))

/-- The place behind `c`, unless a counter would have to pass its end. -/
def step? (p : Place) (c : Char) : Option Place :=
  if (p.step c).Counted then some (p.step c) else none

/-- The place behind all of `cs`, unless a counter would have to pass its end on the way. -/
def after? (p : Place) (cs : List Char) : Option Place := cs.foldlM step? p

/-- Reading order: by line, then by column. -/
protected def le (p q : Place) : Prop := p.line < q.line ∨ (p.line = q.line ∧ p.column ≤ q.column)

instance : LE Place := ⟨Place.le⟩

instance (p q : Place) : Decidable (p ≤ q) :=
  inferInstanceAs (Decidable (p.line < q.line ∨ (p.line = q.line ∧ p.column ≤ q.column)))

/-- The first of two places in reading order. -/
def earlier (p q : Place) : Place := if p ≤ q then p else q

/-- The second of two places in reading order. -/
def later (p q : Place) : Place := if p ≤ q then q else p

@[simp] theorem after_nil (p : Place) : p.after [] = p := rfl

@[simp] theorem after_cons (p : Place) (c : Char) (cs : List Char) :
    p.after (c :: cs) = (p.step c).after cs := rfl

theorem after_append (p : Place) (cs ds : List Char) :
    p.after (cs ++ ds) = (p.after cs).after ds := by
  simp [after, List.foldl_append]

@[simp] theorem after?_nil (p : Place) : p.after? [] = some p := rfl

@[simp] theorem after?_cons (p : Place) (c : Char) (cs : List Char) :
    p.after? (c :: cs) = (p.step? c).bind fun q => q.after? cs := rfl

end Place

/-- A region of a text by its first and last place, both included. -/
structure Span where
  first : Place
  last : Place
deriving DecidableEq, Repr, Inhabited

namespace Span

/-- The span of one place. -/
def point (p : Place) : Span := ⟨p, p⟩

/-- What a walk from `start` to `stop` went over.  `stop` itself is not part of it, so the span
ends one column earlier, though never before the first column. -/
def between (start stop : Place) : Span := ⟨start, ⟨stop.line, max 1 (stop.column - 1)⟩⟩

/-- The smallest span that covers both. -/
def cover (a b : Span) : Span := ⟨a.first.earlier b.first, a.last.later b.last⟩

/-- How a message names the span: the line and column where it begins. -/
def text (s : Span) : String := toString s.first.line ++ ":" ++ toString s.first.column

/-- Both ends of the span. -/
def rangeText (s : Span) : String :=
  s.text ++ "-" ++ toString s.last.line ++ ":" ++ toString s.last.column

end Span

end SmallScript
