/-
  Reading statements, and starting again behind an error.

  A statement that cannot be read is given up with a diagnostic; reading goes on behind the next
  semicolon, or before the next closing brace or word that begins a statement.  At least one token
  is left behind each time, so that a list of statements always comes to an end.
-/
import SmallScript.Tree.Reading.Expression

namespace SmallScript

namespace Reading

/-! ## Lists of statements -/

/-- Skip to where the next statement may begin. -/
def resync : Nat → Cursor → Cursor
  | 0, c => c
  | turns + 1, c =>
    if c.atEnd then c
    else if c.kind = .symbol .semicolon then c.advance
    else if c.kind = .symbol .rbrace || c.kind.startsStatement then c
    else resync turns c.advance

/-- Read a statement behind `before`; if it is given up, skip to where the next may begin, but
never stay where it was. -/
def statementOrSkip (statement : Reading Stmt) (before : List Stmt) (c : Cursor) :
    List Stmt × Cursor :=
  match statement c with
  | (some t, d) => (t :: before, d)
  | (none, d) =>
    let e := resync d.turns d
    if e.later.length = c.later.length && !e.atEnd then (before, e.advance) else (before, e)

/-- The statements of a block up to its closing brace, last statement first. -/
def blockBody (statement : Reading Stmt) : Nat → List Stmt → Cursor → List Stmt × Cursor
  | 0, before, c => (before, c)
  | turns + 1, before, c =>
    if c.kind = .symbol .rbrace || c.atEnd || c.log.isFull then (before, c)
    else
      let (before, c) := statementOrSkip statement before c
      blockBody statement turns before c

/-- `{ stmts }` -/
def block (statement : Reading Stmt) : Reading Block := do
  let start ← look (·.current.span)
  expect .lbrace
  let stmts ← fun c =>
    let (stmts, c) := blockBody statement c.turns [] c
    (some stmts.reverse, c)
  expect .rbrace
  pure ⟨stmts, start.cover (← previous)⟩

/-- The statements of a whole text, last statement first.  A closing brace that closes nothing is
reported and passed over. -/
def programBody (statement : Reading Stmt) : Nat → List Stmt → Cursor → List Stmt × Cursor
  | 0, before, c => (before, c)
  | turns + 1, before, c =>
    if c.atEnd || c.log.isFull then (before, c)
    else if c.kind = .symbol .rbrace then
      let c := c.complainHere .unexpectedToken "unmatched '\x7d'"
      programBody statement turns before c.advance
    else
      let (before, c) := statementOrSkip statement before c
      programBody statement turns before c

/-! ## Statements -/

/-- An expression, or an assignment to a variable or a property.  The target is read as an
expression and judged when the equals sign has been seen. -/
def simple (expr : Reading Expr) : Reading Stmt := do
  let target ← expr
  if ← at? .eq then
    let eq ← tokenSpan
    let value ← expr
    let span := target.span.cover value.span
    match target with
    | .name s x => pure (.assign span ⟨x, s⟩ value)
    | .property _ owner x => pure (.assignProperty span owner x value)
    | _ => fun c =>
      (none, c.complain .invalidTarget "only a variable or a property can be assigned to"
        (target.span.cover eq) none)
  else pure (.expr target)

/-- `fn name(params) { body }`; the definition is numbered before its body. -/
def definition (block : Reading Block) : Reading Stmt := do
  let start ← tokenSpan
  let id ← freshId
  let name ← identifier
  let decl ← declaration block
  pure (.define (start.cover (← previous)) id name decl)

/-- `(expr)` behind `if` and `while`. -/
def condition (expr : Reading Expr) : Reading Expr := do
  expect .lparen
  let test ← expr
  expect .rparen
  pure test

/-- `if (test) stmt else stmt`; an `else` belongs to the nearest `if`. -/
def conditional (expr : Reading Expr) (statement : Reading Stmt) : Reading Stmt := do
  let start ← tokenSpan
  let test ← condition expr
  let yes ← statement
  let no ← if ← eatKeyword .else then some <$> statement else pure none
  pure (.cond (start.cover (← previous)) test yes no)

/-- `while (test) stmt` -/
def whileLoop (expr : Reading Expr) (statement : Reading Stmt) : Reading Stmt := do
  let start ← tokenSpan
  let test ← condition expr
  let body ← statement
  pure (.while (start.cover (← previous)) test body)

/-- `for (init; test; step) stmt` -/
def forLoop (expr : Reading Expr) (statement : Reading Stmt) : Reading Stmt := do
  let start ← tokenSpan
  expect .lparen
  let init ← simple expr
  expect .semicolon
  let test ← expr
  expect .semicolon
  let step ← simple expr
  expect .rparen
  let body ← statement
  pure (.for (start.cover (← previous)) init test step body)

/-- `return;` or `return value;` -/
def returning (expr : Reading Expr) : Reading Stmt := do
  let start ← tokenSpan
  let value ← if ← at? .semicolon then pure none else some <$> expr
  endStatement
  pure (.return (start.cover (← previous)) value)

/-- `break;` or `continue;` -/
def jump (make : Span → Stmt) : Reading Stmt := do
  let start ← tokenSpan
  endStatement
  pure (make (start.cover (← previous)))

/-- `write value;` -/
def writing (expr : Reading Expr) : Reading Stmt := do
  let start ← tokenSpan
  let value ← expr
  endStatement
  pure (.write (start.cover (← previous)) value)

/-- A statement that its first token tells; `fn` begins a definition only before a name. -/
def statementBody (expr : Reading Expr) (statement : Reading Stmt) : Reading Stmt := do
  match ← look fun c => (c.kind, c.nextKind) with
  | (.symbol .lbrace, _) => .block <$> block statement
  | (.keyword .fn, .identifier _) => definition (block statement)
  | (.keyword .if, _) => conditional expr statement
  | (.keyword .while, _) => whileLoop expr statement
  | (.keyword .for, _) => forLoop expr statement
  | (.keyword .return, _) => returning expr
  | (.keyword .break, _) => jump .break
  | (.keyword .continue, _) => jump .continue
  | (.keyword .write, _) => writing expr
  | _ => do
    let t ← simple expr
    endStatement
    pure t

/-! ## The recursion -/

mutual

/-- An expression with at most `fuel` readings open in it. -/
def expressionAt : Nat → Reading Expr
  | 0 => fail
  | fuel + 1 => nested (disjunction (operandAt fuel))

/-- An operand with at most `fuel` readings open in it. -/
def operandAt : Nat → Reading Expr
  | 0 => fail
  | fuel + 1 => operand (operandAt fuel) (expressionAt fuel) (block (statementAt fuel))

/-- A statement with at most `fuel` readings open in it. -/
def statementAt : Nat → Reading Stmt
  | 0 => fail
  | fuel + 1 => nested (statementBody (expressionAt fuel) (statementAt fuel))

end

/-- At most two readings are open for each level of nesting, so the nesting limit is met first. -/
def fuel : Nat := 2 * (Cursor.maxDepth + 2)

/-- A statement. -/
def statement : Reading Stmt := statementAt fuel

/-- An expression. -/
def expression : Reading Expr := expressionAt fuel

end Reading

end SmallScript
