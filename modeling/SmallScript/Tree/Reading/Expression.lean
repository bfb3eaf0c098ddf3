/-
  Reading expressions.

  From the loosest binding to the tightest: `or`; `and`; `?`; one comparison; `+ -`; `* / %`; the
  operators in front of an operand; calls and properties behind one; and what stands alone.  Each
  level is a reading built from the next, so the whole precedence is the nesting of the
  definitions below.  What an expression holds of other expressions, of operands of prefix
  operators and of blocks is handed in: the recursion is closed in one place for the whole tree.
-/
import SmallScript.Tree.Cursor

namespace SmallScript

namespace Reading

/-- Joins two expressions under their common span. -/
def joined (make : Span → Expr → Expr → Expr) (left right : Expr) : Expr :=
  make (left.span.cover right.span) left right

/-! ## Levels of operators -/

def additiveOp? : Kind → Option BinaryOp
  | .symbol .plus => some (.arith .add)
  | .symbol .minus => some (.arith .sub)
  | _ => none

def multiplicativeOp? : Kind → Option BinaryOp
  | .symbol .star => some (.arith .mul)
  | .symbol .slash => some (.arith .div)
  | .symbol .percent => some (.arith .rem)
  | _ => none

def comparisonOp? : Kind → Option BinaryOp
  | .symbol .eqEq => some .eq
  | .symbol .bangEq => some .notEq
  | .symbol .less => some (.order .less)
  | .symbol .lessEq => some (.order .lessEq)
  | .symbol .greater => some (.order .greater)
  | .symbol .greaterEq => some (.order .greaterEq)
  | _ => none

def unaryOp? : Kind → Option UnaryOp
  | .keyword .not => some .not
  | .symbol .plus => some .plus
  | .symbol .minus => some .minus
  | _ => none

def multiplicative (operand : Reading Expr) : Reading Expr :=
  chain (fun k => (multiplicativeOp? k).map fun op => joined (.binary · op)) operand

def additive (operand : Reading Expr) : Reading Expr :=
  chain (fun k => (additiveOp? k).map fun op => joined (.binary · op)) (multiplicative operand)

/-- At most one comparison: a second operator is reported and left to whoever reads on. -/
def comparison (operand : Reading Expr) : Reading Expr := do
  let left ← additive operand
  match comparisonOp? (← look Cursor.kind) with
  | none => pure left
  | some op =>
    let _ ← token
    let right ← additive operand
    move fun c =>
      if (comparisonOp? c.kind).isSome then
        c.complainHere .chainedComparison
          "comparison operators cannot be chained; combine them with 'and'"
      else c
    pure (joined (.binary · op) left right)

def coalescing (operand : Reading Expr) : Reading Expr :=
  chain (fun k => if k = .symbol .question then some (joined .coalesce) else none)
    (comparison operand)

def conjunction (operand : Reading Expr) : Reading Expr :=
  chain (fun k => if k = .keyword .and then some (joined (.logical · .and)) else none)
    (coalescing operand)

def disjunction (operand : Reading Expr) : Reading Expr :=
  chain (fun k => if k = .keyword .or then some (joined (.logical · .or)) else none)
    (conjunction operand)

/-! ## Functions -/

/-- A parameter; one that repeats an earlier name is reported and kept. -/
def parameter (before : List String) : Reading String := do
  let x ← identifier
  move fun c =>
    if before.contains x.name then
      c.complain .unexpectedToken ("duplicate parameter '" ++ x.name ++ "'") x.span none
    else c
  pure x.name

/-- `(params) { body }` -/
def declaration (block : Reading Block) : Reading FnDecl := do
  expect .lparen
  let params ← items .rparen parameter
  let body ← block
  pure ⟨params, body⟩

/-! ## Expressions that stand alone -/

/-- `name: value` -/
def member (expr : Reading Expr) : Reading Member := do
  let name ← identifier
  expect .colon
  let value ← expr
  pure ⟨name, value⟩

/-- A literal of one token, under a new number. -/
def literal (make : Span → NodeId → String → Expr) (raw : String) : Reading Expr := do
  let span ← tokenSpan
  let id ← freshId
  pure (make span id raw)

/-- An expression of one token. -/
def atom (make : Span → Expr) : Reading Expr := do
  let span ← tokenSpan
  pure (make span)

/-- `(expr)`: the inner expression, as wide as its parentheses. -/
def parenthesized (expr : Reading Expr) : Reading Expr := do
  let start ← tokenSpan
  let inner ← expr
  expect .rparen
  pure (inner.withSpan (start.cover (← previous)))

/-- `[a, b]`; the list is numbered before its items. -/
def listLiteral (expr : Reading Expr) : Reading Expr := do
  let start ← tokenSpan
  let id ← freshId
  let items ← items .rbracket fun _ => expr
  pure (.list (start.cover (← previous)) id items)

/-- `new { name: value }` -/
def objectLiteral (expr : Reading Expr) : Reading Expr := do
  let start ← tokenSpan
  expect .lbrace
  let members ← items .rbrace fun _ => member expr
  pure (.object (start.cover (← previous)) members)

/-- `fn (params) { body }` -/
def lambda (block : Reading Block) : Reading Expr := do
  let start ← tokenSpan
  let decl ← declaration block
  pure (.lambda (start.cover (← previous)) decl)

/-- An expression that its first token tells. -/
def primary (expr : Reading Expr) (block : Reading Block) : Reading Expr := do
  match ← look Cursor.kind with
  | .int raw => literal .int raw
  | .float raw => literal .float raw
  | .string raw => literal .string raw
  | .identifier name => atom (.name · name)
  | .keyword .true => atom (.bool · true)
  | .keyword .false => atom (.bool · false)
  | .keyword .null => atom .null
  | .symbol .lparen => parenthesized expr
  | .symbol .lbracket => listLiteral expr
  | .keyword .new => objectLiteral expr
  | .keyword .fn => lambda block
  | _ =>
    refuse .unexpectedToken fun k => "expected expression, got '" ++ k.text ++ "'"

/-! ## Behind and in front of an operand -/

/-- The calls and properties that follow `target`. -/
def suffixes (expr : Reading Expr) : Nat → Expr → Reading Expr
  | 0, target => pure target
  | turns + 1, target => do
    match ← look Cursor.kind with
    | .symbol .lparen =>
      let _ ← token
      let args ← items .rparen fun _ => expr
      suffixes expr turns (.call (target.span.cover (← previous)) target args)
    | .symbol .dot =>
      let _ ← token
      let name ← identifier
      suffixes expr turns (.property (target.span.cover name.span) target name)
    | _ => pure target

/-- A primary expression with its calls and properties. -/
def suffixed (expr : Reading Expr) (block : Reading Block) : Reading Expr := do
  let first ← primary expr block
  let turns ← look Cursor.turns
  suffixes expr turns first

/-- An operand: a prefix operator and its operand one level deeper, or no operator. -/
def operand (operand : Reading Expr) (expr : Reading Expr) (block : Reading Block) :
    Reading Expr := do
  match unaryOp? (← look Cursor.kind) with
  | some op =>
    let start ← tokenSpan
    let inner ← nested operand
    pure (.unary (start.cover inner.span) op inner)
  | none => suffixed expr block

end Reading

end SmallScript
