/-
  The syntax tree of a script.

  Every expression and statement carries the span it was read from.  Literals keep their written
  text; what it means is decided when the literal is evaluated.  The nodes whose evaluation is
  remembered (literals, list literals, function definitions) carry a `NodeId`, which is unique
  within one program.
-/
import SmallScript.Source.Span

namespace SmallScript

/-- The number of a node whose evaluation is remembered. -/
abbrev NodeId := Nat

/-- A name and where it is written. -/
structure Ident where
  name : String
  span : Span
deriving DecidableEq, Repr, Inhabited

/-- The operators that compute. -/
inductive ArithOp where
  | add | sub | mul | div | rem
deriving DecidableEq, Repr

/-- The operators that ask which of two values comes first. -/
inductive OrderOp where
  | less | lessEq | greater | greaterEq
deriving DecidableEq, Repr

/-- The operators that evaluate both operands. -/
inductive BinaryOp where
  | arith (op : ArithOp)
  | order (op : OrderOp)
  | eq
  | notEq
deriving DecidableEq, Repr

/-- How an operator is written. -/
def BinaryOp.text : BinaryOp → String
  | .arith .add => "+"
  | .arith .sub => "-"
  | .arith .mul => "*"
  | .arith .div => "/"
  | .arith .rem => "%"
  | .order .less => "<"
  | .order .lessEq => "<="
  | .order .greater => ">"
  | .order .greaterEq => ">="
  | .eq => "=="
  | .notEq => "!="

/-- The operators in front of their operand. -/
inductive UnaryOp where
  | not | plus | minus
deriving DecidableEq, Repr

/-- The operators that may leave their right operand alone. -/
inductive LogicalOp where
  | and | or
deriving DecidableEq, Repr

mutual

inductive Expr where
  | int (span : Span) (id : NodeId) (raw : String)
  | float (span : Span) (id : NodeId) (raw : String)
  | string (span : Span) (id : NodeId) (raw : String)
  | bool (span : Span) (value : Bool)
  | null (span : Span)
  /-- `[a, b]`: one list for each node, filled anew by each evaluation. -/
  | list (span : Span) (id : NodeId) (items : List Expr)
  /-- `new { name: value }` -/
  | object (span : Span) (members : List Member)
  | name (span : Span) (name : String)
  /-- `target.name` -/
  | property (span : Span) (target : Expr) (name : Ident)
  /-- `callee(args)` -/
  | call (span : Span) (callee : Expr) (args : List Expr)
  /-- `fn (params) { body }` -/
  | lambda (span : Span) (decl : FnDecl)
  | binary (span : Span) (op : BinaryOp) (left right : Expr)
  | unary (span : Span) (op : UnaryOp) (operand : Expr)
  | logical (span : Span) (op : LogicalOp) (left right : Expr)
  /-- `left ? right`: the right operand stands in for null. -/
  | coalesce (span : Span) (left right : Expr)

/-- One `name: value` of an object literal. -/
structure Member where
  name : Ident
  value : Expr

/-- Parameters and body of a function. -/
structure FnDecl where
  params : List String
  body : Block

/-- Statements between braces. -/
structure Block where
  stmts : List Stmt
  span : Span

inductive Stmt where
  | expr (value : Expr)
  /-- `name = value;` -/
  | assign (span : Span) (name : Ident) (value : Expr)
  /-- `target.name = value;` -/
  | assignProperty (span : Span) (target : Expr) (name : Ident) (value : Expr)
  /-- `fn name(params) { body }` -/
  | define (span : Span) (id : NodeId) (name : Ident) (decl : FnDecl)
  | cond (span : Span) (test : Expr) (yes : Stmt) (no : Option Stmt)
  | while (span : Span) (test : Expr) (body : Stmt)
  | for (span : Span) (init : Stmt) (test : Expr) (step : Stmt) (body : Stmt)
  | break (span : Span)
  | continue (span : Span)
  | return (span : Span) (value : Option Expr)
  | write (span : Span) (value : Expr)
  | block (block : Block)

end

deriving instance Inhabited for Expr
deriving instance Inhabited for Stmt
deriving instance Inhabited for Block
deriving instance Inhabited for FnDecl

/-- A whole script. -/
structure Program where
  stmts : List Stmt
  span : Span
deriving Inhabited

namespace Expr

def span : Expr → Span
  | int s _ _ | float s _ _ | string s _ _ | bool s _ | null s | list s _ _ | object s _
  | name s _ | property s _ _ | call s _ _ | lambda s _ | binary s _ _ _ | unary s _ _
  | logical s _ _ _ | coalesce s _ _ => s

/-- The same expression with another span: parentheses widen an expression and leave no node. -/
def withSpan (s : Span) : Expr → Expr
  | int _ id raw => int s id raw
  | float _ id raw => float s id raw
  | string _ id raw => string s id raw
  | bool _ value => bool s value
  | null _ => null s
  | list _ id items => list s id items
  | object _ members => object s members
  | name _ x => name s x
  | property _ target x => property s target x
  | call _ callee args => call s callee args
  | lambda _ decl => lambda s decl
  | binary _ op left right => binary s op left right
  | unary _ op operand => unary s op operand
  | logical _ op left right => logical s op left right
  | coalesce _ left right => coalesce s left right

@[simp] theorem span_withSpan (s : Span) (e : Expr) : (e.withSpan s).span = s := by
  cases e <;> rfl

end Expr

/-- An expression statement stands where its expression stands, without the semicolon. -/
def Stmt.span : Stmt → Span
  | .expr e => e.span
  | .assign s .. | .assignProperty s .. | .define s .. | .cond s .. | .while s .. | .for s ..
  | .break s | .continue s | .return s _ | .write s _ => s
  | .block b => b.span

end SmallScript
