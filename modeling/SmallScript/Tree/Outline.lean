/-
  Outlines: a tree on one line, with the span and the number of every node.

  An outline is a bracketed list of words: the name of the node joined to its number and its span,
  then its parts in source order.
-/
import SmallScript.Tree

namespace SmallScript

namespace Outline

/-- A node's name with its span. -/
def head (name : String) (s : Span) : String := name ++ "@" ++ s.rangeText

/-- A numbered node's name with its number and span. -/
def numbered (name : String) (id : NodeId) (s : Span) : String :=
  name ++ "#" ++ toString id ++ "@" ++ s.rangeText

/-- A node with its parts behind it. -/
def node (parts : List String) : String := "(" ++ String.intercalate " " parts ++ ")"

def ofIdent (x : Ident) : String := x.name ++ "@" ++ x.span.rangeText

/-- Parameters between brackets, joined by commas. -/
def ofParams (params : List String) : String := "[" ++ String.intercalate "," params ++ "]"

def ofUnaryOp : UnaryOp → String
  | .not => "Not"
  | .plus => "Plus"
  | .minus => "Minus"

def ofLogicalOp : LogicalOp → String
  | .and => "And"
  | .or => "Or"

mutual

def ofExpr : Expr → String
  | .int s id raw => node [numbered "Int" id s, raw]
  | .float s id raw => node [numbered "Float" id s, raw]
  | .string s id raw => node [numbered "Str" id s, raw]
  | .bool s value => node [head "Bool" s, toString value]
  | .null s => node [head "Null" s]
  | .list s id items => node (numbered "List" id s :: ofExprs items)
  | .object s members => node (head "New" s :: ofMembers members)
  | .name s x => node [head "Ident" s, x]
  | .property s target x => node [head "Prop" s, ofExpr target, ofIdent x]
  | .call s callee args => node (head "Call" s :: ofExpr callee :: ofExprs args)
  | .lambda s decl => node (head "Lambda" s :: ofDecl decl)
  | .binary s op left right => node [head "Binary" s, op.text, ofExpr left, ofExpr right]
  | .unary s op operand => node [head "Unary" s, ofUnaryOp op, ofExpr operand]
  | .logical s op left right =>
    node [head "Logical" s, ofLogicalOp op, ofExpr left, ofExpr right]
  | .coalesce s left right => node [head "Coalesce" s, ofExpr left, ofExpr right]

def ofExprs : List Expr → List String
  | [] => []
  | e :: es => ofExpr e :: ofExprs es

def ofMember : Member → List String
  | ⟨x, value⟩ => [ofIdent x, ofExpr value]

def ofMembers : List Member → List String
  | [] => []
  | m :: ms => ofMember m ++ ofMembers ms

def ofDecl : FnDecl → List String
  | ⟨params, body⟩ => [ofParams params, ofBlock body]

def ofBlock : Block → String
  | ⟨stmts, s⟩ => node (head "Block" s :: ofStmts stmts)

def ofStmts : List Stmt → List String
  | [] => []
  | t :: ts => ofStmt t :: ofStmts ts

def ofStmt : Stmt → String
  | .expr e => node [head "Expr" e.span, ofExpr e]
  | .assign s x value => node [head "Assign" s, ofIdent x, ofExpr value]
  | .assignProperty s target x value =>
    node [head "PropAssign" s, ofExpr target, ofIdent x, ofExpr value]
  | .define s id x decl => node (numbered "FnDef" id s :: ofIdent x :: ofDecl decl)
  | .cond s test yes none => node [head "If" s, ofExpr test, ofStmt yes]
  | .cond s test yes (some no) => node [head "If" s, ofExpr test, ofStmt yes, ofStmt no]
  | .while s test body => node [head "While" s, ofExpr test, ofStmt body]
  | .for s init test step body =>
    node [head "For" s, ofStmt init, ofExpr test, ofStmt step, ofStmt body]
  | .break s => node [head "Break" s]
  | .continue s => node [head "Continue" s]
  | .return s none => node [head "Return" s]
  | .return s (some value) => node [head "Return" s, ofExpr value]
  | .write s value => node [head "Write" s, ofExpr value]
  | .block b => ofBlock b

end

end Outline

/-- The outline of a statement. -/
def Stmt.outline (t : Stmt) : String := Outline.ofStmt t

end SmallScript
