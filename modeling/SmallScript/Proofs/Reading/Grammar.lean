/-
  The grammar: in which words a tree can be written.

  `Written h p ks` says that the phrase `p` can be written as the words `ks` with at most `h` levels
  of nesting open at once.  Spans and node numbers play no part.  A tree fixes its words but for
  two things: an expression may stand in more parentheses than it needs, and a comma may stand
  behind the last of several items.

  Operators bind in levels, from the loosest to the tightest: 0 `or`, 1 `and`, 2 `?`, 3 comparisons,
  4 `+ -`, 5 `* / %`, 6 operators in front of an operand, 7 calls and properties, 8 what stands
  alone.  `Phrase.operand l e` is an expression where the grammar wants an operand of level `l`: what
  binds more loosely has to stand in parentheses there.  Operators of one level join to the left,
  which is to say that only their left operand may be of their own level; comparisons do not even
  allow that.
-/
import SmallScript.Tree.Parse

namespace SmallScript

/-! ## Operators -/

/-- The symbol of an operator that evaluates both operands. -/
def BinaryOp.symbol : BinaryOp → Symbol
  | .arith .add => .plus
  | .arith .sub => .minus
  | .arith .mul => .star
  | .arith .div => .slash
  | .arith .rem => .percent
  | .order .less => .less
  | .order .lessEq => .lessEq
  | .order .greater => .greater
  | .order .greaterEq => .greaterEq
  | .eq => .eqEq
  | .notEq => .bangEq

def BinaryOp.level : BinaryOp → Nat
  | .arith .add | .arith .sub => 4
  | .arith .mul | .arith .div | .arith .rem => 5
  | .order _ | .eq | .notEq => 3

theorem BinaryOp.level_cases (op : BinaryOp) : op.level = 3 ∨ op.level = 4 ∨ op.level = 5 := by
  cases op with
  | arith op => cases op <;> decide
  | _ => exact .inl rfl

/-- The level of the left operand: the operator's own, but comparisons do not chain. -/
def BinaryOp.leftLevel (op : BinaryOp) : Nat := if op.level = 3 then 4 else op.level

def LogicalOp.keyword : LogicalOp → Keyword
  | .or => .or
  | .and => .and

def LogicalOp.level : LogicalOp → Nat
  | .or => 0
  | .and => 1

def UnaryOp.kind : UnaryOp → Kind
  | .not => .keyword .not
  | .plus => .symbol .plus
  | .minus => .symbol .minus

namespace Reading

variable {k : Kind}

theorem multiplicativeOp?_eq_some {op : BinaryOp} (h : multiplicativeOp? k = some op) :
    k = .symbol op.symbol ∧ op.level = 5 := by
  unfold multiplicativeOp? at h
  split at h <;> cases h <;> exact ⟨rfl, rfl⟩

theorem additiveOp?_eq_some {op : BinaryOp} (h : additiveOp? k = some op) :
    k = .symbol op.symbol ∧ op.level = 4 := by
  unfold additiveOp? at h
  split at h <;> cases h <;> exact ⟨rfl, rfl⟩

theorem comparisonOp?_eq_some {op : BinaryOp} (h : comparisonOp? k = some op) :
    k = .symbol op.symbol ∧ op.level = 3 := by
  unfold comparisonOp? at h
  split at h <;> cases h <;> exact ⟨rfl, rfl⟩

theorem unaryOp?_eq_some {op : UnaryOp} (h : unaryOp? k = some op) : k = op.kind := by
  unfold unaryOp? at h
  split at h <;> cases h <;> rfl

theorem multiplicativeOp?_symbol {op : BinaryOp} (hop : op.level = 5) :
    multiplicativeOp? (.symbol op.symbol) = some op := by
  cases op with
  | arith op => cases op <;> first | rfl | cases hop
  | _ => cases hop

theorem additiveOp?_symbol {op : BinaryOp} (hop : op.level = 4) :
    additiveOp? (.symbol op.symbol) = some op := by
  cases op with
  | arith op => cases op <;> first | rfl | cases hop
  | _ => cases hop

theorem comparisonOp?_symbol {op : BinaryOp} (hop : op.level = 3) :
    comparisonOp? (.symbol op.symbol) = some op := by
  cases op with
  | arith op => cases op <;> cases hop
  | order op => cases op <;> rfl
  | _ => rfl

theorem unaryOp?_kind (op : UnaryOp) : unaryOp? op.kind = some op := by
  cases op <;> rfl

end Reading

/-! ## Phrases -/

/-- The statement ends in an `if` that could take an `else`. -/
def Stmt.endsOpen : Stmt → Bool
  | .cond _ _ _ none => true
  | .cond _ _ _ (some no) => no.endsOpen
  | .while _ _ body => body.endsOpen
  | .for _ _ _ _ body => body.endsOpen
  | _ => false

/-- The phrases of the grammar. -/
inductive Phrase where
  /-- An expression where an operand of some level is wanted. -/
  | operand (level : Nat) (e : Expr)
  /-- An expression on its own, which opens a level of nesting. -/
  | expr (e : Expr)
  /-- Expressions with commas between them. -/
  | items (es : List Expr)
  | members (ms : List Member)
  | params (xs : List String)
  | decl (d : FnDecl)
  | block (b : Block)
  | stmts (ts : List Stmt)
  /-- An expression or an assignment, without the semicolon. -/
  | simple (t : Stmt)
  /-- A statement within the level that it has opened. -/
  | body (t : Stmt)
  /-- A statement, which opens a level of nesting. -/
  | stmt (t : Stmt)

open Kind SmallScript.Symbol in
/-- The phrase can be written as these words, with at most so many levels open at once. -/
inductive Written : Nat → Phrase → List Kind → Prop where
  -- what stands alone
  | int {h s id raw} : Written h (.operand 8 (.int s id raw)) [int raw]
  | float {h s id raw} : Written h (.operand 8 (.float s id raw)) [float raw]
  | string {h s id raw} : Written h (.operand 8 (.string s id raw)) [string raw]
  | true {h s} : Written h (.operand 8 (.bool s true)) [keyword .true]
  | false {h s} : Written h (.operand 8 (.bool s false)) [keyword .false]
  | null {h s} : Written h (.operand 8 (.null s)) [keyword .null]
  | name {h s x} : Written h (.operand 8 (.name s x)) [identifier x]
  | parens {h s e ks} : Written h (.expr e) ks →
      Written h (.operand 8 (e.withSpan s)) (symbol lparen :: ks ++ [symbol rparen])
  | list {h s id es ks} : Written h (.items es) ks →
      Written h (.operand 8 (.list s id es)) (symbol lbracket :: ks ++ [symbol rbracket])
  | object {h s ms ks} : Written h (.members ms) ks →
      Written h (.operand 8 (.object s ms))
        (keyword .new :: symbol lbrace :: ks ++ [symbol rbrace])
  | lambda {h s d ks} : Written h (.decl d) ks →
      Written h (.operand 8 (.lambda s d)) (keyword .fn :: ks)
  -- operands with operators
  | property {h s e x ks} : Written h (.operand 7 e) ks →
      Written h (.operand 7 (.property s e x)) (ks ++ [symbol dot, identifier x.name])
  | call {h s e es ks js} : Written h (.operand 7 e) ks → Written h (.items es) js →
      Written h (.operand 7 (.call s e es)) (ks ++ symbol lparen :: js ++ [symbol rparen])
  | unary {h s op e ks} : Written h (.operand 6 e) ks →
      Written (h + 1) (.operand 6 (.unary s op e)) (op.kind :: ks)
  | binary {h s op a b ks js} : Written h (.operand op.leftLevel a) ks →
      Written h (.operand (op.level + 1) b) js →
      Written h (.operand op.level (.binary s op a b)) (ks ++ symbol op.symbol :: js)
  | coalesce {h s a b ks js} : Written h (.operand 2 a) ks → Written h (.operand 3 b) js →
      Written h (.operand 2 (.coalesce s a b)) (ks ++ symbol question :: js)
  | logical {h s op a b ks js} : Written h (.operand op.level a) ks →
      Written h (.operand (op.level + 1) b) js →
      Written h (.operand op.level (.logical s op a b)) (ks ++ keyword op.keyword :: js)
  | looser {h l e ks} : Written h (.operand (l + 1) e) ks → Written h (.operand l e) ks
  | expr {h e ks} : Written h (.operand 0 e) ks → Written (h + 1) (.expr e) ks
  -- what has commas between
  | noItem {h} : Written h (.items []) []
  | lastItem {h e ks} : Written h (.expr e) ks → Written h (.items [e]) ks
  | nextItem {h e es ks js} : Written h (.expr e) ks → Written h (.items es) js →
      Written h (.items (e :: es)) (ks ++ symbol comma :: js)
  | noMember {h} : Written h (.members []) []
  | lastMember {h x e ks} : Written h (.expr e) ks →
      Written h (.members [⟨x, e⟩]) (identifier x.name :: symbol colon :: ks)
  | nextMember {h x e ms ks js} : Written h (.expr e) ks → Written h (.members ms) js →
      Written h (.members (⟨x, e⟩ :: ms))
        (identifier x.name :: symbol colon :: ks ++ symbol comma :: js)
  | noParam {h} : Written h (.params []) []
  | lastParam {h x} : Written h (.params [x]) [identifier x]
  | nextParam {h x xs ks} : x ∉ xs → Written h (.params xs) ks →
      Written h (.params (x :: xs)) (identifier x :: symbol comma :: ks)
  -- functions and blocks
  | decl {h xs b ks js} : Written h (.params xs) ks → Written h (.block b) js →
      Written h (.decl ⟨xs, b⟩) (symbol lparen :: ks ++ symbol rparen :: js)
  | block {h s ts ks} : Written h (.stmts ts) ks →
      Written h (.block ⟨ts, s⟩) (symbol lbrace :: ks ++ [symbol rbrace])
  | noStmt {h} : Written h (.stmts []) []
  | nextStmt {h t ts ks js} : Written h (.stmt t) ks → Written h (.stmts ts) js →
      Written h (.stmts (t :: ts)) (ks ++ js)
  -- statements
  | evaluation {h e ks} : Written h (.expr e) ks → Written h (.simple (.expr e)) ks
  | assign {h s x e ks js} : Written h (.expr (.name x.span x.name)) ks → Written h (.expr e) js →
      Written h (.simple (.assign s x e)) (ks ++ symbol eq :: js)
  | assignProperty {h s s' o x e ks js} : Written h (.expr (.property s' o x)) ks →
      Written h (.expr e) js →
      Written h (.simple (.assignProperty s o x e)) (ks ++ symbol eq :: js)
  | simple {h t ks} : Written h (.simple t) ks → Written h (.body t) (ks ++ [symbol semicolon])
  | compound {h b ks} : Written h (.block b) ks → Written h (.body (.block b)) ks
  | define {h s id x d ks} : Written h (.decl d) ks →
      Written h (.body (.define s id x d)) (keyword .fn :: identifier x.name :: ks)
  | cond {h s e yes ks js} : Written h (.expr e) ks → Written h (.stmt yes) js →
      Written h (.body (.cond s e yes none))
        (keyword .if :: symbol lparen :: ks ++ symbol rparen :: js)
  | condElse {h s e yes no ks js is} : yes.endsOpen = Bool.false → Written h (.expr e) ks →
      Written h (.stmt yes) js → Written h (.stmt no) is →
      Written h (.body (.cond s e yes (some no)))
        (keyword .if :: symbol lparen :: ks ++ symbol rparen :: js ++ keyword .else :: is)
  | while {h s e t ks js} : Written h (.expr e) ks → Written h (.stmt t) js →
      Written h (.body (.while s e t))
        (keyword .while :: symbol lparen :: ks ++ symbol rparen :: js)
  | for {h s init e step t ks js is ls} : Written h (.simple init) ks → Written h (.expr e) js →
      Written h (.simple step) is → Written h (.stmt t) ls →
      Written h (.body (.for s init e step t))
        (keyword .for :: symbol lparen :: ks ++ symbol semicolon :: js ++ symbol semicolon :: is ++
          symbol rparen :: ls)
  | break {h s} : Written h (.body (.break s)) [keyword .break, symbol semicolon]
  | continue {h s} : Written h (.body (.continue s)) [keyword .continue, symbol semicolon]
  | returnNull {h s} : Written h (.body (.return s none)) [keyword .return, symbol semicolon]
  | return {h s e ks} : Written h (.expr e) ks →
      Written h (.body (.return s (some e))) (keyword .return :: ks ++ [symbol semicolon])
  | write {h s e ks} : Written h (.expr e) ks →
      Written h (.body (.write s e)) (keyword .write :: ks ++ [symbol semicolon])
  | stmt {h t ks} : Written h (.body t) ks → Written (h + 1) (.stmt t) ks

/-! ## First words -/

/-- The words that an expression can begin with. -/
def Kind.startsExpr : Kind → Bool
  | .int _ | .float _ | .string _ | .identifier _ => true
  | .symbol .lparen | .symbol .lbracket | .symbol .plus | .symbol .minus => true
  | .keyword .true | .keyword .false | .keyword .null => true
  | .keyword .new | .keyword .fn | .keyword .not => true
  | _ => false

/-- The words that a statement can begin with. -/
def Kind.startsStmt (k : Kind) : Bool :=
  k.startsExpr || k == .symbol .lbrace || k.startsStatement

/-- How a phrase can begin, if it cannot be empty: its first word, and the words behind it. -/
def Phrase.begins : Phrase → Option (Kind → List Kind → Prop)
  | .operand l _ => some fun k js => k.startsExpr = Bool.true ∧
      (k = .keyword .fn → js.head? = some (.symbol .lparen)) ∧
      (7 ≤ l → ∀ op : UnaryOp, k ≠ op.kind)
  | .expr _ | .simple _ => some fun k js => k.startsExpr = Bool.true ∧
      (k = .keyword .fn → js.head? = some (.symbol .lparen))
  | .decl _ => some fun k _ => k = .symbol .lparen
  | .block _ => some fun k _ => k = .symbol .lbrace
  | .body _ | .stmt _ => some fun k _ => k.startsStmt = Bool.true
  | .items _ | .members _ | .params _ | .stmts _ => none

theorem head?_append_of_eq_some {α : Type} {js is : List α} {x : α} (h : js.head? = some x) :
    (js ++ is).head? = some x := by
  cases js with
  | nil => cases h
  | cons j js => exact h

/-- A phrase that cannot be empty has a first word. -/
theorem Written.begins {h : Nat} {p : Phrase} {ks : List Kind} (hp : Written h p ks) :
    ∀ P, p.begins = some P → ∃ k js, ks = k :: js ∧ P k js := by
  induction hp with
  | int | float | string | true | false | null | name | parens _ _ | list _ _ | object _ _ =>
    rintro _ ⟨⟩
    exact ⟨_, _, rfl, rfl, nofun, fun _ op => by cases op <;> nofun⟩
  | lambda _ ih =>
    rintro _ ⟨⟩
    obtain ⟨k, js, rfl, rfl⟩ := ih _ rfl
    exact ⟨_, _, rfl, rfl, fun _ => rfl, fun _ op => by cases op <;> nofun⟩
  | @unary _ _ op =>
    rintro _ ⟨⟩
    refine ⟨_, _, rfl, by cases op <;> rfl, fun h => ?_, fun h => absurd h (by decide)⟩
    cases op <;> cases h
  | noItem | lastItem _ _ | nextItem _ _ _ _ | noMember | lastMember _ _ | nextMember _ _ _ _
  | noParam | lastParam | nextParam _ _ _ | noStmt | nextStmt _ _ _ _ =>
    rintro _ ⟨⟩
  | looser _ ih =>
    rintro _ ⟨⟩
    obtain ⟨k, js, rfl, hk, hfn, hop⟩ := ih _ rfl
    exact ⟨k, js, rfl, hk, hfn, fun hl => hop (Nat.le_succ_of_le hl)⟩
  | expr _ ih =>
    rintro _ ⟨⟩
    obtain ⟨k, js, rfl, hk, hfn, -⟩ := ih _ rfl
    exact ⟨k, js, rfl, hk, hfn⟩
  | evaluation _ ih | stmt _ ih => exact ih
  | property _ ih =>
    rintro _ ⟨⟩
    obtain ⟨k, js, rfl, hk, hfn, hop⟩ := ih _ rfl
    exact ⟨k, _, rfl, hk, fun h => head?_append_of_eq_some (hfn h), hop⟩
  | call _ _ ih _ =>
    rintro _ ⟨⟩
    obtain ⟨k, js, rfl, hk, hfn, hop⟩ := ih _ rfl
    refine ⟨k, _, rfl, hk, fun h => ?_, hop⟩
    exact head?_append_of_eq_some (head?_append_of_eq_some (hfn h))
  | @binary _ _ op _ _ _ _ _ _ ih _ =>
    rintro _ ⟨⟩
    obtain ⟨k, js, rfl, hk, hfn, -⟩ := ih _ rfl
    refine ⟨k, _, rfl, hk, fun h => head?_append_of_eq_some (hfn h), fun hl => ?_⟩
    have hlevel := op.level_cases
    omega
  | coalesce _ _ ih _ =>
    rintro _ ⟨⟩
    obtain ⟨k, js, rfl, hk, hfn, -⟩ := ih _ rfl
    exact ⟨k, _, rfl, hk, fun h => head?_append_of_eq_some (hfn h), fun hl => absurd hl (by decide)⟩
  | @logical _ _ op _ _ _ _ _ _ ih _ =>
    rintro _ ⟨⟩
    obtain ⟨k, js, rfl, hk, hfn, -⟩ := ih _ rfl
    refine ⟨k, _, rfl, hk, fun h => head?_append_of_eq_some (hfn h), fun hl => ?_⟩
    cases op <;> exact absurd hl (by decide)
  | assign _ _ ih _ | assignProperty _ _ ih _ =>
    rintro _ ⟨⟩
    obtain ⟨k, js, rfl, hk, hfn⟩ := ih _ rfl
    exact ⟨k, _, rfl, hk, fun h => head?_append_of_eq_some (hfn h)⟩
  | simple _ ih =>
    rintro _ ⟨⟩
    obtain ⟨k, js, rfl, hk, -⟩ := ih _ rfl
    refine ⟨k, _, rfl, ?_⟩
    show k.startsStmt = Bool.true
    rw [Kind.startsStmt, hk]
    rfl
  | compound _ ih =>
    rintro _ ⟨⟩
    obtain ⟨k, js, rfl, rfl⟩ := ih _ rfl
    exact ⟨_, _, rfl, rfl⟩
  | decl _ _ _ _ | block _ _ | define _ _ | cond _ _ _ _ | condElse _ _ _ _ _ _ _
  | «while» _ _ _ _ | «for» _ _ _ _ _ _ _ _ | «break» | «continue» | returnNull | «return» _ _
  | write _ _ =>
    rintro _ ⟨⟩
    exact ⟨_, _, rfl, rfl⟩

end SmallScript
