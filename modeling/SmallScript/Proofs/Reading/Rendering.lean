/-
  Rendering: the words of a tree, with no more parentheses than it takes.

  `Program.words` writes a program.  An operand stands in parentheses exactly where the grammar
  wants an operand that binds more tightly; the operators join to the left.  Not every tree can be
  written: `Stmt.proper` asks for what the grammar asks.  `Stmt.levels` counts how many levels of
  nesting are open at once in the words of a statement: one for a statement, one for an expression
  that stands on its own, be it in parentheses, and one for the operand of a prefix operator.

  A proper tree is written by its words, within that many levels (`Program.written_words`).  So the
  grammar has a written form of every proper tree.
-/
import SmallScript.Proofs.Reading.Grammar

namespace SmallScript

/-! ## Trees without places and numbers -/

mutual

/-- The same expression, wherever it stands: without its spans and its node numbers. -/
def Expr.plain : Expr → Expr
  | .int _ _ raw => .int default 0 raw
  | .float _ _ raw => .float default 0 raw
  | .string _ _ raw => .string default 0 raw
  | .bool _ value => .bool default value
  | .null _ => .null default
  | .list _ _ items => .list default 0 (plainItems items)
  | .object _ members => .object default (plainMembers members)
  | .name _ x => .name default x
  | .property _ target x => .property default target.plain ⟨x.name, default⟩
  | .call _ callee args => .call default callee.plain (plainItems args)
  | .lambda _ decl => .lambda default decl.plain
  | .binary _ op left right => .binary default op left.plain right.plain
  | .unary _ op operand => .unary default op operand.plain
  | .logical _ op left right => .logical default op left.plain right.plain
  | .coalesce _ left right => .coalesce default left.plain right.plain

def plainItems : List Expr → List Expr
  | [] => []
  | e :: es => e.plain :: plainItems es

def Member.plain : Member → Member
  | ⟨x, value⟩ => ⟨⟨x.name, default⟩, value.plain⟩

def plainMembers : List Member → List Member
  | [] => []
  | m :: ms => m.plain :: plainMembers ms

def FnDecl.plain : FnDecl → FnDecl
  | ⟨params, body⟩ => ⟨params, body.plain⟩

def Block.plain : Block → Block
  | ⟨stmts, _⟩ => ⟨plainStmts stmts, default⟩

def plainStmts : List Stmt → List Stmt
  | [] => []
  | t :: ts => t.plain :: plainStmts ts

def Stmt.plain : Stmt → Stmt
  | .expr value => .expr value.plain
  | .assign _ x value => .assign default ⟨x.name, default⟩ value.plain
  | .assignProperty _ target x value =>
    .assignProperty default target.plain ⟨x.name, default⟩ value.plain
  | .define _ _ x decl => .define default 0 ⟨x.name, default⟩ decl.plain
  | .cond _ test yes none => .cond default test.plain yes.plain none
  | .cond _ test yes (some no) => .cond default test.plain yes.plain (some no.plain)
  | .while _ test body => .while default test.plain body.plain
  | .for _ init test step body => .for default init.plain test.plain step.plain body.plain
  | .break _ => .break default
  | .continue _ => .continue default
  | .return _ none => .return default none
  | .return _ (some value) => .return default (some value.plain)
  | .write _ value => .write default value.plain
  | .block b => .block b.plain

end

@[simp] theorem plainItems_eq (es : List Expr) : plainItems es = es.map Expr.plain := by
  induction es with
  | nil => rfl
  | cons e es ih => rw [plainItems, ih, List.map_cons]

@[simp] theorem plainMembers_eq (ms : List Member) : plainMembers ms = ms.map Member.plain := by
  induction ms with
  | nil => rfl
  | cons m ms ih => rw [plainMembers, ih, List.map_cons]

@[simp] theorem plainStmts_eq (ts : List Stmt) : plainStmts ts = ts.map Stmt.plain := by
  induction ts with
  | nil => rfl
  | cons t ts ih => rw [plainStmts, ih, List.map_cons]

/-! ## Words -/

/-- The level of the operator that an expression is built with; what stands alone has the
highest. -/
def Expr.level : Expr → Nat
  | .property .. | .call .. => 7
  | .unary .. => 6
  | .binary _ op _ _ => op.level
  | .coalesce .. => 2
  | .logical _ op _ _ => op.level
  | _ => 8

/-- The words of an expression where an operand of level `l` is wanted. -/
def Expr.fence (l : Nat) (e : Expr) (ks : List Kind) : List Kind :=
  if e.level < l then .symbol .lparen :: ks ++ [.symbol .rparen] else ks

/-- Groups of words with commas between them. -/
def commas : List (List Kind) → List Kind
  | [] => []
  | [ks] => ks
  | ks :: kss => ks ++ .symbol .comma :: commas kss

mutual

/-- The words of an expression. -/
def Expr.words : Expr → List Kind
  | .int _ _ raw => [.int raw]
  | .float _ _ raw => [.float raw]
  | .string _ _ raw => [.string raw]
  | .bool _ true => [.keyword .true]
  | .bool _ false => [.keyword .false]
  | .null _ => [.keyword .null]
  | .list _ _ items => .symbol .lbracket :: commas (itemsWords items) ++ [.symbol .rbracket]
  | .object _ members =>
    .keyword .new :: .symbol .lbrace :: commas (membersWords members) ++ [.symbol .rbrace]
  | .name _ x => [.identifier x]
  | .property _ target x => target.fence 7 target.words ++ [.symbol .dot, .identifier x.name]
  | .call _ callee args =>
    callee.fence 7 callee.words ++ .symbol .lparen :: commas (itemsWords args) ++ [.symbol .rparen]
  | .lambda _ decl => .keyword .fn :: decl.words
  | .binary _ op left right =>
    left.fence op.leftLevel left.words ++
      .symbol op.symbol :: right.fence (op.level + 1) right.words
  | .unary _ op operand => op.kind :: operand.fence 6 operand.words
  | .logical _ op left right =>
    left.fence op.level left.words ++ .keyword op.keyword :: right.fence (op.level + 1) right.words
  | .coalesce _ left right =>
    left.fence 2 left.words ++ .symbol .question :: right.fence 3 right.words

def itemsWords : List Expr → List (List Kind)
  | [] => []
  | e :: es => e.words :: itemsWords es

def Member.words : Member → List Kind
  | ⟨x, value⟩ => .identifier x.name :: .symbol .colon :: value.words

def membersWords : List Member → List (List Kind)
  | [] => []
  | m :: ms => m.words :: membersWords ms

def FnDecl.words : FnDecl → List Kind
  | ⟨params, body⟩ =>
    .symbol .lparen :: commas (params.map fun x => [.identifier x]) ++ .symbol .rparen :: body.words

def Block.words : Block → List Kind
  | ⟨stmts, _⟩ => .symbol .lbrace :: stmtsWords stmts ++ [.symbol .rbrace]

def stmtsWords : List Stmt → List Kind
  | [] => []
  | t :: ts => t.words ++ stmtsWords ts

/-- The words of a statement.  The step of a `for` loop stands there without its semicolon. -/
def Stmt.words : Stmt → List Kind
  | .expr value => value.words ++ [.symbol .semicolon]
  | .assign _ x value => .identifier x.name :: .symbol .eq :: value.words ++ [.symbol .semicolon]
  | .assignProperty _ target x value =>
    target.fence 7 target.words ++ .symbol .dot :: .identifier x.name :: .symbol .eq ::
      value.words ++ [.symbol .semicolon]
  | .define _ _ x decl => .keyword .fn :: .identifier x.name :: decl.words
  | .cond _ test yes none =>
    .keyword .if :: .symbol .lparen :: test.words ++ .symbol .rparen :: yes.words
  | .cond _ test yes (some no) =>
    .keyword .if :: .symbol .lparen :: test.words ++ .symbol .rparen :: yes.words ++
      .keyword .else :: no.words
  | .while _ test body =>
    .keyword .while :: .symbol .lparen :: test.words ++ .symbol .rparen :: body.words
  | .for _ init test step body =>
    .keyword .for :: .symbol .lparen :: init.words ++ test.words ++
      .symbol .semicolon :: step.words.dropLast ++ .symbol .rparen :: body.words
  | .break _ => [.keyword .break, .symbol .semicolon]
  | .continue _ => [.keyword .continue, .symbol .semicolon]
  | .return _ none => [.keyword .return, .symbol .semicolon]
  | .return _ (some value) => .keyword .return :: value.words ++ [.symbol .semicolon]
  | .write _ value => .keyword .write :: value.words ++ [.symbol .semicolon]
  | .block b => b.words

end

/-! ## Levels of nesting -/

/-- Parentheses around an expression open one more level than is open in it. -/
def Expr.fenceLevels (l : Nat) (e : Expr) (n : Nat) : Nat := if e.level < l then n + 1 else n

mutual

/-- How many levels are open at once within the words of an expression. -/
def Expr.levels : Expr → Nat
  | .list _ _ items => itemsLevels items
  | .object _ members => membersLevels members
  | .property _ target _ => target.fenceLevels 7 target.levels
  | .call _ callee args => max (callee.fenceLevels 7 callee.levels) (itemsLevels args)
  | .lambda _ decl => decl.levels
  | .binary _ op left right =>
    max (left.fenceLevels op.leftLevel left.levels) (right.fenceLevels (op.level + 1) right.levels)
  | .unary _ _ operand => operand.fenceLevels 6 operand.levels + 1
  | .logical _ op left right =>
    max (left.fenceLevels op.level left.levels) (right.fenceLevels (op.level + 1) right.levels)
  | .coalesce _ left right =>
    max (left.fenceLevels 2 left.levels) (right.fenceLevels 3 right.levels)
  | _ => 0

def itemsLevels : List Expr → Nat
  | [] => 0
  | e :: es => max (e.levels + 1) (itemsLevels es)

def Member.levels : Member → Nat
  | ⟨_, value⟩ => value.levels + 1

def membersLevels : List Member → Nat
  | [] => 0
  | m :: ms => max m.levels (membersLevels ms)

def FnDecl.levels : FnDecl → Nat
  | ⟨_, body⟩ => body.levels

def Block.levels : Block → Nat
  | ⟨stmts, _⟩ => stmtsLevels stmts

def stmtsLevels : List Stmt → Nat
  | [] => 0
  | t :: ts => max (t.levels + 1) (stmtsLevels ts)

/-- How many levels are open at once within the words of a statement, besides its own. -/
def Stmt.levels : Stmt → Nat
  | .expr value => value.levels + 1
  | .assign _ _ value => value.levels + 1
  | .assignProperty _ target _ value =>
    max (target.fenceLevels 7 target.levels + 1) (value.levels + 1)
  | .define _ _ _ decl => decl.levels
  | .cond _ test yes none => max (test.levels + 1) (yes.levels + 1)
  | .cond _ test yes (some no) => max (test.levels + 1) (max (yes.levels + 1) (no.levels + 1))
  | .while _ test body => max (test.levels + 1) (body.levels + 1)
  | .for _ init test step body =>
    max init.levels (max (test.levels + 1) (max step.levels (body.levels + 1)))
  | .break _ => 0
  | .continue _ => 0
  | .return _ none => 0
  | .return _ (some value) => value.levels + 1
  | .write _ value => value.levels + 1
  | .block b => b.levels

end

/-! ## Trees that can be written -/

/-- An expression or an assignment. -/
def Stmt.isSimple : Stmt → Bool
  | .expr _ | .assign .. | .assignProperty .. => true
  | _ => false

mutual

def Expr.proper : Expr → Bool
  | .list _ _ items => itemsProper items
  | .object _ members => membersProper members
  | .property _ target _ => target.proper
  | .call _ callee args => callee.proper && itemsProper args
  | .lambda _ decl => decl.proper
  | .binary _ _ left right => left.proper && right.proper
  | .unary _ _ operand => operand.proper
  | .logical _ _ left right => left.proper && right.proper
  | .coalesce _ left right => left.proper && right.proper
  | _ => true

def itemsProper : List Expr → Bool
  | [] => true
  | e :: es => e.proper && itemsProper es

def Member.proper : Member → Bool
  | ⟨_, value⟩ => value.proper

def membersProper : List Member → Bool
  | [] => true
  | m :: ms => m.proper && membersProper ms

/-- The parameters of a function are different names. -/
def FnDecl.proper : FnDecl → Bool
  | ⟨params, body⟩ => decide params.Nodup && body.proper

def Block.proper : Block → Bool
  | ⟨stmts, _⟩ => stmtsProper stmts

def stmtsProper : List Stmt → Bool
  | [] => true
  | t :: ts => t.proper && stmtsProper ts

/-- A `for` loop begins and steps with an expression or an assignment, and no `if` stands open before
an `else` that belongs to another. -/
def Stmt.proper : Stmt → Bool
  | .expr value => value.proper
  | .assign _ _ value => value.proper
  | .assignProperty _ target _ value => target.proper && value.proper
  | .define _ _ _ decl => decl.proper
  | .cond _ test yes none => test.proper && yes.proper
  | .cond _ test yes (some no) => test.proper && yes.proper && !yes.endsOpen && no.proper
  | .while _ test body => test.proper && body.proper
  | .for _ init test step body =>
    init.isSimple && init.proper && test.proper && step.isSimple && step.proper && body.proper
  | .break _ => true
  | .continue _ => true
  | .return _ none => true
  | .return _ (some value) => value.proper
  | .write _ value => value.proper
  | .block b => b.proper

end

/-- The words of a program, without the end of the text. -/
def Program.words (p : Program) : List Kind := stmtsWords p.stmts

def Program.levels (p : Program) : Nat := stmtsLevels p.stmts

def Program.proper (p : Program) : Bool := stmtsProper p.stmts

/-- The program wherever it stands. -/
def Program.plain (p : Program) : Program := ⟨p.stmts.map Stmt.plain, default⟩

/-! ## The words are written so -/

theorem Expr.withSpan_span (e : Expr) : e.withSpan e.span = e := by
  cases e <;> rfl

/-- Where a looser operand is wanted, a tighter one will do. -/
theorem Written.lower {h l m : Nat} {e : Expr} {ks : List Kind} (hlm : l ≤ m)
    (hw : Written h (.operand m e) ks) : Written h (.operand l e) ks := by
  obtain ⟨n, rfl⟩ := Nat.exists_eq_add_of_le hlm
  induction n with
  | zero => exact hw
  | succ n ih => exact ih (Nat.le_add_right l n) (.looser hw)

section Fence

variable {e : Expr} {n h : Nat} {ks : List Kind}

theorem Written.toExpr (hw : ∀ h, n ≤ h → Written h (.operand e.level e) ks) (hn : n + 1 ≤ h) :
    Written h (.expr e) ks := by
  obtain ⟨h, rfl⟩ := Nat.exists_eq_succ_of_ne_zero (show h ≠ 0 by omega)
  exact .expr ((hw h (by omega)).lower (Nat.zero_le _))

/-- An operand is put in parentheses where it has to be. -/
theorem Written.fence {l : Nat} (hl : l ≤ 8)
    (hw : ∀ h, n ≤ h → Written h (.operand e.level e) ks) (hn : e.fenceLevels l n ≤ h) :
    Written h (.operand l e) (e.fence l ks) := by
  unfold Expr.fenceLevels at hn
  unfold Expr.fence
  split
  · rename_i hlow
    rw [if_pos hlow] at hn
    have hparens := Written.parens (s := e.span) (Written.toExpr hw hn)
    rw [e.withSpan_span] at hparens
    exact hparens.lower hl
  · rename_i htight
    rw [if_neg htight] at hn
    exact (hw h hn).lower (by omega)

end Fence

theorem Written.toStmt {t : Stmt} {n h : Nat} {ks : List Kind}
    (hw : ∀ h, n ≤ h → Written h (.body t) ks) (hn : n + 1 ≤ h) : Written h (.stmt t) ks := by
  obtain ⟨h, rfl⟩ := Nat.exists_eq_succ_of_ne_zero (show h ≠ 0 by omega)
  exact .stmt (hw h (by omega))

theorem written_params_words {h : Nat} (xs : List String) (hxs : xs.Nodup) :
    Written h (.params xs) (commas (xs.map fun x => [.identifier x])) := by
  induction xs with
  | nil => exact .noParam
  | cons x xs ih =>
    obtain ⟨hx, hxs⟩ := List.nodup_cons.mp hxs
    cases xs with
    | nil => exact .lastParam
    | cons y ys => exact .nextParam hx (ih hxs)

/-- A simple statement is followed by its semicolon. -/
theorem Written.simple_of_body {h : Nat} {t : Stmt} {ks : List Kind} (ht : t.isSimple = Bool.true)
    (hw : Written h (.body t) ks) : Written h (.simple t) ks.dropLast ∧
      ks = ks.dropLast ++ [.symbol .semicolon] := by
  cases hw with
  | simple hw =>
    rw [List.dropLast_concat]
    exact ⟨hw, rfl⟩
  | _ => cases ht

mutual

theorem Expr.written_words : ∀ (e : Expr), e.proper = Bool.true → ∀ h, e.levels ≤ h →
    Written h (.operand e.level e) e.words
  | .int _ _ _, _, _, _ => .int
  | .float _ _ _, _, _, _ => .float
  | .string _ _ _, _, _, _ => .string
  | .bool _ true, _, _, _ => .true
  | .bool _ false, _, _, _ => .false
  | .null _, _, _, _ => .null
  | .name _ _, _, _, _ => .name
  | .list _ _ items, hp, h, hl => .list (written_itemsWords items hp h hl)
  | .object _ members, hp, h, hl => .object (written_membersWords members hp h hl)
  | .lambda _ decl, hp, h, hl => .lambda (FnDecl.written_words decl hp h hl)
  | .property _ target x, hp, h, hl =>
    .property (.fence (by decide) (Expr.written_words target hp) hl)
  | .call _ callee args, hp, h, hl => by
    obtain ⟨hcallee, hargs⟩ := Bool.and_eq_true_iff.mp hp
    obtain ⟨hlcallee, hlargs⟩ := Nat.max_le.mp hl
    exact .call (.fence (by decide) (Expr.written_words callee hcallee) hlcallee)
      (written_itemsWords args hargs h hlargs)
  | .unary _ op operand, hp, h, hl => by
    obtain ⟨h, rfl⟩ := Nat.exists_eq_succ_of_ne_zero (Nat.ne_zero_of_lt hl)
    exact .unary (.fence (by decide) (Expr.written_words operand hp) (Nat.le_of_succ_le_succ hl))
  | .binary _ op left right, hp, h, hl => by
    obtain ⟨hleft, hright⟩ := Bool.and_eq_true_iff.mp hp
    obtain ⟨hlleft, hlright⟩ := Nat.max_le.mp hl
    have hop := op.level_cases
    have hopl : op.leftLevel ≤ 8 := by unfold BinaryOp.leftLevel; split <;> omega
    exact .binary (.fence hopl (Expr.written_words left hleft) hlleft)
      (.fence (by omega) (Expr.written_words right hright) hlright)
  | .logical _ op left right, hp, h, hl => by
    obtain ⟨hleft, hright⟩ := Bool.and_eq_true_iff.mp hp
    obtain ⟨hlleft, hlright⟩ := Nat.max_le.mp hl
    have hop : op.level + 1 ≤ 8 := by cases op <;> decide
    exact .logical (.fence (by omega) (Expr.written_words left hleft) hlleft)
      (.fence hop (Expr.written_words right hright) hlright)
  | .coalesce _ left right, hp, h, hl => by
    obtain ⟨hleft, hright⟩ := Bool.and_eq_true_iff.mp hp
    obtain ⟨hlleft, hlright⟩ := Nat.max_le.mp hl
    exact .coalesce (.fence (by decide) (Expr.written_words left hleft) hlleft)
      (.fence (by decide) (Expr.written_words right hright) hlright)

theorem written_itemsWords : ∀ (es : List Expr), itemsProper es = true → ∀ h, itemsLevels es ≤ h →
    Written h (.items es) (commas (itemsWords es))
  | [], _, _, _ => .noItem
  | [e], hp, h, hl => by
    obtain ⟨he, -⟩ := Bool.and_eq_true_iff.mp hp
    obtain ⟨hle, -⟩ := Nat.max_le.mp hl
    exact .lastItem (.toExpr (Expr.written_words e he) hle)
  | e :: e' :: es, hp, h, hl => by
    obtain ⟨he, hes⟩ := Bool.and_eq_true_iff.mp hp
    obtain ⟨hle, hles⟩ := Nat.max_le.mp hl
    exact .nextItem (.toExpr (Expr.written_words e he) hle) (written_itemsWords (e' :: es) hes h hles)

theorem written_membersWords : ∀ (ms : List Member), membersProper ms = true →
    ∀ h, membersLevels ms ≤ h → Written h (.members ms) (commas (membersWords ms))
  | [], _, _, _ => .noMember
  | [⟨x, value⟩], hp, h, hl => by
    obtain ⟨hvalue, -⟩ := Bool.and_eq_true_iff.mp hp
    obtain ⟨hlvalue, -⟩ := Nat.max_le.mp hl
    exact .lastMember (.toExpr (Expr.written_words value hvalue) hlvalue)
  | ⟨x, value⟩ :: m :: ms, hp, h, hl => by
    obtain ⟨hvalue, hms⟩ := Bool.and_eq_true_iff.mp hp
    obtain ⟨hlvalue, hlms⟩ := Nat.max_le.mp hl
    exact .nextMember (.toExpr (Expr.written_words value hvalue) hlvalue)
      (written_membersWords (m :: ms) hms h hlms)

theorem FnDecl.written_words : ∀ (d : FnDecl), d.proper = true → ∀ h, d.levels ≤ h →
    Written h (.decl d) d.words
  | ⟨params, body⟩, hp, h, hl => by
    obtain ⟨hparams, hbody⟩ := Bool.and_eq_true_iff.mp hp
    exact .decl (written_params_words params (of_decide_eq_true hparams))
      (Block.written_words body hbody h hl)

theorem Block.written_words : ∀ (b : Block), b.proper = true → ∀ h, b.levels ≤ h →
    Written h (.block b) b.words
  | ⟨stmts, _⟩, hp, h, hl => .block (written_stmtsWords stmts hp h hl)

theorem written_stmtsWords : ∀ (ts : List Stmt), stmtsProper ts = true → ∀ h, stmtsLevels ts ≤ h →
    Written h (.stmts ts) (stmtsWords ts)
  | [], _, _, _ => .noStmt
  | t :: ts, hp, h, hl => by
    obtain ⟨ht, hts⟩ := Bool.and_eq_true_iff.mp hp
    obtain ⟨hlt, hlts⟩ := Nat.max_le.mp hl
    exact .nextStmt (.toStmt (Stmt.written_words t ht) hlt) (written_stmtsWords ts hts h hlts)

theorem Stmt.written_words : ∀ (t : Stmt), t.proper = true → ∀ h, t.levels ≤ h →
    Written h (.body t) t.words
  | .expr value, hp, h, hl => .simple (.evaluation (.toExpr (Expr.written_words value hp) hl))
  | .assign _ x value, hp, h, hl => by
    have htarget := Written.toExpr (e := .name x.span x.name) (n := 0) (fun _ _ => .name)
      (Nat.le_trans (Nat.le_add_left 1 value.levels) hl)
    exact .simple (.assign htarget (.toExpr (Expr.written_words value hp) hl))
  | .assignProperty s target x value, hp, h, hl => by
    obtain ⟨htarget, hvalue⟩ := Bool.and_eq_true_iff.mp hp
    obtain ⟨hltarget, hlvalue⟩ := Nat.max_le.mp hl
    have hproperty := Written.toExpr (e := .property default target x)
      (fun h hn => .property (.fence (by decide) (Expr.written_words target htarget) hn)) hltarget
    have hwritten := Written.simple (.assignProperty (s := s) hproperty
      (.toExpr (Expr.written_words value hvalue) hlvalue))
    simpa [Stmt.words] using hwritten
  | .define _ _ x decl, hp, h, hl => .define (FnDecl.written_words decl hp h hl)
  | .cond _ test yes none, hp, h, hl => by
    obtain ⟨htest, hyes⟩ := Bool.and_eq_true_iff.mp hp
    obtain ⟨hltest, hlyes⟩ := Nat.max_le.mp hl
    exact .cond (.toExpr (Expr.written_words test htest) hltest)
      (.toStmt (Stmt.written_words yes hyes) hlyes)
  | .cond _ test yes (some no), hp, h, hl => by
    obtain ⟨hp, hno⟩ := Bool.and_eq_true_iff.mp hp
    obtain ⟨hp, hclosed⟩ := Bool.and_eq_true_iff.mp hp
    obtain ⟨htest, hyes⟩ := Bool.and_eq_true_iff.mp hp
    obtain ⟨hltest, hl⟩ := Nat.max_le.mp hl
    obtain ⟨hlyes, hlno⟩ := Nat.max_le.mp hl
    exact .condElse (Bool.not_eq_true' _ ▸ hclosed) (.toExpr (Expr.written_words test htest) hltest)
      (.toStmt (Stmt.written_words yes hyes) hlyes) (.toStmt (Stmt.written_words no hno) hlno)
  | .while _ test body, hp, h, hl => by
    obtain ⟨htest, hbody⟩ := Bool.and_eq_true_iff.mp hp
    obtain ⟨hltest, hlbody⟩ := Nat.max_le.mp hl
    exact .while (.toExpr (Expr.written_words test htest) hltest)
      (.toStmt (Stmt.written_words body hbody) hlbody)
  | .for s init test step body, hp, h, hl => by
    obtain ⟨hp, hbody⟩ := Bool.and_eq_true_iff.mp hp
    obtain ⟨hp, hstep⟩ := Bool.and_eq_true_iff.mp hp
    obtain ⟨hp, hstepSimple⟩ := Bool.and_eq_true_iff.mp hp
    obtain ⟨hp, htest⟩ := Bool.and_eq_true_iff.mp hp
    obtain ⟨hinitSimple, hinit⟩ := Bool.and_eq_true_iff.mp hp
    obtain ⟨hlinit, hl⟩ := Nat.max_le.mp hl
    obtain ⟨hltest, hl⟩ := Nat.max_le.mp hl
    obtain ⟨hlstep, hlbody⟩ := Nat.max_le.mp hl
    -- The first semicolon of the loop is that of the statement it begins with.
    obtain ⟨hwinit, heqinit⟩ := (Stmt.written_words init hinit h hlinit).simple_of_body hinitSimple
    obtain ⟨hwstep, -⟩ := (Stmt.written_words step hstep h hlstep).simple_of_body hstepSimple
    have hfor := Written.for (s := s) hwinit (.toExpr (Expr.written_words test htest) hltest)
      hwstep (.toStmt (Stmt.written_words body hbody) hlbody)
    rw [Stmt.words, heqinit]
    simpa using hfor
  | .break _, _, _, _ => .break
  | .continue _, _, _, _ => .continue
  | .return _ none, _, _, _ => .returnNull
  | .return _ (some value), hp, h, hl => .return (.toExpr (Expr.written_words value hp) hl)
  | .write _ value, hp, h, hl => .write (.toExpr (Expr.written_words value hp) hl)
  | .block b, hp, h, hl => .compound (Block.written_words b hp h hl)

end

/-- A proper program is written by its words, within its levels. -/
theorem Program.written_words (p : Program) (hp : p.proper = true) {h : Nat} (hl : p.levels ≤ h) :
    Written h (.stmts p.stmts) p.words :=
  written_stmtsWords p.stmts hp h hl

end SmallScript
