/-
  The recursion of the readers, without its bound.

  Expressions, operands and statements are read by functions that count down a bound on open
  readings.  The nesting limit is always met first, so the bound is never felt: it does not matter
  what would be done beneath it (`above_fuel`), and the readers satisfy the equations that one would
  write without it (`expression_eq`, `prefixed_eq`, `statement_eq`).

  The proof compares two bounds.  `Same P m m'` says that at the depths with `P` the readings `m` and
  `m'` do the same, and that they leave the depth as they found it; so what follows them can be compared
  at the same depths.  There is one lemma for each way of building a reading, and then an induction on
  the number of levels that are left.
-/
import SmallScript.Tree.Parse

namespace SmallScript

namespace Reading

variable {α β : Type} {P Q : Nat → Prop}

/-- At the depths with `P` two readings do the same, and come back to the depth. -/
def Same (P : Nat → Prop) (m m' : Reading α) : Prop :=
  ∀ c, P c.depth → m c = m' c ∧ (m c).2.depth = c.depth

/-- A reading comes back to its depth, whether it succeeds or not. -/
def Balanced (m : Reading α) : Prop := ∀ c, (m c).2.depth = c.depth

/-- A reading that restores the depth is the same as itself at every depth. -/
theorem Balanced.same {m : Reading α} (h : m.Balanced) : Same P m m := fun c _ => ⟨rfl, h c⟩

/-! ## Steps -/

/-- Going on to the next token opens and closes no level. -/
@[simp] theorem depth_advance (c : Cursor) : c.advance.depth = c.depth := by
  unfold Cursor.advance
  split <;> rfl

/-- A reading that reads nothing restores the depth. -/
theorem balanced_pure (x : α) : (pure x : Reading α).Balanced := fun _ => rfl

theorem balanced_look (f : Cursor → α) : (look f).Balanced := fun _ => rfl

theorem balanced_move {f : Cursor → Cursor} (h : ∀ c, (f c).depth = c.depth) :
    (move f).Balanced := h

/-- A complaint does not change the depth. -/
theorem balanced_refuse (code : Code) (message : Kind → String) :
    (refuse code message : Reading α).Balanced := fun _ => rfl

/-- A token is read at the depth of the cursor. -/
theorem balanced_token : token.Balanced := depth_advance

theorem balanced_tokenSpan : tokenSpan.Balanced := depth_advance

/-- Whether a symbol is there or not, the depth is what it was. -/
theorem balanced_eat (s : Symbol) : (eat s).Balanced := by
  intro c
  unfold eat
  split
  · exact depth_advance c
  · rfl

theorem balanced_eatKeyword (k : Keyword) : (eatKeyword k).Balanced := by
  intro c
  unfold eatKeyword
  split
  · exact depth_advance c
  · rfl

theorem balanced_at? (s : Symbol) : (at? s).Balanced := balanced_look _

/-- A missing symbol is logged, at the depth of the cursor. -/
theorem balanced_expect (s : Symbol) : (expect s).Balanced := by
  intro c
  unfold expect
  split
  · exact depth_advance c
  · rfl

/-- A statement ends with a semicolon, or with a complaint. -/
theorem balanced_endStatement : endStatement.Balanced := by
  intro c
  unfold endStatement
  split
  · exact depth_advance c
  · rfl

theorem balanced_identifier : identifier.Balanced := by
  intro c
  unfold identifier
  split
  · exact depth_advance c
  · rfl
  · rfl

/-- Handing out a number opens no level. -/
theorem balanced_freshId : freshId.Balanced := fun _ => rfl

theorem balanced_previous : previous.Balanced := balanced_look _

/-! ## Ways of building -/

/-- Two readings that are the same, each followed by one: the second starts at the depth of the
first. -/
theorem Same.bind {m m' : Reading α} {f f' : α → Reading β} (hm : Same P m m')
    (hf : ∀ x, Same P (f x) (f' x)) : Same P (m >>= f) (m' >>= f') := by
  intro c hc
  obtain ⟨heq, hdepth⟩ := hm c hc
  change Reading.bind m f c = Reading.bind m' f' c ∧ (Reading.bind m f c).2.depth = c.depth
  unfold Reading.bind
  rw [← heq]
  rcases hr : m c with ⟨_ | x, e⟩
  · rw [hr] at hdepth
    exact ⟨rfl, hdepth⟩
  · rw [hr] at hdepth
    obtain ⟨heq', hdepth'⟩ := hf x e (by rw [hdepth]; exact hc)
    exact ⟨heq', hdepth'.trans hdepth⟩

/-- What is made of what they read does not matter. -/
theorem Same.map {m m' : Reading α} (hm : Same P m m') (f : α → β) :
    Same P (f <$> m) (f <$> m') :=
  Same.bind hm fun _ => (balanced_pure _).same

/-- What is done one level deeper is compared one level deeper. -/
theorem Same.nested {m m' : Reading α} (h : Same Q m m')
    (hPQ : ∀ n, n < Cursor.maxDepth → P n → Q (n + 1)) : Same P (nested m) (nested m') := by
  intro c hc
  unfold Reading.nested
  split
  · obtain ⟨heq, hdepth⟩ := h { c with depth := c.depth + 1 } (hPQ c.depth ‹_› hc)
    rw [← heq]
    refine ⟨rfl, ?_⟩
    change (m _).2.depth - 1 = c.depth
    rw [hdepth]
    rfl
  · exact ⟨rfl, rfl⟩

/-- At the limit nothing is done one level deeper. -/
theorem same_nested_of_limit {m m' : Reading α} (hP : ∀ n, P n → Cursor.maxDepth ≤ n) :
    Same P (nested m) (nested m') := by
  intro c hc
  have hlimit : ¬ c.depth < Cursor.maxDepth := Nat.not_lt.2 (hP c.depth hc)
  unfold Reading.nested
  rw [if_neg hlimit, if_neg hlimit]
  exact ⟨rfl, rfl⟩

/-- By induction on the turns, as the loop runs. -/
theorem Same.itemsFrom {close : Symbol} {item item' : List α → Reading α}
    (h : ∀ b, Same P (item b) (item' b)) (turns : Nat) :
    ∀ before, Same P (itemsFrom close item turns before) (itemsFrom close item' turns before) := by
  induction turns with
  | zero => exact fun before => (balanced_pure before).same
  | succ turns ih =>
    intro before
    refine (balanced_at? close).same.bind fun closing => ?_
    split
    · exact (balanced_pure before).same
    · refine (h before).bind fun x => (balanced_eat .comma).same.bind fun more => ?_
      split
      · exact ih _
      · exact (balanced_pure _).same

/-- So readings of items make the same reading of a list of items. -/
theorem Same.items {close : Symbol} {item item' : List α → Reading α}
    (h : ∀ b, Same P (item b) (item' b)) : Same P (items close item) (items close item') := by
  refine (balanced_look _).same.bind fun turns => (Same.itemsFrom h turns []).bind fun read => ?_
  exact (balanced_expect close).same.bind fun _ => (balanced_pure _).same

/-- A chain of operands takes one more with each turn. -/
theorem Same.chainFrom {join? : Kind → Option (α → α → α)} {operand operand' : Reading α}
    (h : Same P operand operand') (turns : Nat) :
    ∀ left, Same P (chainFrom join? operand turns left) (chainFrom join? operand' turns left) := by
  induction turns with
  | zero => exact fun left => (balanced_pure left).same
  | succ turns ih =>
    intro left
    refine (balanced_look _).same.bind fun kind => ?_
    cases join? kind with
    | none => exact (balanced_pure left).same
    | some join =>
      exact balanced_token.same.bind fun _ => h.bind fun right => ih _

/-- So chains over operands that are the same are the same. -/
theorem Same.chain {join? : Kind → Option (α → α → α)} {operand operand' : Reading α}
    (h : Same P operand operand') : Same P (chain join? operand) (chain join? operand') :=
  h.bind fun first => (balanced_look _).same.bind fun turns => Same.chainFrom h turns first

/-! ## Expressions -/

section Expressions

variable {operand operand' expr expr' : Reading Expr} {block block' : Reading Block}

/-- A comparison is an operand, an operator and one more operand. -/
theorem Same.comparison (h : Same P operand operand') :
    Same P (comparison operand) (comparison operand') := by
  have hadd : Same P (additive operand) (additive operand') := Same.chain (Same.chain h)
  refine hadd.bind fun left => (balanced_look _).same.bind fun kind => ?_
  cases comparisonOp? kind with
  | none => exact (balanced_pure left).same
  | some op =>
    refine balanced_token.same.bind fun _ => hadd.bind fun right => ?_
    refine (balanced_move fun c => ?_).same.bind fun _ => (balanced_pure _).same
    split <;> rfl

/-- Each precedence is a chain over the next, down to the operands. -/
theorem Same.disjunction (h : Same P operand operand') :
    Same P (disjunction operand) (disjunction operand') :=
  Same.chain (Same.chain (Same.chain h.comparison))

/-- A parameter holds no expression, so there is nothing to exchange in it. -/
theorem same_parameter (before : List String) : Same P (parameter before) (parameter before) := by
  refine balanced_identifier.same.bind fun x => ?_
  refine (balanced_move fun c => ?_).same.bind fun _ => (balanced_pure x.name).same
  split <;> rfl

/-- Parameters and a body. -/
theorem Same.declaration (h : Same P block block') :
    Same P (declaration block) (declaration block') := by
  refine (balanced_expect .lparen).same.bind fun _ => ?_
  refine (Same.items same_parameter).bind fun params => ?_
  exact h.bind fun body => (balanced_pure _).same

/-- A name, and an expression behind a colon. -/
theorem Same.member (h : Same P expr expr') : Same P (member expr) (member expr') := by
  refine balanced_identifier.same.bind fun name => (balanced_expect .colon).same.bind fun _ => ?_
  exact h.bind fun value => (balanced_pure _).same

/-- A literal is one token. -/
theorem balanced_literal (make : Span → NodeId → String → Expr) (raw : String) :
    (literal make raw).Balanced := depth_advance

theorem balanced_atom (make : Span → Expr) : (atom make).Balanced := depth_advance

/-- An expression between parentheses. -/
theorem Same.parenthesized (h : Same P expr expr') :
    Same P (parenthesized expr) (parenthesized expr') := by
  refine balanced_tokenSpan.same.bind fun start => h.bind fun inner => ?_
  refine (balanced_expect _).same.bind fun _ => balanced_previous.same.bind fun _ => ?_
  exact (balanced_pure _).same

/-- Expressions between brackets. -/
theorem Same.listLiteral (h : Same P expr expr') :
    Same P (listLiteral expr) (listLiteral expr') := by
  refine balanced_tokenSpan.same.bind fun start => balanced_freshId.same.bind fun id => ?_
  refine (Same.items fun _ => h).bind fun items => balanced_previous.same.bind fun _ => ?_
  exact (balanced_pure _).same

/-- Members between braces. -/
theorem Same.objectLiteral (h : Same P expr expr') :
    Same P (objectLiteral expr) (objectLiteral expr') := by
  refine balanced_tokenSpan.same.bind fun start => (balanced_expect _).same.bind fun _ => ?_
  refine (Same.items fun _ => h.member).bind fun members => ?_
  exact balanced_previous.same.bind fun _ => (balanced_pure _).same

theorem Same.lambda (h : Same P block block') : Same P (lambda block) (lambda block') := by
  refine balanced_tokenSpan.same.bind fun start => h.declaration.bind fun decl => ?_
  exact balanced_previous.same.bind fun _ => (balanced_pure _).same

/-- What stands at the head of an operand is known from its first token. -/
theorem Same.primary (he : Same P expr expr') (hb : Same P block block') :
    Same P (primary expr block) (primary expr' block') := by
  refine (balanced_look _).same.bind fun kind => ?_
  split
  · exact (balanced_literal _ _).same
  · exact (balanced_literal _ _).same
  · exact (balanced_literal _ _).same
  · exact (balanced_atom _).same
  · exact (balanced_atom _).same
  · exact (balanced_atom _).same
  · exact (balanced_atom _).same
  · exact he.parenthesized
  · exact he.listLiteral
  · exact he.objectLiteral
  · exact hb.lambda
  · exact (balanced_refuse _ _).same

/-- Each turn takes a call or a property, and leaves the depth alone. -/
theorem Same.suffixes (he : Same P expr expr') (turns : Nat) :
    ∀ target, Same P (suffixes expr turns target) (suffixes expr' turns target) := by
  induction turns with
  | zero => exact fun target => (balanced_pure target).same
  | succ turns ih =>
    intro target
    refine (balanced_look _).same.bind fun kind => ?_
    split
    · refine balanced_token.same.bind fun _ => (Same.items fun _ => he).bind fun args => ?_
      exact balanced_previous.same.bind fun _ => ih _
    · exact balanced_token.same.bind fun _ => balanced_identifier.same.bind fun name => ih _
    · exact (balanced_pure target).same

/-- A head with its suffixes. -/
theorem Same.suffixed (he : Same P expr expr') (hb : Same P block block') :
    Same P (suffixed expr block) (suffixed expr' block') :=
  (he.primary hb).bind fun first =>
    (balanced_look _).same.bind fun turns => Same.suffixes he turns first

/-- Only the operand of a prefix opens a level; a head with suffixes does not. -/
theorem same_operand (ho : Same P (nested operand) (nested operand')) (he : Same P expr expr')
    (hb : Same P block block') :
    Same P (Reading.operand operand expr block) (Reading.operand operand' expr' block') := by
  refine (balanced_look _).same.bind fun kind => ?_
  cases unaryOp? kind with
  | none => exact he.suffixed hb
  | some op =>
    exact balanced_tokenSpan.same.bind fun start => ho.bind fun inner => (balanced_pure _).same

end Expressions

/-! ## Statements -/

/-- Skipping to the next statement leaves the depth where it is. -/
theorem depth_resync (turns : Nat) (c : Cursor) : (resync turns c).depth = c.depth := by
  induction turns generalizing c with
  | zero => rfl
  | succ turns ih =>
    unfold resync
    split
    · rfl
    · split
      · exact depth_advance c
      · split
        · rfl
        · rw [ih, depth_advance]

section Statements

variable {expr expr' : Reading Expr} {block block' : Reading Block}
  {statement statement' : Reading Stmt}

/-- A statement that is given up is followed by skipping, in the same place in both readings. -/
theorem Same.statementOrSkip (h : Same P statement statement') (before : List Stmt) (c : Cursor)
    (hc : P c.depth) :
    statementOrSkip statement before c = statementOrSkip statement' before c ∧
      (statementOrSkip statement before c).2.depth = c.depth := by
  obtain ⟨heq, hdepth⟩ := h c hc
  unfold Reading.statementOrSkip
  rw [← heq]
  refine ⟨rfl, ?_⟩
  rcases hr : statement c with ⟨_ | t, e⟩
  · rw [hr] at hdepth
    dsimp only
    split
    · rw [depth_advance, depth_resync, hdepth]
    · rw [depth_resync, hdepth]
  · rw [hr] at hdepth
    exact hdepth

/-- By induction on the turns: the statements of a block. -/
theorem Same.blockBody (h : Same P statement statement') (turns : Nat) :
    ∀ before c, P c.depth →
      blockBody statement turns before c = blockBody statement' turns before c ∧
        (blockBody statement turns before c).2.depth = c.depth := by
  induction turns with
  | zero => exact fun before c _ => ⟨rfl, rfl⟩
  | succ turns ih =>
    intro before c hc
    obtain ⟨heq, hdepth⟩ := h.statementOrSkip before c hc
    unfold Reading.blockBody
    split
    · exact ⟨rfl, rfl⟩
    · rw [← heq]
      obtain ⟨heq', hdepth'⟩ := ih (Reading.statementOrSkip statement before c).1
        (Reading.statementOrSkip statement before c).2 (by rw [hdepth]; exact hc)
      exact ⟨heq', hdepth'.trans hdepth⟩

/-- The same for the statements of a document. -/
theorem Same.programBody (h : Same P statement statement') (turns : Nat) :
    ∀ before c, P c.depth →
      programBody statement turns before c = programBody statement' turns before c ∧
        (programBody statement turns before c).2.depth = c.depth := by
  induction turns with
  | zero => exact fun before c _ => ⟨rfl, rfl⟩
  | succ turns ih =>
    intro before c hc
    unfold Reading.programBody
    split
    · exact ⟨rfl, rfl⟩
    · split
      · obtain ⟨heq, hdepth⟩ := ih before
          (c.complainHere .unexpectedToken "unmatched '\x7d'").advance (by rw [depth_advance]; exact hc)
        exact ⟨heq, hdepth.trans (depth_advance _)⟩
      · obtain ⟨heq, hdepth⟩ := h.statementOrSkip before c hc
        rw [← heq]
        obtain ⟨heq', hdepth'⟩ := ih (Reading.statementOrSkip statement before c).1
          (Reading.statementOrSkip statement before c).2 (by rw [hdepth]; exact hc)
        exact ⟨heq', hdepth'.trans hdepth⟩

/-- Statements between braces. -/
theorem same_block (h : Same P statement statement') :
    Same P (Reading.block statement) (Reading.block statement') := by
  refine (balanced_look _).same.bind fun start => (balanced_expect _).same.bind fun _ => ?_
  refine Same.bind (fun c hc => ?_) fun stmts => (balanced_expect _).same.bind fun _ =>
    balanced_previous.same.bind fun _ => (balanced_pure _).same
  obtain ⟨heq, hdepth⟩ := h.blockBody c.turns [] c hc
  dsimp only
  rw [← heq]
  exact ⟨rfl, hdepth⟩

/-- An expression, or the two sides of an assignment. -/
theorem Same.simple (h : Same P expr expr') : Same P (simple expr) (simple expr') := by
  refine h.bind fun target => (balanced_at? _).same.bind fun assigned => ?_
  split
  · refine balanced_tokenSpan.same.bind fun eq => h.bind fun value => Balanced.same fun c => ?_
    cases target <;> rfl
  · exact (balanced_pure _).same

theorem Same.definition (h : Same P block block') :
    Same P (definition block) (definition block') := by
  refine balanced_tokenSpan.same.bind fun start => balanced_freshId.same.bind fun id => ?_
  refine balanced_identifier.same.bind fun name => h.declaration.bind fun decl => ?_
  exact balanced_previous.same.bind fun _ => (balanced_pure _).same

/-- A test between parentheses. -/
theorem Same.condition (h : Same P expr expr') : Same P (condition expr) (condition expr') := by
  refine (balanced_expect _).same.bind fun _ => h.bind fun test => ?_
  exact (balanced_expect _).same.bind fun _ => (balanced_pure _).same

/-- A test, a branch, and perhaps one more. -/
theorem Same.conditional (he : Same P expr expr') (hs : Same P statement statement') :
    Same P (conditional expr statement) (conditional expr' statement') := by
  refine balanced_tokenSpan.same.bind fun start => he.condition.bind fun test => ?_
  refine hs.bind fun yes => (balanced_eatKeyword _).same.bind fun more => ?_
  have hend : ∀ no, Same P (do pure (Stmt.cond (start.cover (← previous)) test yes no))
      (do pure (Stmt.cond (start.cover (← previous)) test yes no)) :=
    fun no => balanced_previous.same.bind fun _ => (balanced_pure _).same
  split
  · exact (hs.map some).bind hend
  · exact (balanced_pure none).same.bind hend

theorem Same.whileLoop (he : Same P expr expr') (hs : Same P statement statement') :
    Same P (whileLoop expr statement) (whileLoop expr' statement') := by
  refine balanced_tokenSpan.same.bind fun start => he.condition.bind fun test => ?_
  exact hs.bind fun body => balanced_previous.same.bind fun _ => (balanced_pure _).same

/-- A start, a test and a step between parentheses, and a body. -/
theorem Same.forLoop (he : Same P expr expr') (hs : Same P statement statement') :
    Same P (forLoop expr statement) (forLoop expr' statement') := by
  refine balanced_tokenSpan.same.bind fun start => (balanced_expect _).same.bind fun _ => ?_
  refine he.simple.bind fun init => (balanced_expect _).same.bind fun _ => ?_
  refine he.bind fun test => (balanced_expect _).same.bind fun _ => ?_
  refine he.simple.bind fun step => (balanced_expect _).same.bind fun _ => ?_
  exact hs.bind fun body => balanced_previous.same.bind fun _ => (balanced_pure _).same

/-- The value of a return may be left out. -/
theorem Same.returning (h : Same P expr expr') : Same P (returning expr) (returning expr') := by
  refine balanced_tokenSpan.same.bind fun start => (balanced_at? _).same.bind fun bare => ?_
  have hend : ∀ value, Same P
      (do endStatement; pure (Stmt.return (start.cover (← previous)) value))
      (do endStatement; pure (Stmt.return (start.cover (← previous)) value)) :=
    fun value => balanced_endStatement.same.bind fun _ =>
      balanced_previous.same.bind fun _ => (balanced_pure _).same
  split
  · exact (balanced_pure none).same.bind hend
  · exact (h.map some).bind hend

theorem same_jump (make : Span → Stmt) : Same P (jump make) (jump make) := by
  refine balanced_tokenSpan.same.bind fun start => balanced_endStatement.same.bind fun _ => ?_
  exact balanced_previous.same.bind fun _ => (balanced_pure _).same

theorem Same.writing (h : Same P expr expr') : Same P (writing expr) (writing expr') := by
  refine balanced_tokenSpan.same.bind fun start => h.bind fun value => ?_
  refine balanced_endStatement.same.bind fun _ => balanced_previous.same.bind fun _ => ?_
  exact (balanced_pure _).same

/-- The first token of a statement tells its kind. -/
theorem Same.statementBody (he : Same P expr expr') (hs : Same P statement statement') :
    Same P (statementBody expr statement) (statementBody expr' statement') := by
  refine (balanced_look _).same.bind fun kinds => ?_
  split
  · exact (same_block hs).map _
  · exact (same_block hs).definition
  · exact he.conditional hs
  · exact he.whileLoop hs
  · exact he.forLoop hs
  · exact he.returning
  · exact same_jump _
  · exact same_jump _
  · exact he.writing
  · refine he.simple.bind fun t => balanced_endStatement.same.bind fun _ => ?_
    exact (balanced_pure t).same

end Statements

/-! ## The recursion -/

theorem expressionAt_succ (f : Nat) :
    expressionAt (f + 1) = nested (disjunction (operandAt f)) := by
  rw [expressionAt]

theorem operandAt_succ (f : Nat) : operandAt (f + 1) =
    operand (operandAt f) (expressionAt f) (block (statementAt f)) := by
  rw [operandAt]

theorem statementAt_succ (f : Nat) :
    statementAt (f + 1) = nested (statementBody (expressionAt f) (statementAt f)) := by
  rw [statementAt]

/-- The readers of the tree that call each other. -/
@[ext] structure Readers where
  expression : Reading Expr
  operand : Reading Expr
  statement : Reading Stmt

/-- The readers that call the readers `r`. -/
def Readers.callers (r : Readers) : Readers where
  expression := nested (disjunction r.operand)
  operand := Reading.operand r.operand r.expression (block r.statement)
  statement := nested (statementBody r.expression r.statement)

/-- The readers `f` calls above the readers `bottom`. -/
def Readers.above (bottom : Readers) : Nat → Readers
  | 0 => bottom
  | f + 1 => (bottom.above f).callers

/-- Bounded readers stand above readers that do nothing. -/
theorem above_fail (f : Nat) :
    Readers.above ⟨fail, fail, fail⟩ f = ⟨expressionAt f, operandAt f, statementAt f⟩ := by
  induction f with
  | zero =>
    rw [expressionAt, operandAt, statementAt]
    rfl
  | succ f ih =>
    rw [Readers.above, ih, expressionAt_succ, operandAt_succ, statementAt_succ]
    rfl

/-- At the limit it does not matter which readers are called one level deeper. -/
theorem same_callers_of_limit (r r' : Readers) (hP : ∀ n, P n → Cursor.maxDepth ≤ n) :
    Same P r.callers.expression r'.callers.expression ∧
      Same P r.callers.statement r'.callers.statement :=
  ⟨@same_nested_of_limit _ _ (disjunction r.operand) (disjunction r'.operand) hP,
    @same_nested_of_limit _ _ (statementBody r.expression r.statement)
      (statementBody r'.expression r'.statement) hP⟩

/-- With enough calls for the `k` levels that are left, it does not matter which readers are at the
bottom, or how far below they are: an expression or statement takes two calls for each level, and an
operand takes one more. -/
theorem same_of_levels (k : Nat) (r r' : Readers) :
    (∀ f f', 2 * k + 1 ≤ f → 2 * k + 1 ≤ f' →
      Same (Cursor.maxDepth - k ≤ ·) (r.above f).expression (r'.above f').expression ∧
      Same (Cursor.maxDepth - k ≤ ·) (r.above f).statement (r'.above f').statement) ∧
    (∀ f f', 2 * k + 2 ≤ f → 2 * k + 2 ≤ f' →
      Same (Cursor.maxDepth - k ≤ ·) (r.above f).operand (r'.above f').operand) := by
  -- An operand opens no level itself, so it rests on the expressions and statements of its level.
  have operands : ∀ k,
      (∀ f f', 2 * k + 1 ≤ f → 2 * k + 1 ≤ f' →
        Same (Cursor.maxDepth - k ≤ ·) (r.above f).expression (r'.above f').expression ∧
        Same (Cursor.maxDepth - k ≤ ·) (r.above f).statement (r'.above f').statement) →
      (∀ f f', 2 * k + 1 ≤ f → 2 * k + 1 ≤ f' →
        Same (Cursor.maxDepth - k ≤ ·) (nested (r.above f).operand) (nested (r'.above f').operand)) →
      ∀ f f', 2 * k + 2 ≤ f → 2 * k + 2 ≤ f' →
        Same (Cursor.maxDepth - k ≤ ·) (r.above f).operand (r'.above f').operand := by
    intro k hk hnested f f' hf hf'
    obtain ⟨f, rfl⟩ := Nat.exists_eq_succ_of_ne_zero (show f ≠ 0 by omega)
    obtain ⟨f', rfl⟩ := Nat.exists_eq_succ_of_ne_zero (show f' ≠ 0 by omega)
    obtain ⟨hexpr, hstmt⟩ := hk f f' (by omega) (by omega)
    exact same_operand (hnested f f' (by omega) (by omega)) hexpr (same_block hstmt)
  induction k with
  | zero =>
    -- No level is left: whatever the bounds are, nothing is read one level deeper.
    have limit : ∀ n, Cursor.maxDepth - 0 ≤ n → Cursor.maxDepth ≤ n := fun n hn => hn
    have hk : ∀ f f', 2 * 0 + 1 ≤ f → 2 * 0 + 1 ≤ f' →
        Same (Cursor.maxDepth - 0 ≤ ·) (r.above f).expression (r'.above f').expression ∧
        Same (Cursor.maxDepth - 0 ≤ ·) (r.above f).statement (r'.above f').statement := by
      intro f f' hf hf'
      obtain ⟨f, rfl⟩ := Nat.exists_eq_succ_of_ne_zero (show f ≠ 0 by omega)
      obtain ⟨f', rfl⟩ := Nat.exists_eq_succ_of_ne_zero (show f' ≠ 0 by omega)
      exact same_callers_of_limit (r.above f) (r'.above f') limit
    exact ⟨hk, operands 0 hk fun f f' _ _ => same_nested_of_limit limit⟩
  | succ k ih =>
    obtain ⟨ihk, iho⟩ := ih
    have hlevel : ∀ n, n < Cursor.maxDepth → Cursor.maxDepth - (k + 1) ≤ n →
        Cursor.maxDepth - k ≤ n + 1 := by
      intro n _ hn
      omega
    have hk : ∀ f f', 2 * (k + 1) + 1 ≤ f → 2 * (k + 1) + 1 ≤ f' →
        Same (Cursor.maxDepth - (k + 1) ≤ ·) (r.above f).expression (r'.above f').expression ∧
        Same (Cursor.maxDepth - (k + 1) ≤ ·) (r.above f).statement (r'.above f').statement := by
      intro f f' hf hf'
      obtain ⟨f, rfl⟩ := Nat.exists_eq_succ_of_ne_zero (show f ≠ 0 by omega)
      obtain ⟨f', rfl⟩ := Nat.exists_eq_succ_of_ne_zero (show f' ≠ 0 by omega)
      obtain ⟨hexpr, hstmt⟩ := ihk f f' (by omega) (by omega)
      have hoperand := iho f f' (by omega) (by omega)
      exact ⟨hoperand.disjunction.nested hlevel, (hexpr.statementBody hstmt).nested hlevel⟩
    refine ⟨hk, operands (k + 1) hk fun f f' hf hf' => ?_⟩
    exact (iho f f' (by omega) (by omega)).nested hlevel

/-- `fuel` calls are enough for all levels, whatever the readers at the bottom do. -/
theorem same_above (bottom bottom' : Readers) {f f' : Nat} (hf : fuel ≤ f) (hf' : fuel ≤ f') :
    Same (0 ≤ ·) (bottom.above f).expression (bottom'.above f').expression ∧
      Same (0 ≤ ·) (bottom.above f).statement (bottom'.above f').statement ∧
      Same (0 ≤ ·) (bottom.above f).operand (bottom'.above f').operand := by
  obtain ⟨hk, ho⟩ := same_of_levels Cursor.maxDepth bottom bottom'
  have hfuel : 2 * Cursor.maxDepth + 2 ≤ fuel := by decide
  rw [Nat.sub_self] at hk ho
  obtain ⟨hexpr, hstmt⟩ := hk f f' (by omega) (by omega)
  exact ⟨hexpr, hstmt, ho f f' (by omega) (by omega)⟩

/-- An operand: what is read behind and in front of a primary expression. -/
def prefixed : Reading Expr := operandAt fuel

/-- The bound on open readings is never felt, so one more makes no difference. -/
theorem same_fuel :
    Same (0 ≤ ·) (expressionAt fuel) (expressionAt (fuel + 1)) ∧
      Same (0 ≤ ·) (statementAt fuel) (statementAt (fuel + 1)) ∧
      Same (0 ≤ ·) (operandAt fuel) (operandAt (fuel + 1)) := by
  have hsame := same_above ⟨fail, fail, fail⟩ ⟨fail, fail, fail⟩ (Nat.le_refl fuel) (Nat.le_succ fuel)
  rwa [above_fail, above_fail] at hsame

/-- The bound is never felt: no call is so deep that it would be one of the readers at the bottom. -/
theorem above_fuel (bottom : Readers) :
    bottom.above fuel = ⟨expression, prefixed, statement⟩ := by
  obtain ⟨hexpr, hstmt, hoperand⟩ :=
    same_above bottom ⟨fail, fail, fail⟩ (Nat.le_refl fuel) (Nat.le_refl fuel)
  rw [above_fail] at hexpr hstmt hoperand
  exact Readers.ext (funext fun c => (hexpr c (Nat.zero_le _)).1)
    (funext fun c => (hoperand c (Nat.zero_le _)).1) (funext fun c => (hstmt c (Nat.zero_le _)).1)

/-- An expression is one level of nesting around its operands. -/
theorem expression_eq : expression = nested (disjunction prefixed) := by
  funext c
  rw [expression, (same_fuel.1 c (Nat.zero_le _)).1, expressionAt_succ]
  rfl

/-- A statement is one level of nesting around its parts. -/
theorem statement_eq : statement = nested (statementBody expression statement) := by
  funext c
  rw [statement, (same_fuel.2.1 c (Nat.zero_le _)).1, statementAt_succ]
  rfl

/-- An operand is made of operands, expressions and blocks. -/
theorem prefixed_eq : prefixed = operand prefixed expression (block statement) := by
  funext c
  rw [prefixed, (same_fuel.2.2 c (Nat.zero_le _)).1, operandAt_succ]
  rfl

/-- Expressions, operands and statements come back to their depth. -/
theorem balanced_expression : expression.Balanced := fun c => (same_fuel.1 c (Nat.zero_le _)).2

theorem balanced_prefixed : prefixed.Balanced := fun c => (same_fuel.2.2 c (Nat.zero_le _)).2

/-- Whatever a statement has come to, the depth is what it was. -/
theorem balanced_statement : statement.Balanced := fun c => (same_fuel.2.1 c (Nat.zero_le _)).2

end Reading

end SmallScript
