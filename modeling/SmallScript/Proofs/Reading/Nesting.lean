/-
  The count of open levels.

  A reader opens a level for each statement, each expression and each operand of a prefix operator,
  and it is one number that tells how many are open.  Each reader comes back to the number that it
  began with, whether it succeeds or gives up, and also where it gives up because there is no level
  left (`Called.balanced`).  So the statements of one list all begin with the same number, whatever
  was wrong with those before (`depth_of_turns`).

  That this number is what it stands for is said by readers that keep the list of the open levels
  themselves, and raise an alarm if the number is another than the length of the list.  They watch
  the beginning and the end of each statement, expression and operand, before a level is opened for it
  and within that level.  They do what the readers do that only count, whatever the alarm would do
  (`same_watched`).  An alarm that changes the document of a cursor, say, would be noticed in the end,
  since no reader does.
-/
import SmallScript.Proofs.Reading.Paths
import SmallScript.Proofs.Reading.Progress

namespace SmallScript

namespace Reading

variable {α : Type} {k : Kind} {m m' : Reading α} {c : Cursor} {levels : List Cursor.Level}

/-! ## All readers -/

/-- The steps that readers are made of. -/
inductive Step : {α : Type} → Reading α → Prop where
  | token : Step token
  | tokenSpan : Step tokenSpan
  | previous : Step previous
  | freshId : Step freshId
  | at (s : Symbol) : Step (at? s)
  | eat (s : Symbol) : Step (eat s)
  | eatKeyword (k : Keyword) : Step (eatKeyword k)
  | expect (s : Symbol) : Step (expect s)
  | endStatement : Step endStatement
  | identifier : Step identifier
  | refuse {α : Type} (code : Code) (message : Kind → String) : Step (refuse code message : Reading α)
  | literal (make : Span → NodeId → String → Expr) (raw : String) : Step (literal make raw)
  | atom (make : Span → Expr) : Step (atom make)
  | parameter (before : List String) : Step (parameter before)

theorem Balanced.always (h : m.Balanced) : Same (fun _ => True) m m := h.same

theorem Same.balanced (h : Same (fun _ => True) m m') : m.Balanced := fun c => (h c trivial).2

theorem Step.balanced (h : Step m) : m.Balanced := by
  cases h with
  | token => exact balanced_token
  | tokenSpan => exact balanced_tokenSpan
  | previous => exact balanced_previous
  | freshId => exact balanced_freshId
  | «at» s => exact balanced_at? s
  | eat s => exact balanced_eat s
  | eatKeyword k => exact balanced_eatKeyword k
  | expect s => exact balanced_expect s
  | endStatement => exact balanced_endStatement
  | identifier => exact balanced_identifier
  | refuse code message => exact balanced_refuse code message
  | literal make raw => exact balanced_literal make raw
  | atom make => exact balanced_atom make
  | parameter before => exact (same_parameter before).balanced

/-- **Each reader comes back to its depth**, whether it succeeds or not. -/
theorem Called.balanced (h : Called k m) : m.Balanced := by
  have he := balanced_expression.always
  have ho := balanced_prefixed.always
  have hs := balanced_statement.always
  have hb := same_block hs
  cases h with
  | statement => exact balanced_statement
  | statementBody => exact (he.statementBody hs).balanced
  | block => exact hb.balanced
  | definition => exact hb.definition.balanced
  | conditional => exact (he.conditional hs).balanced
  | whileLoop => exact (he.whileLoop hs).balanced
  | forLoop => exact (he.forLoop hs).balanced
  | returning => exact he.returning.balanced
  | «break» => exact (same_jump _).balanced
  | «continue» => exact (same_jump _).balanced
  | writing => exact he.writing.balanced
  | simple => exact he.simple.balanced
  | condition => exact he.condition.balanced
  | declaration => exact hb.declaration.balanced
  | params => exact (Same.items same_parameter).balanced
  | expression => exact balanced_expression
  | disjunction => exact ho.disjunction.balanced
  | conjunction => exact ho.comparison.chain.chain.balanced
  | coalescing => exact ho.comparison.chain.balanced
  | comparison => exact ho.comparison.balanced
  | additive => exact (Same.chain ho.chain).balanced
  | multiplicative => exact ho.chain.balanced
  | prefixed => exact balanced_prefixed
  | suffixed => exact (he.suffixed hb).balanced
  | primary => exact (he.primary hb).balanced
  | parenthesized => exact he.parenthesized.balanced
  | listLiteral => exact he.listLiteral.balanced
  | objectLiteral => exact he.objectLiteral.balanced
  | lambda => exact hb.lambda.balanced
  | member => exact he.member.balanced
  | items => exact (Same.items fun _ => he).balanced
  | members => exact (Same.items fun _ => he.member).balanced

/-! ## One level -/

/-- What is read one level deeper, with the way back. -/
def inside (m : Reading α) : Reading α := fun c =>
  let r := m { c with depth := c.depth + 1 }
  (r.1, { r.2 with depth := c.depth })

/-- A level is opened as long as there are levels; otherwise nothing is read, and no level opened. -/
theorem nested_eq (hm : m.Balanced) (c : Cursor) : nested m c =
    if c.depth < Cursor.maxDepth then inside m c
    else refuse .nestingTooDeep (fun _ => "nesting deeper than 128 levels") c := by
  unfold nested inside
  split
  · have hdepth : (m { c with depth := c.depth + 1 }).2.depth = c.depth + 1 := hm _
    dsimp only
    rw [hdepth]
    rfl
  · rfl

/-! ## Lists of statements -/

/-- One turn of reading the statements of a block or of a text. -/
def Turn (s t : List Stmt × Cursor) : Prop :=
  blockTurn statement s = .inl t ∨ programTurn statement s = .inl t

theorem depth_statementOrSkip (before : List Stmt) (c : Cursor) :
    (statementOrSkip statement before c).2.depth = c.depth :=
  (balanced_statement.always.statementOrSkip before c trivial).2

theorem Turn.depth {s t : List Stmt × Cursor} (h : Turn s t) : t.2.depth = s.2.depth := by
  obtain ⟨before, c⟩ := s
  unfold Turn blockTurn programTurn at h
  dsimp only at h
  rcases h with h | h
  · split at h
    · cases h
    · cases h
      exact depth_statementOrSkip before c
  · split at h
    · cases h
    · split at h
      · cases h
        exact depth_advance _
      · cases h
        exact depth_statementOrSkip before c

/-- All statements of a list begin at one depth. -/
theorem depth_of_turns {s t : List Stmt × Cursor} (h : Relation.ReflTransGen Turn s t) :
    t.2.depth = s.2.depth := by
  induction h with
  | refl => rfl
  | tail _ hturn ih => exact hturn.depth.trans ih

/-! ## Watched readers -/

end Reading

/-- The depth is the number of the levels `levels`, and these are no more than there may be. -/
def Cursor.Counts (c : Cursor) (levels : List Level) : Prop :=
  c.depth = levels.length ∧ levels.length ≤ maxDepth

instance (c : Cursor) (levels : List Cursor.Level) : Decidable (c.Counts levels) :=
  inferInstanceAs (Decidable (_ ∧ _))

namespace Reading

section Watched

variable (alarm : Cursor → Cursor)

/-- `m`, unless the depth is not the number of the open levels, be it before or behind. -/
def watched (levels : List Cursor.Level) (m : Reading α) : Reading α := fun c =>
  if c.Counts levels then
    if (m c).2.Counts levels then m c else (none, alarm (m c).2)
  else (none, alarm c)

mutual

/-- An expression within `levels`. -/
def expressionIn : Nat → List Cursor.Level → Reading Expr
  | 0, _ => fail
  | f + 1, levels => watched alarm levels
      (nested (watched alarm (.expression :: levels)
        (disjunction (operandIn f (.expression :: levels)))))

/-- An operand within `levels`. -/
def operandIn : Nat → List Cursor.Level → Reading Expr
  | 0, _ => fail
  | f + 1, levels => watched alarm levels
      (operand (watched alarm (.operand :: levels) (operandIn f (.operand :: levels)))
        (expressionIn f levels) (block (statementIn f levels)))

/-- A statement within `levels`. -/
def statementIn : Nat → List Cursor.Level → Reading Stmt
  | 0, _ => fail
  | f + 1, levels => watched alarm levels
      (nested (watched alarm (.statement :: levels)
        (statementBody (expressionIn f (.statement :: levels))
          (statementIn f (.statement :: levels)))))

end

variable {alarm}

/-- Where two readings do the same, there is nothing to be watched. -/
theorem Same.watched (h : Same (· = levels.length) m m') (hlimit : levels.length ≤ Cursor.maxDepth) :
    Same (· = levels.length) (Reading.watched alarm levels m) m' := by
  intro c hc
  obtain ⟨heq, hdepth⟩ := h c hc
  have hbefore : c.Counts levels := ⟨hc, hlimit⟩
  have hbehind : (m c).2.Counts levels := ⟨hdepth.trans hc, hlimit⟩
  unfold Reading.watched
  rw [if_pos hbefore, if_pos hbehind]
  exact ⟨heq, hdepth⟩

/-- A level more is opened only if there may be one more. -/
theorem Same.nested_watched {level : Cursor.Level}
    (h : (level :: levels).length ≤ Cursor.maxDepth →
      Same (· = (level :: levels).length) m m') :
    Same (· = levels.length) (Reading.nested (Reading.watched alarm (level :: levels) m))
      (Reading.nested m') := by
  rcases Nat.lt_or_ge levels.length Cursor.maxDepth with hlt | hge
  · refine ((h hlt).watched hlt).nested ?_
    rintro n - rfl
    rfl
  · refine same_nested_of_limit ?_
    rintro n rfl
    exact hge

/-- **The depth is the number of the open levels**: where it is so at the beginning, no alarm is ever
raised. -/
theorem same_watched (f : Nat) : ∀ levels : List Cursor.Level, levels.length ≤ Cursor.maxDepth →
    Same (· = levels.length) (expressionIn alarm f levels) (expressionAt f) ∧
      Same (· = levels.length) (operandIn alarm f levels) (operandAt f) ∧
      Same (· = levels.length) (statementIn alarm f levels) (statementAt f) := by
  have hfail : ∀ {α : Type}, (fail : Reading α).Balanced := fun _ => rfl
  induction f with
  | zero =>
    intro levels _
    rw [expressionIn, operandIn, statementIn, expressionAt, operandAt, statementAt]
    exact ⟨hfail.same, hfail.same, hfail.same⟩
  | succ f ih =>
    intro levels hlimit
    obtain ⟨hexpr, -, hstmt⟩ := ih levels hlimit
    rw [expressionIn, operandIn, statementIn, expressionAt_succ, operandAt_succ, statementAt_succ]
    refine ⟨?_, ?_, ?_⟩
    · refine Same.watched (Same.nested_watched fun hmore => ?_) hlimit
      exact (ih _ hmore).2.1.disjunction
    · refine Same.watched (same_operand ?_ hexpr (same_block hstmt)) hlimit
      exact Same.nested_watched fun hmore => (ih _ hmore).2.1
    · refine Same.watched (Same.nested_watched fun hmore => ?_) hlimit
      exact (ih _ hmore).1.statementBody (ih _ hmore).2.2

theorem watched_eq (alarm : Cursor → Cursor) (hc : c.Counts levels) :
    expressionIn alarm fuel levels c = expression c ∧ operandIn alarm fuel levels c = prefixed c ∧
      statementIn alarm fuel levels c = statement c := by
  obtain ⟨hexpr, hoperand, hstmt⟩ := @same_watched alarm fuel levels hc.2
  exact ⟨(hexpr c hc.1).1, (hoperand c hc.1).1, (hstmt c hc.1).1⟩

end Watched

end Reading

/-- **The depth of nesting is counted right**, whatever the tokens are.

1. Every reader, and every step that readers are made of, comes back to the depth that it began with,
   whether it succeeds or gives up; and so it is when tokens are skipped behind an error, and with
   lists of statements.
2. What is read one level deeper is read at a depth of at most the limit, and what was added to the
   depth is there to be taken off again.  At the limit nothing is read and the depth stays.
3. So all statements of a list begin at one depth, whatever has become of those before, and each is
   entered if the first one could be.
4. The depth is the number of the statements, expressions and operands of prefix operators that are
   open: readers that keep a list of these and raise an alarm at the beginning or the end of one of
   them, if the depth is another than the length of the list, or beyond the limit, do the same as those
   that only count, and so it is with a whole text. -/
theorem levels_counted :
    ((∀ (k : Kind) (α : Type) (m : Reading α), Reading.Called k m ∨ Reading.Step m →
        ∀ c, (m c).2.depth = c.depth) ∧
      ∀ (turns : Nat) (before : List Stmt) (c : Cursor),
        (Reading.resync turns c).depth = c.depth ∧
        (Reading.blockBody Reading.statement turns before c).2.depth = c.depth ∧
        (Reading.programBody Reading.statement turns before c).2.depth = c.depth) ∧
    (∀ (k : Kind) (α : Type) (m : Reading α), Reading.Called k m → ∀ c,
      (m { c with depth := c.depth + 1 }).2.depth = c.depth + 1 ∧ Reading.nested m c =
        if c.depth < Cursor.maxDepth then Reading.inside m c
        else Reading.refuse .nestingTooDeep (fun _ => "nesting deeper than 128 levels") c) ∧
    (∀ s t, Relation.ReflTransGen Reading.Turn s t → t.2.depth = s.2.depth ∧
      (s.2.depth < Cursor.maxDepth → Reading.statement t.2 =
        Reading.inside (Reading.statementBody Reading.expression Reading.statement) t.2)) ∧
    ((∀ alarm levels c, c.Counts levels →
        Reading.expressionIn alarm Reading.fuel levels c = Reading.expression c ∧
        Reading.operandIn alarm Reading.fuel levels c = Reading.prefixed c ∧
        Reading.statementIn alarm Reading.fuel levels c = Reading.statement c) ∧
      ∀ alarm doc tokens,
        Reading.programBody (Reading.statementIn alarm Reading.fuel [])
          (Cursor.ofTokens doc tokens).turns [] (Cursor.ofTokens doc tokens) =
        Reading.programBody Reading.statement
          (Cursor.ofTokens doc tokens).turns [] (Cursor.ofTokens doc tokens)) := by
  have hs := Reading.balanced_statement.always
  refine ⟨⟨fun k α m hm => ?_, fun turns before c => ⟨?_, ?_, ?_⟩⟩, fun k α m hm => ?_,
    fun s t hst => ⟨Reading.depth_of_turns hst, fun hbelow => ?_⟩, ⟨fun alarm levels c hc => ?_,
    fun alarm doc tokens => ?_⟩⟩
  · exact hm.elim (fun h => h.balanced) fun h => h.balanced
  · exact Reading.depth_resync turns c
  · exact (hs.blockBody turns before c trivial).2
  · exact (hs.programBody turns before c trivial).2
  · exact fun c => ⟨hm.balanced _, Reading.nested_eq hm.balanced c⟩
  · have hbody : Reading.Balanced (Reading.statementBody Reading.expression Reading.statement) :=
      (@Reading.Called.statementBody t.2.kind).balanced
    have hnested := Reading.nested_eq hbody t.2
    rw [← Reading.statement_eq, Reading.depth_of_turns hst, if_pos hbelow] at hnested
    exact hnested
  · exact Reading.watched_eq alarm hc
  · obtain ⟨-, -, hstmt⟩ := @Reading.same_watched alarm Reading.fuel [] (Nat.zero_le _)
    exact (hstmt.programBody _ [] _ (Cursor.depth_ofTokens doc tokens)).1

/-- The tokens of `write - … - 1; write 2;`, where the minus signs are more than there are levels. -/
def deepTokens : List Token :=
  (.keyword .write :: (List.replicate 130 (.symbol .minus) ++
    [.int "1", .symbol .semicolon, .keyword .write, .int "2", .symbol .semicolon, .eof])).map
      fun k => ⟨k, Span.point Place.start⟩

/-- The first statement is too deep, and the second one is read. -/
theorem deepTokens_counted :
    let doc : Document := { name := "", text := "" }
    let start := Cursor.ofTokens doc deepTokens
    let behind := Reading.statementOrSkip Reading.statement [] start
    ((Reading.statement start).1.isNone = true ∧
      behind.2.log.stored.toList.map (·.code) = [.nestingTooDeep] ∧ behind.2.depth = 0) ∧
    ((Reading.statement behind.2).1.isSome = true ∧ (Reading.statement behind.2).2.depth = 0 ∧
      Reading.statement behind.2 =
        Reading.inside (Reading.statementBody Reading.expression Reading.statement) behind.2) ∧
    Reading.nested Reading.prefixed { start with depth := 128 } =
      Reading.refuse .nestingTooDeep (fun _ => "nesting deeper than 128 levels")
        { start with depth := 128 } ∧
    ∀ alarm, Reading.operandIn alarm Reading.fuel [.operand, .expression, .statement]
      { start with depth := 3 } = Reading.prefixed { start with depth := 3 } := by
  intro doc start behind
  obtain ⟨⟨hback, -⟩, hnested, hturns, hwatched, -⟩ := levels_counted
  have hturn : Reading.Turn ([], start) behind := .inr rfl
  obtain ⟨hdepth, hinside⟩ := hturns _ _ (.single hturn)
  refine ⟨⟨by decide +kernel, by decide +kernel, hdepth⟩, ⟨by decide +kernel, ?_,
    hinside (by decide)⟩, ?_, fun alarm => ?_⟩
  · exact (hback .eof Stmt _ (.inl .statement) behind.2).trans hdepth
  · exact (hnested .eof Expr _ .prefixed _).2
  · exact (hwatched alarm _ _ (by decide)).2.1

end SmallScript
