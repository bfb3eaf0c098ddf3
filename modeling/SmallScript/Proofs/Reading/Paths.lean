/-
  What a reader does, step by step.

  A reader passes tokens, hands out numbers, complains, and enters levels of nesting that it leaves
  again; it does nothing else to its cursor.  `c.Path es d` says that doing `es` leads from `c` to
  `d`, and that every level which is entered is left before the path ends.  Each reader takes a
  path from wherever it starts, whether it gives up or not (`Traced`).  So what every step keeps is
  kept by every reader, and one need not go through the readers again to see it: the induction is
  on the path.

  The first thing seen in this way is that nothing a reader complains about is lost
  (`Path.records`).  With what the scan complains about this tells the log of a whole document
  (`logs_record_all`).
-/
import SmallScript.Proofs.Diagnostic.Records
import SmallScript.Proofs.Reading.Faithful

namespace SmallScript

/-! ## Paths -/

namespace Cursor

/-- What a level of nesting is entered for; an operand is that of a prefix operator. -/
inductive Level where
  | statement
  | expression
  | operand

/-- One thing that a reader does. -/
inductive Event where
  | pass
  | number
  | complain (d : Diagnostic)
  | enter (level : Level)
  | leave

/-- What is complained about in an event. -/
def Event.diagnostic? : Event → Option Diagnostic
  | complain d => some d
  | _ => none

/-- The complaints among some events, in their order. -/
def complaints (es : List Event) : List Diagnostic := es.filterMap Event.diagnostic?

/-- From one cursor to another by some events.  A level is entered only below the limit, and what is
done in it comes to an end before it is left. -/
inductive Path : Cursor → List Event → Cursor → Prop where
  | stay (c : Cursor) : Path c [] c
  | pass {c d : Cursor} {es : List Event} : Path c es d → Path c (es ++ [.pass]) d.advance
  | number {c d : Cursor} {es : List Event} :
      Path c es d → Path c (es ++ [.number]) { d with nextId := d.nextId + 1 }
  | complain {c d : Cursor} {es : List Event} (code : Code) (message : String) (span : Span)
      (suggestion : Option String) : Path c es d →
      Path c (es ++ [.complain (Diagnostic.about d.doc code message span suggestion)])
        (d.complain code message span suggestion)
  | nested {c d e : Cursor} {es fs : List Event} (level : Level) : Path c es d →
      d.depth < maxDepth → Path { d with depth := d.depth + 1 } fs e →
      Path c (es ++ (.enter level :: fs ++ [.leave])) { e with depth := e.depth - 1 }

variable {c d e : Cursor} {es fs : List Event}

/-- The complaints on two paths, one behind the other, come in that order. -/
theorem complaints_append (es fs : List Event) :
    complaints (es ++ fs) = complaints es ++ complaints fs := List.filterMap_append

/-- An event that is no complaint adds none. -/
theorem complaints_concat {x : Event} (hx : x.diagnostic? = none) (es : List Event) :
    complaints (es ++ [x]) = complaints es := by
  have hnone : complaints [x] = [] := List.filterMap_cons_none hx
  rw [complaints_append, hnone, List.append_nil]

/-- A path may be followed by another. -/
theorem Path.trans (h : c.Path es d) (h' : d.Path fs e) : c.Path (es ++ fs) e := by
  induction h' with
  | stay =>
    rw [List.append_nil]
    exact h
  | pass _ ih =>
    rw [← List.append_assoc]
    exact (ih h).pass
  | number _ ih =>
    rw [← List.append_assoc]
    exact (ih h).number
  | complain code message span suggestion _ ih =>
    rw [← List.append_assoc]
    exact (ih h).complain code message span suggestion
  | nested level _ hdepth hinner ih _ =>
    rw [← List.append_assoc]
    exact (ih h).nested level hdepth hinner

/-- At the end of a path the log stands for what it stood for, and what was complained about. -/
theorem Path.records (h : c.Path es d) {ds : List Diagnostic} (hc : c.log.Records ds) :
    d.log.Records (ds ++ complaints es) := by
  induction h generalizing ds with
  | stay =>
    have hnone : complaints [] = [] := rfl
    rw [hnone, List.append_nil]
    exact hc
  | pass _ ih =>
    rw [complaints_concat rfl, log_advance]
    exact ih hc
  | number _ ih =>
    rw [complaints_concat rfl]
    exact ih hc
  | complain code message span suggestion _ ih =>
    rw [complaints_append, ← List.append_assoc]
    exact (ih hc).push _
  | @nested _ _ _ es fs level _ _ _ ih ih' =>
    have hinner : complaints (.enter level :: fs ++ [.leave]) = complaints fs :=
      complaints_concat rfl (.enter level :: fs)
    rw [complaints_append, hinner, ← List.append_assoc]
    exact ih' (ih hc)

end Cursor

/-! ## Readers -/

namespace Reading

variable {α β : Type}

/-- Wherever it starts, a reader takes a path to where it ends. -/
def Traced (m : Reading α) : Prop := ∀ c : Cursor, ∃ es, c.Path es (m c).2

section Build

variable {m m' : Reading α} {f : α → Reading β}

/-- A reading that is followed by one takes two paths in a row. -/
theorem Traced.bind (hm : Traced m) (hf : ∀ x, Traced (f x)) : Traced (m >>= f) := by
  intro c
  obtain ⟨es, hes⟩ := hm c
  change ∃ es, c.Path es (Reading.bind m f c).2
  unfold Reading.bind
  rcases hr : m c with ⟨_ | x, d⟩
  · rw [hr] at hes
    exact ⟨es, hes⟩
  · rw [hr] at hes
    obtain ⟨fs, hfs⟩ := hf x d
    exact ⟨es ++ fs, hes.trans hfs⟩

/-- Which path is taken may depend on the cursor. -/
theorem Traced.ite {p : Cursor → Prop} [DecidablePred p] (hm : Traced m) (hm' : Traced m') :
    Traced fun c => if p c then m c else m' c := by
  intro c
  dsimp only
  split
  · exact hm c
  · exact hm' c

/-- A level is entered and left around what is read in it. -/
theorem Traced.nested (hm : Traced m) (level : Cursor.Level) : Traced (nested m) := by
  intro c
  unfold Reading.nested
  split
  case isTrue hdepth =>
    obtain ⟨es, hes⟩ := hm { c with depth := c.depth + 1 }
    exact ⟨_, (Cursor.Path.stay c).nested level hdepth hes⟩
  case isFalse => exact ⟨_, (Cursor.Path.stay c).complain _ _ _ _⟩

end Build

/-! ## Steps -/

/-- Whoever only looks stays. -/
theorem traced_stay (x : Cursor → Option α) : Traced fun c => (x c, c) := fun c => ⟨_, .stay c⟩

/-- Passing a token is one step. -/
theorem traced_advance (x : Cursor → Option α) : Traced fun c => (x c, c.advance) :=
  fun c => ⟨_, (Cursor.Path.stay c).pass⟩

/-- So is a complaint, whatever is said of which span. -/
theorem traced_complain (x : Cursor → Option α) (code : Code) (message : Cursor → String)
    (span : Cursor → Span) (suggestion : Option String) :
    Traced fun c => (x c, c.complain code (message c) (span c) suggestion) :=
  fun c => ⟨_, (Cursor.Path.stay c).complain _ _ _ _⟩

/-- What reads nothing stays where it is. -/
theorem traced_pure (x : α) : Traced (pure x : Reading α) := traced_stay fun _ => some x

theorem Traced.map {m : Reading α} (hm : Traced m) (g : α → β) : Traced (g <$> m) :=
  hm.bind fun _ => traced_pure _

/-- So does what looks at the cursor. -/
theorem traced_look (f : Cursor → α) : Traced (look f) := traced_stay fun c => some (f c)

theorem traced_fail : Traced (fail : Reading α) := traced_stay fun _ => none

/-- A reading that is refused complains about the current token. -/
theorem traced_refuse (code : Code) (message : Kind → String) :
    Traced (refuse code message : Reading α) :=
  traced_complain _ code (fun c => message c.kind) (fun c => c.current.span) none

/-- Complaining in some cases and reading on. -/
theorem traced_complainIf (p : Cursor → Prop) [DecidablePred p] (code : Code) (message : String)
    (span : Cursor → Span) :
    Traced (move fun c => if p c then c.complain code message (span c) none else c) := by
  intro c
  unfold move
  dsimp only
  split
  · exact ⟨_, (Cursor.Path.stay c).complain _ _ _ _⟩
  · exact ⟨_, .stay c⟩

theorem traced_token : Traced token := traced_advance _

theorem traced_tokenSpan : Traced tokenSpan := traced_advance _

/-- Handing out a number is a step of its own. -/
theorem traced_freshId : Traced freshId := fun c => ⟨_, (Cursor.Path.stay c).number⟩

theorem traced_previous : Traced previous := traced_look _

/-- A symbol is passed if it is there. -/
theorem traced_eat (s : Symbol) : Traced (eat s) := (traced_advance _).ite (traced_stay _)

theorem traced_eatKeyword (k : Keyword) : Traced (eatKeyword k) :=
  (traced_advance _).ite (traced_stay _)

/-- A symbol that must be there is passed or complained about. -/
theorem traced_expect (s : Symbol) : Traced (expect s) :=
  (traced_advance _).ite (traced_complain _ _ _ _ _)

theorem traced_endStatement : Traced endStatement :=
  (traced_advance _).ite (traced_complain _ _ _ _ _)

/-- So is a name. -/
theorem traced_identifier : Traced identifier := by
  intro c
  unfold identifier
  split
  · exact traced_advance (fun _ => (none : Option Unit)) c
  · exact ⟨_, (Cursor.Path.stay c).complain _ _ _ _⟩
  · exact ⟨_, (Cursor.Path.stay c).complain _ _ _ _⟩

/-- What is made under the span up to the token read last. -/
theorem traced_closed (f : Span → α) : Traced (do pure (f (← previous))) :=
  traced_previous.bind fun _ => traced_pure _

/-! ## Chains and items -/

section Chains

variable {join? : Kind → Option (α → α → α)} {operand : Reading α}

/-- By induction on the turns: an operator is passed and an operand read. -/
theorem traced_chainFrom (ho : Traced operand) (turns : Nat) :
    ∀ left : α, Traced (chainFrom join? operand turns left) := by
  induction turns with
  | zero => exact fun left => traced_pure left
  | succ turns ih =>
    refine fun left => (traced_look _).bind fun k => ?_
    split
    · exact traced_pure left
    · exact traced_token.bind fun _ => ho.bind fun right => ih _

/-- A chain begins with an operand. -/
theorem traced_chain (ho : Traced operand) : Traced (chain join? operand) :=
  ho.bind fun first => (traced_look _).bind fun turns => traced_chainFrom ho turns first

variable {close : Symbol} {item : List α → Reading α}

/-- By induction on the turns: an item, then a comma or the end. -/
theorem traced_itemsFrom (hitem : ∀ before, Traced (item before)) (turns : Nat) :
    ∀ before, Traced (itemsFrom close item turns before) := by
  induction turns with
  | zero => exact fun before => traced_pure before
  | succ turns ih =>
    refine fun before => (traced_look _).bind fun closing => ?_
    split
    · exact traced_pure before
    · refine (hitem before).bind fun x => (traced_eat .comma).bind fun more => ?_
      split
      · exact ih (x :: before)
      · exact traced_pure _

/-- So a list of items takes a path if its items do. -/
theorem traced_items (hitem : ∀ before, Traced (item before)) : Traced (items close item) := by
  refine (traced_look _).bind fun turns => ?_
  refine (traced_itemsFrom hitem turns []).bind fun xs => ?_
  exact (traced_expect close).bind fun _ => traced_pure _

end Chains

/-! ## Expressions -/

section Expressions

variable {expr operand : Reading Expr} {block : Reading Block}

theorem traced_additive (ho : Traced operand) : Traced (additive operand) :=
  traced_chain (traced_chain ho)

/-- A comparison has at most one operator. -/
theorem traced_comparison (ho : Traced operand) : Traced (comparison operand) := by
  refine (traced_additive ho).bind fun left => (traced_look _).bind fun k => ?_
  split
  · exact traced_pure left
  · refine traced_token.bind fun _ => (traced_additive ho).bind fun right => ?_
    exact (traced_complainIf (fun c => (comparisonOp? c.kind).isSome = true) _ _ _).bind fun _ =>
      traced_pure _

/-- All precedences are chains or comparisons of the one below. -/
theorem traced_disjunction (ho : Traced operand) : Traced (disjunction operand) :=
  traced_chain (traced_chain (traced_chain (traced_comparison ho)))

/-- A parameter that is repeated is complained about. -/
theorem traced_parameter (before : List String) : Traced (parameter before) := by
  refine traced_identifier.bind fun x => ?_
  refine Traced.bind ?_ fun _ => traced_pure _
  exact traced_complainIf (fun _ => before.contains x.name = true) _ _ fun _ => x.span

/-- Parameters and a body. -/
theorem traced_declaration (hb : Traced block) : Traced (declaration block) := by
  refine (traced_expect .lparen).bind fun _ => ?_
  refine (traced_items traced_parameter).bind fun params => ?_
  exact hb.bind fun body => traced_pure _

theorem traced_member (he : Traced expr) : Traced (member expr) := by
  refine traced_identifier.bind fun x => ?_
  refine (traced_expect .colon).bind fun _ => ?_
  exact he.bind fun value => traced_pure _

/-- A literal is a number and a token. -/
theorem traced_literal (make : Span → NodeId → String → Expr) (raw : String) :
    Traced (literal make raw) :=
  traced_tokenSpan.bind fun _ => traced_freshId.bind fun _ => traced_pure _

theorem traced_atom (make : Span → Expr) : Traced (atom make) :=
  traced_tokenSpan.bind fun _ => traced_pure _

/-- A parenthesis, an expression, and the other parenthesis. -/
theorem traced_parenthesized (he : Traced expr) : Traced (parenthesized expr) := by
  refine traced_tokenSpan.bind fun start => ?_
  refine he.bind fun inner => ?_
  refine (traced_expect .rparen).bind fun _ => ?_
  exact traced_closed fun s => inner.withSpan (start.cover s)

/-- A bracket, a number, items, and the other bracket. -/
theorem traced_listLiteral (he : Traced expr) : Traced (listLiteral expr) := by
  refine traced_tokenSpan.bind fun start => ?_
  refine traced_freshId.bind fun id => ?_
  refine (traced_items fun _ => he).bind fun es => ?_
  exact traced_closed fun s => Expr.list (start.cover s) id es

/-- A keyword, a brace, members, and the other brace. -/
theorem traced_objectLiteral (he : Traced expr) : Traced (objectLiteral expr) := by
  refine traced_tokenSpan.bind fun start => ?_
  refine (traced_expect .lbrace).bind fun _ => ?_
  refine (traced_items fun _ => traced_member he).bind fun ms => ?_
  exact traced_closed fun s => Expr.object (start.cover s) ms

theorem traced_lambda (hb : Traced block) : Traced (lambda block) := by
  refine traced_tokenSpan.bind fun start => ?_
  refine (traced_declaration hb).bind fun d => ?_
  exact traced_closed fun s => Expr.lambda (start.cover s) d

/-- By the first token of the expression. -/
theorem traced_primary (he : Traced expr) (hb : Traced block) : Traced (primary expr block) := by
  refine (traced_look _).bind fun k => ?_
  split
  · exact traced_literal _ _
  · exact traced_literal _ _
  · exact traced_literal _ _
  · exact traced_atom _
  · exact traced_atom _
  · exact traced_atom _
  · exact traced_atom _
  · exact traced_parenthesized he
  · exact traced_listLiteral he
  · exact traced_objectLiteral he
  · exact traced_lambda hb
  · exact traced_refuse _ _

/-- By induction on the turns: each passes the arguments of a call or the name of a property. -/
theorem traced_suffixes (he : Traced expr) (turns : Nat) :
    ∀ target : Expr, Traced (suffixes expr turns target) := by
  induction turns with
  | zero => exact fun target => traced_pure target
  | succ turns ih =>
    refine fun target => (traced_look _).bind fun k => ?_
    split
    · exact traced_token.bind fun _ => (traced_items fun _ => he).bind fun args =>
        traced_previous.bind fun _ => ih _
    · exact traced_token.bind fun _ => traced_identifier.bind fun x => ih _
    · exact traced_pure target

/-- A prefix enters a level for its operand, and leaves it. -/
theorem traced_operand (ho : Traced operand) (he : Traced expr) (hb : Traced block) :
    Traced (Reading.operand operand expr block) := by
  refine (traced_look _).bind fun k => ?_
  split
  · exact traced_tokenSpan.bind fun _ => (ho.nested .operand).bind fun _ => traced_pure _
  · exact (traced_primary he hb).bind fun first => (traced_look _).bind fun turns =>
      traced_suffixes he turns first

end Expressions

/-! ## Lists of statements -/

/-- Skipping passes tokens. -/
theorem traced_resync (turns : Nat) (c : Cursor) : ∃ es, c.Path es (resync turns c) := by
  fun_induction resync turns c with
  | case1 c => exact ⟨_, .stay c⟩
  | case2 _ c => exact ⟨_, .stay c⟩
  | case3 _ c => exact ⟨_, (Cursor.Path.stay c).pass⟩
  | case4 _ c => exact ⟨_, .stay c⟩
  | case5 _ c _ _ _ ih =>
    obtain ⟨es, hes⟩ := ih
    exact ⟨_, (Cursor.Path.stay c).pass.trans hes⟩

section Statements

variable {expr : Reading Expr} {statement : Reading Stmt}

/-- A statement that is given up is followed by skipping. -/
theorem traced_statementOrSkip (hs : Traced statement) (before : List Stmt) (c : Cursor) :
    ∃ es, c.Path es (statementOrSkip statement before c).2 := by
  obtain ⟨es, hes⟩ := hs c
  unfold statementOrSkip
  rcases hr : statement c with ⟨_ | t, d⟩
  · rw [hr] at hes
    obtain ⟨fs, hfs⟩ := traced_resync d.turns d
    dsimp only
    split
    · exact ⟨_, (hes.trans hfs).pass⟩
    · exact ⟨_, hes.trans hfs⟩
  · rw [hr] at hes
    exact ⟨es, hes⟩

/-- By induction on the turns: statements, one behind the other. -/
theorem traced_blockBody (hs : Traced statement) (turns : Nat) :
    ∀ before (c : Cursor), ∃ es, c.Path es (blockBody statement turns before c).2 := by
  induction turns with
  | zero => exact fun before c => ⟨_, .stay c⟩
  | succ turns ih =>
    intro before c
    unfold blockBody
    split
    · exact ⟨_, .stay c⟩
    · obtain ⟨es, hes⟩ := traced_statementOrSkip hs before c
      obtain ⟨fs, hfs⟩ := ih (statementOrSkip statement before c).1
        (statementOrSkip statement before c).2
      exact ⟨_, hes.trans hfs⟩

/-- The same for a document. -/
theorem traced_programBody (hs : Traced statement) (turns : Nat) :
    ∀ before (c : Cursor), ∃ es, c.Path es (programBody statement turns before c).2 := by
  induction turns with
  | zero => exact fun before c => ⟨_, .stay c⟩
  | succ turns ih =>
    intro before c
    unfold programBody
    split
    · exact ⟨_, .stay c⟩
    · split
      · obtain ⟨fs, hfs⟩ := ih before (c.complainHere .unexpectedToken "unmatched '\x7d'").advance
        exact ⟨_, ((Cursor.Path.stay c).complain _ _ _ _).pass.trans hfs⟩
      · obtain ⟨es, hes⟩ := traced_statementOrSkip hs before c
        obtain ⟨fs, hfs⟩ := ih (statementOrSkip statement before c).1
          (statementOrSkip statement before c).2
        exact ⟨_, hes.trans hfs⟩

theorem traced_block (hs : Traced statement) : Traced (block statement) := by
  have hbody : Traced fun c => (some (blockBody statement c.turns [] c).1.reverse,
      (blockBody statement c.turns [] c).2) := fun c => traced_blockBody hs c.turns [] c
  unfold block
  refine (traced_look _).bind fun start => ?_
  refine (traced_expect .lbrace).bind fun _ => ?_
  refine hbody.bind fun stmts => ?_
  refine (traced_expect .rbrace).bind fun _ => ?_
  exact traced_closed fun s => Block.mk stmts (start.cover s)

/-! ## Statements -/

/-- An assignment passes its sign, or complains about what stands in front of it. -/
theorem traced_simple (he : Traced expr) : Traced (simple expr) := by
  refine he.bind fun target => (traced_look _).bind fun assigned => ?_
  split
  · refine traced_tokenSpan.bind fun s => he.bind fun value => ?_
    cases target with
    | name => exact traced_pure _
    | property => exact traced_pure _
    | _ => exact traced_complain _ _ _ _ _
  · exact traced_pure _

theorem traced_condition (he : Traced expr) : Traced (condition expr) := by
  refine (traced_expect .lparen).bind fun _ => ?_
  refine he.bind fun test => ?_
  exact (traced_expect .rparen).bind fun _ => traced_pure _

/-- A statement is made under the span from its first token to the one read last. -/
theorem traced_made (make : Span → Stmt) (start : Span) :
    Traced (do pure (make (start.cover (← previous)))) := traced_closed _

/-- A definition is a number, a name and a declaration. -/
theorem traced_definition {block : Reading Block} (hb : Traced block) :
    Traced (definition block) := by
  have hdeclaration := traced_declaration hb
  unfold definition
  refine traced_tokenSpan.bind fun start => ?_
  refine traced_freshId.bind fun id => ?_
  refine traced_identifier.bind fun x => ?_
  refine hdeclaration.bind fun d => ?_
  exact traced_made (.define · id x d) start

/-- A test, a branch, and behind an `else` one more. -/
theorem traced_conditional (he : Traced expr) (hs : Traced statement) :
    Traced (conditional expr statement) := by
  unfold conditional
  refine traced_tokenSpan.bind fun start => ?_
  refine (traced_condition he).bind fun test => ?_
  refine hs.bind fun yes => ?_
  refine (traced_eatKeyword .else).bind fun more => ?_
  have hmade : ∀ no, Traced (do pure (Stmt.cond (start.cover (← previous)) test yes no)) :=
    fun no => traced_made (.cond · test yes no) start
  split
  · exact (hs.map some).bind hmade
  · exact (traced_pure none).bind hmade

/-- A loop is a condition and its body. -/
theorem traced_whileLoop (he : Traced expr) (hs : Traced statement) :
    Traced (whileLoop expr statement) := by
  unfold whileLoop
  refine traced_tokenSpan.bind fun start => ?_
  refine (traced_condition he).bind fun test => ?_
  refine hs.bind fun body => ?_
  exact traced_made (.while · test body) start

/-- A loop is its head, part by part between the symbols that belong there, and its body. -/
theorem traced_forLoop (he : Traced expr) (hs : Traced statement) :
    Traced (forLoop expr statement) := by
  have hsimple : Traced (simple expr) := traced_simple he
  have hsymbol : ∀ symbol, Traced (expect symbol) := traced_expect
  unfold forLoop
  refine traced_tokenSpan.bind fun start => ?_
  refine (hsymbol .lparen).bind fun _ => ?_
  refine hsimple.bind fun init => ?_
  refine (hsymbol .semicolon).bind fun _ => ?_
  refine he.bind fun test => ?_
  refine (hsymbol .semicolon).bind fun _ => ?_
  refine hsimple.bind fun step => ?_
  refine (hsymbol .rparen).bind fun _ => ?_
  refine hs.bind fun body => ?_
  exact traced_made (.for · init test step body) start

/-- A value may be missing behind a return. -/
theorem traced_returning (he : Traced expr) : Traced (returning expr) := by
  refine traced_tokenSpan.bind fun start => (traced_look _).bind fun bare => ?_
  have hend : ∀ value,
      Traced (do endStatement; pure (Stmt.return (start.cover (← previous)) value)) :=
    fun value => traced_endStatement.bind fun _ => traced_made (.return · value) start
  split
  · exact (traced_pure none).bind hend
  · exact (he.map some).bind hend

theorem traced_jump (make : Span → Stmt) : Traced (jump make) :=
  traced_tokenSpan.bind fun start => traced_endStatement.bind fun _ => traced_made make start

theorem traced_writing (he : Traced expr) : Traced (writing expr) := by
  refine traced_tokenSpan.bind fun start => ?_
  refine he.bind fun value => ?_
  exact traced_endStatement.bind fun _ => traced_made (.write · value) start

/-- By the first token of the statement. -/
theorem traced_statementBody (he : Traced expr) (hs : Traced statement) :
    Traced (statementBody expr statement) := by
  refine (traced_look _).bind fun kinds => ?_
  split
  · exact (traced_block hs).map _
  · exact traced_definition (traced_block hs)
  · exact traced_conditional he hs
  · exact traced_whileLoop he hs
  · exact traced_forLoop he hs
  · exact traced_returning he
  · exact traced_jump _
  · exact traced_jump _
  · exact traced_writing he
  · exact (traced_simple he).bind fun _ => traced_endStatement.bind fun _ => traced_pure _

end Statements

/-- However many readings may still be opened, they take paths. -/
theorem traced_tree (fuel : Nat) :
    Traced (expressionAt fuel) ∧ Traced (operandAt fuel) ∧ Traced (statementAt fuel) := by
  induction fuel with
  | zero =>
    rw [expressionAt, operandAt, statementAt]
    exact ⟨traced_fail, traced_fail, traced_fail⟩
  | succ fuel ih =>
    obtain ⟨hexpr, hoperand, hstmt⟩ := ih
    rw [expressionAt, operandAt, statementAt]
    exact ⟨(traced_disjunction hoperand).nested .expression,
      traced_operand hoperand hexpr (traced_block hstmt),
      (traced_statementBody hexpr hstmt).nested .statement⟩

end Reading

/-! ## Whole documents -/

/-- Tokens are read on a path, and the log stands for what is complained about on it. -/
theorem Parse.ofTokens_records (doc : Document) (tokens : List Token) :
    ∃ events, (Cursor.ofTokens doc tokens).Path events (.atStop doc tokens) ∧
      (ofTokens doc tokens).log.Records (Cursor.complaints events) := by
  have hstatement := (Reading.traced_tree Reading.fuel).2.2
  obtain ⟨events, hpath⟩ := Reading.traced_programBody hstatement
    (Cursor.ofTokens doc tokens).turns [] (Cursor.ofTokens doc tokens)
  have hstart : (Cursor.ofTokens doc tokens).log.Records [] := by
    rw [Cursor.log_ofTokens]
    exact Log.records_empty
  exact ⟨events, hpath, hpath.records hstart⟩

/-- A text is scanned in pieces, and the log stands for what there is to say about them. -/
theorem Scan.log_records (doc : Document) :
    ∃ pieces unread, Tiles Place.start doc.text.toList pieces unread ∧
      (unread = [] ∨ doc.scan.log.isFull = true) ∧
      doc.scan.log.Records (pieces.filterMap (Piece.diagnostic? doc)) := by
  obtain ⟨pieces, htiles, hended, -, hlog⟩ :=
    Scan.go_tiles doc #[] Log.empty Place.start doc.text.toList
  have hpushed := Log.records_empty.foldl_push (pieces.filterMap (Piece.diagnostic? doc))
  rw [← hlog] at hpushed
  exact ⟨pieces, _, htiles, hended, hpushed⟩

/-- **A log stands for all that was ever put into it.**

1. However many logs there are, and whatever is pushed to them or appended from one to another:
   each stores the first of the list that would be there if nothing were dropped, in order and as
   many as it can, and counts all of it.  So it has errors just if there are any, and is full just
   if there are as many as it can store.
2. The log of a document stands for what there is to say about the pieces of its text, and behind
   that for what is complained about on the path of the reader of its tokens: each of these once,
   in order, and also where one of the two logs has dropped some of them. -/
theorem logs_record_all :
    (∀ (ι : Type) [DecidableEq ι] (ops : List (Log.Op ι)) (i : ι),
      (Log.Op.logs ops i).stored.toList = (Log.Op.lists ops i).take Log.capacity ∧
      (Log.Op.logs ops i).total = (Log.Op.lists ops i).length ∧
      (Log.Op.logs ops i).stored.size = min (Log.Op.logs ops i).total Log.capacity ∧
      ((Log.Op.logs ops i).hasErrors = true ↔ Log.Op.lists ops i ≠ []) ∧
      ((Log.Op.logs ops i).isFull = true ↔ Log.capacity ≤ (Log.Op.lists ops i).length)) ∧
    (∀ doc : Document, ∃ pieces unread events,
      Tiles Place.start doc.text.toList pieces unread ∧
      (unread = [] ∨ doc.scan.log.isFull = true) ∧
      doc.scan.log.Records (pieces.filterMap (Piece.diagnostic? doc)) ∧
      (Cursor.ofTokens doc doc.scan.tokens.toList).Path events
        (Cursor.atStop doc doc.scan.tokens.toList) ∧
      (Parse.ofTokens doc doc.scan.tokens.toList).log.Records (Cursor.complaints events) ∧
      (Parse.ofDocument doc).log.Records
        (pieces.filterMap (Piece.diagnostic? doc) ++ Cursor.complaints events)) := by
  refine ⟨?_, ?_⟩
  · intro ι _ ops i
    have h := Log.Op.run_records ops i
    exact ⟨h.stored, h.total, h.size_stored, h.hasErrors_iff, h.isFull_iff⟩
  · intro doc
    obtain ⟨pieces, unread, htiles, hended, hscan⟩ := Scan.log_records doc
    obtain ⟨events, hpath, hparse⟩ := Parse.ofTokens_records doc doc.scan.tokens.toList
    exact ⟨pieces, unread, events, htiles, hended, hscan, hpath, hparse, hscan.append hparse⟩

end SmallScript
