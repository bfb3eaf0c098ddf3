/-
  Every complaint points into its document.

  A reader complains about spans that it has at hand: those of the tokens before it, of the token
  read last, of names and expressions that it has read, and covers of two of them.  All of these lie
  in the document, so this is one invariant of the cursor (`Cursor.Cites`), which each reader keeps,
  whether it gives up or not, and the span of the expression that it reads lies in the document as
  well.  How deep the reading is does not matter; the induction is on how many readings may still be
  opened (`cites_tree`).

  The complaints of the scan are about pieces of the text.  So whatever is stored for a document
  quotes one of its lines and points at a place on that line or right behind it
  (`diagnostics_in_text`).
-/
import SmallScript.Proofs.Reading.Location
import SmallScript.Proofs.Reading.Passage

namespace SmallScript

variable {doc : Document}

/-! ## Diagnostics and logs -/

/-- The diagnostic is about a span of the document, and quotes the line where the span begins. -/
structure Diagnostic.Cites (d : Diagnostic) (doc : Document) : Prop where
  file : d.file = doc.name
  span : d.span.In doc
  sourceLine : d.sourceLine = doc.line d.span.first.line

/-- A diagnostic about a span takes its line of source from the document. -/
theorem Diagnostic.cites_about {s : Span} (h : s.In doc) (code : Code) (message : String)
    (suggestion : Option String) : (about doc code message s suggestion).Cites doc := ⟨rfl, h, rfl⟩

namespace Log

variable {log other : Log} {d : Diagnostic} {ds : List Diagnostic}

/-- What a log stores is about the document. -/
def Cites (log : Log) (doc : Document) : Prop := ∀ d ∈ log.stored, d.Cites doc

/-- Nothing is logged at first. -/
theorem cites_empty (doc : Document) : empty.Cites doc :=
  fun _ hd => absurd hd (Array.not_mem_empty _)

/-- A log that takes in a diagnostic cites what it did, and the span of the new one. -/
theorem Cites.push (h : log.Cites doc) (hd : d.Cites doc) : (log.push d).Cites doc := by
  intro e he
  unfold Log.push at he
  dsimp only at he
  split at he
  · rcases Array.mem_push.1 he with he | rfl
    · exact h e he
    · exact hd
  · exact h e he

/-- So does a log that takes in several, by induction on them. -/
theorem Cites.foldl_push (h : log.Cites doc) (hds : ∀ d ∈ ds, d.Cites doc) :
    (ds.foldl Log.push log).Cites doc := by
  induction ds generalizing log with
  | nil => exact h
  | cons d ds ih =>
    exact ih (h.push (hds d List.mem_cons_self)) fun e he => hds e (List.mem_cons_of_mem d he)

/-- So does a log that takes in another. -/
theorem Cites.append (h : log.Cites doc) (hother : other.Cites doc) :
    (log.append other).Cites doc := by
  unfold Log.append
  rw [← Array.foldl_toList]
  exact h.foldl_push fun d hd => hother d (Array.mem_toList_iff.1 hd)

end Log

/-! ## Cursors -/

namespace Cursor

variable {c : Cursor} {s : Span}

/-- All spans at hand lie in the document, and so does what was complained about. -/
structure Cites (c : Cursor) (doc : Document) : Prop where
  source : c.doc = doc
  tokens : ∀ t ∈ c.tokens, t.span.In doc
  previous : c.previous.In doc
  log : c.log.Cites doc

/-- The current token is one of those that are left. -/
theorem Cites.current (h : c.Cites doc) : c.current.span.In doc := h.tokens _ List.mem_cons_self

/-- Going on leaves the last token of the file where it is, and drops any other. -/
theorem Cites.advance (h : c.Cites doc) : c.advance.Cites doc := by
  have hcurrent := h.current
  obtain ⟨hdoc, htokens, hprevious, hlog⟩ := h
  unfold Cursor.advance
  cases hlater : c.later with
  | nil =>
    refine ⟨hdoc, fun u hu => htokens u ?_, hcurrent, hlog⟩
    unfold Cursor.tokens
    rw [hlater]
    exact hu
  | cons t ts =>
    refine ⟨hdoc, fun u hu => htokens u (List.mem_cons_of_mem _ ?_), hcurrent, hlog⟩
    rw [hlater]
    exact hu

/-- A complaint about a span of the document may be logged. -/
theorem Cites.complain (h : c.Cites doc) (hs : s.In doc) (code : Code) (message : String)
    (suggestion : Option String) : (c.complain code message s suggestion).Cites doc :=
  ⟨h.source, h.tokens, h.previous,
    h.log.push (h.source ▸ Diagnostic.cites_about (h.source ▸ hs) code message suggestion)⟩

theorem Cites.complainHere (h : c.Cites doc) (code : Code) (message : String) :
    (c.complainHere code message).Cites doc := h.complain h.current code message none

end Cursor

namespace Reading

variable {α β : Type}

/-! ## Steps -/

/-- From a cursor that cites the document a reader leads to another one, and `Q` holds of what it
reads. -/
def Cites (doc : Document) (Q : α → Prop) (m : Reading α) : Prop :=
  ∀ c : Cursor, c.Cites doc → (m c).2.Cites doc ∧ ∀ x, (m c).1 = some x → Q x

/-- An expression whose span lies in the document. -/
abbrev CitesExpr (doc : Document) (m : Reading Expr) : Prop := Cites doc (fun e => e.span.In doc) m

/-- Nothing is asked of what is read. -/
abbrev CitesAny (doc : Document) (m : Reading α) : Prop := Cites doc (fun _ => True) m

section Build

variable {Q : α → Prop} {R : β → Prop} {m : Reading α} {f : α → Reading β}

/-- Less may be said of what is read. -/
theorem Cites.mono {Q' : α → Prop} (hm : Cites doc Q m) (h : ∀ x, Q x → Q' x) : Cites doc Q' m :=
  fun c hc => ⟨(hm c hc).1, fun x hx => h x ((hm c hc).2 x hx)⟩

/-- A second reading may rely on what is said of the value of the first. -/
theorem Cites.bind (hm : Cites doc Q m) (hf : ∀ x, Q x → Cites doc R (f x)) :
    Cites doc R (m >>= f) := by
  intro c hc
  obtain ⟨hd, hread⟩ := hm c hc
  change (Reading.bind m f c).2.Cites doc ∧ ∀ y, (Reading.bind m f c).1 = some y → R y
  unfold Reading.bind
  rcases hr : m c with ⟨_ | x, d⟩
  · rw [hr] at hd
    exact ⟨hd, fun y hy => by cases hy⟩
  · rw [hr] at hd hread
    exact hf x (hread x rfl) d hd

/-- A reading that succeeds is a value and a move of the cursor. -/
theorem cites_some {x : Cursor → α} {g : Cursor → Cursor}
    (hx : ∀ c : Cursor, c.Cites doc → Q (x c))
    (hg : ∀ c : Cursor, c.Cites doc → (g c).Cites doc) :
    Cites doc Q fun c => (some (x c), g c) :=
  fun c hc => ⟨hg c hc, fun _ hy => Option.some.inj hy ▸ hx c hc⟩

/-- A reading that gives up is a move of the cursor. -/
theorem cites_none {g : Cursor → Cursor} (hg : ∀ c : Cursor, c.Cites doc → (g c).Cites doc) :
    Cites doc Q fun c => (none, g c) :=
  fun c hc => ⟨hg c hc, fun _ hy => by cases hy⟩

/-- A reader may do one thing before some words and another before others. -/
theorem Cites.ite {p : Cursor → Prop} [DecidablePred p] {m' : Reading α} (hm : Cites doc Q m)
    (hm' : Cites doc Q m') : Cites doc Q fun c => if p c then m c else m' c := by
  intro c hc
  dsimp only
  split
  · exact hm c hc
  · exact hm' c hc

/-- What reads nothing says of its value what holds anyway. -/
theorem cites_pure {x : α} (hx : Q x) : Cites doc Q (pure x : Reading α) :=
  cites_some (fun _ _ => hx) fun _ hc => hc

/-- What is made of a value takes over what is said of the value. -/
theorem Cites.map {g : α → β} (hm : Cites doc Q m) (h : ∀ x, Q x → R (g x)) :
    Cites doc R (g <$> m) :=
  hm.bind fun x hx => cites_pure (h x hx)

/-- Leaving the levels of nesting changes no span. -/
theorem Cites.nested (hm : Cites doc Q m) : Cites doc Q (nested m) := by
  intro c hc
  unfold Reading.nested
  split
  · obtain ⟨hd, hread⟩ := hm { c with depth := c.depth + 1 }
      ⟨hc.source, hc.tokens, hc.previous, hc.log⟩
    exact ⟨⟨hd.source, hd.tokens, hd.previous, hd.log⟩, hread⟩
  · exact ⟨hc.complainHere _ _, fun x hx => by cases hx⟩

end Build

section Steps

variable {Q : α → Prop}

/-- Looking at the cursor changes nothing. -/
theorem cites_look (f : Cursor → α) : CitesAny doc (look f) :=
  cites_some (fun _ _ => trivial) fun _ hc => hc

theorem cites_fail : Cites doc Q (fail : Reading α) := cites_none fun _ hc => hc

/-- A reading that is refused complains about the current token. -/
theorem cites_refuse (code : Code) (message : Kind → String) : Cites doc Q (refuse code message) :=
  cites_none fun _ hc => hc.complainHere _ _

/-- It may complain about any other span of the document instead. -/
theorem cites_complain {s : Span} (hs : s.In doc) (code : Code) (message : String)
    (suggestion : Option String) :
    Cites doc Q fun c => (none, c.complain code message s suggestion) :=
  cites_none fun _ hc => hc.complain hs code message suggestion

/-- Complaining in some cases and reading on. -/
theorem cites_complainIf (p : Cursor → Prop) [DecidablePred p] (code : Code) (message : String)
    {span : Cursor → Span} (hspan : ∀ c : Cursor, c.Cites doc → (span c).In doc) :
    CitesAny doc
      (move fun c => if p c then c.complain code message (span c) none else c) := by
  refine cites_some (fun _ _ => trivial) fun c hc => ?_
  split
  · exact hc.complain (hspan c hc) code message none
  · exact hc

/-- The span of a token that is read lies in the document. -/
theorem cites_token : Cites doc (fun t => t.span.In doc) token :=
  cites_some (fun _ hc => hc.current) fun _ hc => hc.advance

theorem cites_tokenSpan : Cites doc (fun s => s.In doc) tokenSpan :=
  cites_some (fun _ hc => hc.current) fun _ hc => hc.advance

/-- So does that of the token that is next. -/
theorem cites_currentSpan : Cites doc (fun s => s.In doc) (look (·.current.span)) :=
  cites_some (fun _ hc => hc.current) fun _ hc => hc

/-- The token before is one that was read. -/
theorem cites_previous : Cites doc (fun s => s.In doc) previous :=
  cites_some (fun _ hc => hc.previous) fun _ hc => hc

theorem cites_freshId : CitesAny doc freshId :=
  cites_some (fun _ _ => trivial) fun _ hc => ⟨hc.source, hc.tokens, hc.previous, hc.log⟩

theorem cites_eat (s : Symbol) : CitesAny doc (eat s) :=
  .ite (cites_some (fun _ _ => trivial) fun _ hc => hc.advance)
    (cites_some (fun _ _ => trivial) fun _ hc => hc)

theorem cites_eatKeyword (k : Keyword) : CitesAny doc (eatKeyword k) :=
  .ite (cites_some (fun _ _ => trivial) fun _ hc => hc.advance)
    (cites_some (fun _ _ => trivial) fun _ hc => hc)

/-- What is missing is missing at the current token. -/
theorem cites_expect (s : Symbol) : CitesAny doc (expect s) :=
  .ite (cites_some (fun _ _ => trivial) fun _ hc => hc.advance)
    (cites_none fun _ hc => hc.complainHere _ _)

/-- A missing semicolon is complained about at the token in its place. -/
theorem cites_endStatement : CitesAny doc endStatement :=
  .ite (cites_some (fun _ _ => trivial) fun _ hc => hc.advance)
    (cites_none fun _ hc => hc.complain hc.current _ _ _)

/-- A name is read with its span. -/
theorem cites_identifier : Cites doc (fun x => x.span.In doc) identifier := by
  intro c hc
  unfold identifier
  split
  · refine ⟨hc.advance, ?_⟩
    rintro x ⟨⟩
    exact hc.current
  · exact ⟨hc.complainHere _ _, fun x hx => by cases hx⟩
  · exact ⟨hc.complainHere _ _, fun x hx => by cases hx⟩

/-- What begins with a token and ends with the token read last is made under the span of both. -/
theorem cites_closed {s : Span} {f : Span → α} (hs : s.In doc)
    (hf : ∀ s, s.In doc → Q (f s)) : Cites doc Q (do pure (f (s.cover (← previous)))) :=
  cites_previous.bind fun _ ht => cites_pure (hf _ (hs.cover ht))

end Steps

/-! ## Chains and items -/

section Chains

variable {join? : Kind → Option (Expr → Expr → Expr)} {operand : Reading Expr}

/-- Whatever joins two expressions joins them under their common span. -/
def JoinsCovered (join? : Kind → Option (Expr → Expr → Expr)) : Prop :=
  ∀ k join, join? k = some join → ∀ x y, (join x y).span = x.span.cover y.span

/-- Each turn merges the span of what stands on the left with that of a further operand. -/
theorem cites_chainFrom (ho : CitesExpr doc operand) (hjoin : JoinsCovered join?) (turns : Nat) :
    ∀ left : Expr, left.span.In doc → CitesExpr doc (chainFrom join? operand turns left) := by
  induction turns with
  | zero => exact fun left hleft => cites_pure hleft
  | succ turns ih =>
    refine fun left hleft => (cites_look _).bind fun k _ => ?_
    cases hk : join? k with
    | none => exact cites_pure hleft
    | some join =>
      refine cites_token.bind fun _ _ => ho.bind fun right hright => ih _ ?_
      rw [hjoin k join hk]
      exact hleft.cover hright

/-- So the span of a chain lies in the document if those of its operands do. -/
theorem cites_chain (ho : CitesExpr doc operand) (hjoin : JoinsCovered join?) :
    CitesExpr doc (chain join? operand) :=
  ho.bind fun first hfirst => (cites_look _).bind fun turns _ =>
    cites_chainFrom ho hjoin turns first hfirst

/-- The node of an operator covers both of its operands. -/
theorem joinsCovered_binary (op? : Kind → Option BinaryOp) :
    JoinsCovered fun k => (op? k).map fun op => joined (.binary · op) := by
  intro k join hjoin x y
  obtain ⟨op, -, rfl⟩ := Option.map_eq_some_iff.1 hjoin
  rfl

/-- A single word that joins. -/
theorem joinsCovered_word {w : Kind} {make : Span → Expr → Expr → Expr}
    (hmake : ∀ s x y, (make s x y).span = s) :
    JoinsCovered fun k => if k = w then some (joined make) else none := by
  intro k join (hjoin : (if k = w then some (joined make) else none) = some join) x y
  split at hjoin
  · cases hjoin
    exact hmake _ x y
  · cases hjoin

variable {close : Symbol} {item : List α → Reading α}

/-- By induction on the turns: an item, and a comma or the end. -/
theorem cites_itemsFrom (hitem : ∀ before, CitesAny doc (item before)) (turns : Nat) :
    ∀ before, CitesAny doc (itemsFrom close item turns before) := by
  induction turns with
  | zero => exact fun before => cites_pure trivial
  | succ turns ih =>
    refine fun before => (cites_look _).bind fun closing _ => ?_
    split
    · exact cites_pure trivial
    · refine (hitem before).bind fun x _ => (cites_eat .comma).bind fun more _ => ?_
      split
      · exact ih (x :: before)
      · exact cites_pure trivial

/-- So items that cite the document make a list that does. -/
theorem cites_items (hitem : ∀ before, CitesAny doc (item before)) :
    CitesAny doc (items close item) := by
  refine (cites_look _).bind fun turns _ => ?_
  refine (cites_itemsFrom hitem turns []).bind fun xs _ => ?_
  exact (cites_expect close).bind fun _ _ => cites_pure trivial

end Chains

/-! ## Expressions -/

section Expressions

variable {expr operand : Reading Expr} {block : Reading Block}

/-- Nothing need be said of the span of an expression. -/
theorem cites_any (he : CitesExpr doc expr) : CitesAny doc expr :=
  he.mono fun _ _ => trivial

/-- Sums are chains over products, which are chains over operands. -/
theorem cites_additive (ho : CitesExpr doc operand) : CitesExpr doc (additive operand) :=
  cites_chain (cites_chain ho (joinsCovered_binary _)) (joinsCovered_binary _)

/-- A second comparison is complained about where it stands. -/
theorem cites_comparison (ho : CitesExpr doc operand) : CitesExpr doc (comparison operand) := by
  refine (cites_additive ho).bind fun left hleft => (cites_look _).bind fun k _ => ?_
  split
  · exact cites_pure hleft
  · refine cites_token.bind fun _ _ => (cites_additive ho).bind fun right hright => ?_
    refine (cites_complainIf (fun c => (comparisonOp? c.kind).isSome = true) _ _
      fun c hc => hc.current).bind fun _ _ => ?_
    exact cites_pure (hleft.cover hright)

/-- Up to the lowest precedence an expression is built from its operands. -/
theorem cites_disjunction (ho : CitesExpr doc operand) : CitesExpr doc (disjunction operand) := by
  have hcoalescing : CitesExpr doc (coalescing operand) :=
    cites_chain (cites_comparison ho) (joinsCovered_word fun _ _ _ => rfl)
  exact cites_chain (cites_chain hcoalescing (joinsCovered_word fun _ _ _ => rfl))
    (joinsCovered_word fun _ _ _ => rfl)

/-- A parameter that is there already is complained about where it is repeated. -/
theorem cites_parameter (before : List String) : CitesAny doc (parameter before) := by
  refine cites_identifier.bind fun x hx => ?_
  refine (cites_complainIf (fun _ => before.contains x.name = true) _ _ fun _ _ => hx).bind ?_
  exact fun _ _ => cites_pure trivial

/-- Parameters and a body cite the document. -/
theorem cites_declaration (hb : CitesAny doc block) :
    CitesAny doc (declaration block) := by
  refine (cites_expect .lparen).bind fun _ _ => ?_
  refine (cites_items cites_parameter).bind fun params _ => ?_
  exact hb.bind fun body _ => cites_pure trivial

theorem cites_member (he : CitesExpr doc expr) : CitesAny doc (member expr) := by
  refine cites_identifier.bind fun x _ => ?_
  refine (cites_expect .colon).bind fun _ _ => ?_
  exact he.bind fun value _ => cites_pure trivial

/-- The span of a literal is that of its token. -/
theorem cites_literal {make : Span → NodeId → String → Expr} {raw : String}
    (hmake : ∀ s id, (make s id raw).span = s) : CitesExpr doc (literal make raw) := by
  refine cites_tokenSpan.bind fun s hs => cites_freshId.bind fun id _ => cites_pure ?_
  rw [hmake]
  exact hs

/-- So is the span of a word that stands for a value. -/
theorem cites_atom {make : Span → Expr} (hmake : ∀ s, (make s).span = s) :
    CitesExpr doc (atom make) := by
  refine cites_tokenSpan.bind fun s hs => cites_pure ?_
  rw [hmake]
  exact hs

/-- The span of an expression in parentheses reaches from the one to the other. -/
theorem cites_parenthesized (he : CitesExpr doc expr) : CitesExpr doc (parenthesized expr) := by
  refine cites_tokenSpan.bind fun s hs => he.bind fun inner _ => (cites_expect _).bind fun _ _ => ?_
  refine cites_closed (f := inner.withSpan) hs fun s hs => ?_
  rw [inner.span_withSpan]
  exact hs

/-- Brackets merge their spans, and so do braces. -/
theorem cites_listLiteral (he : CitesExpr doc expr) : CitesExpr doc (listLiteral expr) := by
  refine cites_tokenSpan.bind fun start hstart => ?_
  refine cites_freshId.bind fun id _ => ?_
  refine (cites_items fun _ => cites_any he).bind fun es _ => ?_
  exact cites_closed (f := fun s => Expr.list s id es) hstart fun _ h => h

theorem cites_objectLiteral (he : CitesExpr doc expr) : CitesExpr doc (objectLiteral expr) := by
  refine cites_tokenSpan.bind fun start hstart => ?_
  refine (cites_expect .lbrace).bind fun _ _ => ?_
  refine (cites_items fun _ => cites_member he).bind fun ms _ => ?_
  exact cites_closed (f := fun s => Expr.object s ms) hstart fun _ h => h

/-- A function without a name reaches from its keyword to its body. -/
theorem cites_lambda (hb : CitesAny doc block) : CitesExpr doc (lambda block) := by
  refine cites_tokenSpan.bind fun start hstart => ?_
  refine (cites_declaration hb).bind fun d _ => ?_
  exact cites_closed (f := fun s => Expr.lambda s d) hstart fun _ h => h

/-- By the first token: each kind of head is one of those above. -/
theorem cites_primary (he : CitesExpr doc expr) (hb : CitesAny doc block) :
    CitesExpr doc (primary expr block) := by
  refine (cites_look _).bind fun k _ => ?_
  split
  · exact cites_literal fun _ _ => rfl
  · exact cites_literal fun _ _ => rfl
  · exact cites_literal fun _ _ => rfl
  · exact cites_atom fun _ => rfl
  · exact cites_atom fun _ => rfl
  · exact cites_atom fun _ => rfl
  · exact cites_atom fun _ => rfl
  · exact cites_parenthesized he
  · exact cites_listLiteral he
  · exact cites_objectLiteral he
  · exact cites_lambda hb
  · exact cites_refuse _ _

/-- Each turn merges the span of the target with that of what is behind it. -/
theorem cites_suffixes (he : CitesExpr doc expr) (turns : Nat) :
    ∀ target : Expr, target.span.In doc → CitesExpr doc (suffixes expr turns target) := by
  induction turns with
  | zero => exact fun target htarget => cites_pure htarget
  | succ turns ih =>
    refine fun target htarget => (cites_look _).bind fun k _ => ?_
    split
    · refine cites_token.bind fun _ _ => (cites_items fun _ => cites_any he).bind fun args _ => ?_
      exact cites_previous.bind fun s hs => ih _ (htarget.cover hs)
    · refine cites_token.bind fun _ _ => cites_identifier.bind fun x hx => ?_
      exact ih _ (htarget.cover hx)
    · exact cites_pure htarget

/-- A prefix merges its own span with that of its operand. -/
theorem cites_operand (ho : CitesExpr doc operand) (he : CitesExpr doc expr)
    (hb : CitesAny doc block) :
    CitesExpr doc (Reading.operand operand expr block) := by
  refine (cites_look _).bind fun k _ => ?_
  split
  · exact cites_tokenSpan.bind fun _ hs => ho.nested.bind fun _ hinner =>
      cites_pure (hs.cover hinner)
  · exact (cites_primary he hb).bind fun first hfirst => (cites_look _).bind fun turns _ =>
      cites_suffixes he turns first hfirst

end Expressions

/-! ## Lists of statements -/

/-- Skipping logs nothing. -/
theorem cites_resync (turns : Nat) {c : Cursor} (hc : c.Cites doc) :
    (resync turns c).Cites doc := by
  fun_induction resync turns c with
  | case1 => exact hc
  | case2 => exact hc
  | case3 => exact hc.advance
  | case4 => exact hc
  | case5 _ _ _ _ _ ih => exact ih hc.advance

section Statements

variable {expr : Reading Expr} {statement : Reading Stmt} {before : List Stmt} {c : Cursor}

/-- A statement that is given up is skipped; what it has logged stays. -/
theorem cites_statementOrSkip (hs : CitesAny doc statement) (hc : c.Cites doc) :
    (statementOrSkip statement before c).2.Cites doc := by
  obtain ⟨hd, -⟩ := hs c hc
  unfold statementOrSkip
  rcases hr : statement c with ⟨_ | t, d⟩
  · rw [hr] at hd
    have hskip := cites_resync d.turns hd
    dsimp only
    split
    · exact hskip.advance
    · exact hskip
  · rw [hr] at hd
    exact hd

/-- By induction on the turns, with a brace or the end of the file behind the statements. -/
theorem cites_blockBody (hs : CitesAny doc statement) (turns : Nat) :
    ∀ before (c : Cursor), c.Cites doc → (blockBody statement turns before c).2.Cites doc := by
  induction turns with
  | zero => exact fun before c hc => hc
  | succ turns ih =>
    intro before c hc
    unfold blockBody
    split
    · exact hc
    · exact ih _ _ (cites_statementOrSkip hs hc)

/-- The same for the statements of a document. -/
theorem cites_programBody (hs : CitesAny doc statement) (turns : Nat) :
    ∀ before (c : Cursor), c.Cites doc → (programBody statement turns before c).2.Cites doc := by
  induction turns with
  | zero => exact fun before c hc => hc
  | succ turns ih =>
    intro before c hc
    unfold programBody
    split
    · exact hc
    · split
      · exact ih _ _ (hc.complainHere _ _).advance
      · exact ih _ _ (cites_statementOrSkip hs hc)

/-- A block that is not closed complains at the end of the file. -/
theorem cites_block (hs : CitesAny doc statement) :
    CitesAny doc (block statement) := by
  have hbody : CitesAny doc fun c =>
      (some (blockBody statement c.turns [] c).1.reverse, (blockBody statement c.turns [] c).2) :=
    cites_some (fun _ _ => trivial) fun c hc => cites_blockBody hs c.turns [] c hc
  unfold block
  refine cites_currentSpan.bind fun start _ => ?_
  refine (cites_expect .lbrace).bind fun _ _ => ?_
  refine hbody.bind fun stmts _ => ?_
  refine (cites_expect .rbrace).bind fun _ _ => ?_
  exact cites_previous.bind fun _ _ => cites_pure trivial

/-! ## Statements -/

/-- What cannot be assigned to is complained about up to the equals sign. -/
theorem cites_simple (he : CitesExpr doc expr) : CitesAny doc (simple expr) := by
  refine he.bind fun target htarget => (cites_look _).bind fun assigned _ => ?_
  split
  · refine cites_tokenSpan.bind fun s hs => he.bind fun value _ => ?_
    cases target with
    | name => exact cites_pure trivial
    | property => exact cites_pure trivial
    | _ => exact cites_complain (htarget.cover hs) _ _ _
  · exact cites_pure trivial

/-- The test of a loop or a branch. -/
theorem cites_condition (he : CitesExpr doc expr) : CitesAny doc (condition expr) := by
  refine (cites_expect .lparen).bind fun _ _ => ?_
  refine he.bind fun test _ => ?_
  exact (cites_expect .rparen).bind fun _ _ => cites_pure trivial

/-- A statement is made under the span from its first token to the one read last. -/
theorem cites_made (f : Span → Stmt) (s : Span) :
    CitesAny doc (do pure (f (s.cover (← previous)))) :=
  cites_previous.bind fun _ _ => cites_pure trivial

/-- A definition is a number, a name and a declaration. -/
theorem cites_definition {block : Reading Block} (hb : CitesAny doc block) :
    CitesAny doc (definition block) := by
  have hdeclaration := cites_declaration hb
  unfold definition
  refine cites_tokenSpan.bind fun start _ => ?_
  refine cites_freshId.bind fun id _ => ?_
  refine cites_identifier.bind fun x _ => ?_
  refine hdeclaration.bind fun d _ => ?_
  exact cites_made (.define · id x d) start

/-- A conditional is a condition and a branch, and perhaps another branch. -/
theorem cites_conditional (he : CitesExpr doc expr) (hs : CitesAny doc statement) :
    CitesAny doc (conditional expr statement) := by
  have hbranch : CitesAny doc (some <$> statement) := hs.map fun _ _ => trivial
  have hnone : CitesAny doc (pure none : Reading (Option Stmt)) := cites_pure trivial
  unfold conditional
  refine cites_tokenSpan.bind fun start _ => ?_
  refine (cites_condition he).bind fun test _ => ?_
  refine hs.bind fun yes _ => ?_
  have hmade : ∀ no, CitesAny doc (do pure (Stmt.cond (start.cover (← previous)) test yes no)) :=
    fun no => cites_made (.cond · test yes no) start
  refine (cites_eatKeyword .else).bind fun more _ => ?_
  split
  · exact hbranch.bind fun no _ => hmade no
  · exact hnone.bind fun no _ => hmade no

/-- A loop is a condition and its body. -/
theorem cites_whileLoop (he : CitesExpr doc expr) (hs : CitesAny doc statement) :
    CitesAny doc (whileLoop expr statement) := by
  unfold whileLoop
  refine cites_tokenSpan.bind fun start _ => ?_
  refine (cites_condition he).bind fun test _ => ?_
  refine hs.bind fun body _ => ?_
  exact cites_made (.while · test body) start

/-- A loop is its head, part by part between the symbols that belong there, and its body. -/
theorem cites_forLoop (he : CitesExpr doc expr) (hs : CitesAny doc statement) :
    CitesAny doc (forLoop expr statement) := by
  have hsimple : CitesAny doc (simple expr) := cites_simple he
  have hsymbol : ∀ symbol, CitesAny doc (expect symbol) := cites_expect
  unfold forLoop
  refine cites_tokenSpan.bind fun start _ => ?_
  refine (hsymbol .lparen).bind fun _ _ => ?_
  refine hsimple.bind fun init _ => ?_
  refine (hsymbol .semicolon).bind fun _ _ => ?_
  refine he.bind fun test _ => ?_
  refine (hsymbol .semicolon).bind fun _ _ => ?_
  refine hsimple.bind fun step _ => ?_
  refine (hsymbol .rparen).bind fun _ _ => ?_
  refine hs.bind fun body _ => ?_
  exact cites_made (.for · init test step body) start

/-- A return with a value or without one. -/
theorem cites_returning (he : CitesExpr doc expr) :
    CitesAny doc (returning expr) := by
  have hend : ∀ (s : Span) value, CitesAny doc
      (do endStatement; pure (Stmt.return (s.cover (← previous)) value)) :=
    fun s value => cites_endStatement.bind fun _ _ => cites_made (Stmt.return · value) s
  refine cites_tokenSpan.bind fun s _ => (cites_look _).bind fun bare _ => ?_
  split
  · exact (cites_pure (Q := fun _ => True) trivial).bind fun value _ => hend s value
  · exact (he.map (R := fun _ => True) fun _ _ => trivial).bind fun value _ => hend s value

theorem cites_jump (make : Span → Stmt) : CitesAny doc (jump make) :=
  cites_tokenSpan.bind fun s _ => cites_endStatement.bind fun _ _ => cites_made make s

theorem cites_writing (he : CitesExpr doc expr) : CitesAny doc (writing expr) := by
  refine cites_tokenSpan.bind fun start _ => ?_
  refine he.bind fun value _ => ?_
  exact cites_endStatement.bind fun _ _ => cites_made (.write · value) start

/-- The first token of a statement tells its kind, and each is one of those above. -/
theorem cites_statementBody (he : CitesExpr doc expr) (hs : CitesAny doc statement) :
    CitesAny doc (statementBody expr statement) := by
  refine (cites_look _).bind fun kinds _ => ?_
  split
  · exact (cites_block hs).map fun _ _ => trivial
  · exact cites_definition (cites_block hs)
  · exact cites_conditional he hs
  · exact cites_whileLoop he hs
  · exact cites_forLoop he hs
  · exact cites_returning he
  · exact cites_jump _
  · exact cites_jump _
  · exact cites_writing he
  · exact (cites_simple he).bind fun _ _ => cites_endStatement.bind fun _ _ => cites_pure trivial

end Statements

/-- However many readings may still be opened, they cite the document. -/
theorem cites_tree (doc : Document) (fuel : Nat) :
    CitesExpr doc (expressionAt fuel) ∧ CitesExpr doc (operandAt fuel) ∧
      CitesAny doc (statementAt fuel) := by
  induction fuel with
  | zero =>
    rw [expressionAt, operandAt, statementAt]
    exact ⟨cites_fail, cites_fail, cites_fail⟩
  | succ fuel ih =>
    obtain ⟨hexpr, hoperand, hstmt⟩ := ih
    rw [expressionAt, operandAt, statementAt]
    exact ⟨(cites_disjunction hoperand).nested, cites_operand hoperand hexpr (cites_block hstmt),
      (cites_statementBody hexpr hstmt).nested⟩

end Reading

/-! ## Whole documents -/

/-- The scanner complains about characters and words of the document. -/
theorem Scan.log_cites (doc : Document) : doc.scan.log.Cites doc := by
  obtain ⟨pieces, htiles, -, -, hlog⟩ :=
    Scan.go_tiles doc #[] Log.empty Place.start doc.text.toList
  have hscan : doc.scan.log = (pieces.filterMap (Piece.diagnostic? doc)).foldl Log.push Log.empty :=
    hlog
  rw [hscan]
  refine (Log.cites_empty doc).foldl_push fun d hd => ?_
  obtain ⟨p, hp, hdiagnostic⟩ := List.mem_filterMap.1 hd
  obtain ⟨before, behind, rfl⟩ := List.append_of_mem hp
  obtain ⟨complaint, -, rfl⟩ := Option.map_eq_some_iff.1 hdiagnostic
  exact Diagnostic.cites_about htiles.located _ _ _

/-- The parser starts with the tokens of the document and an empty log. -/
theorem Cursor.cites_ofTokens {tokens : List Token} (h : ∀ t ∈ tokens, t.span.In doc) :
    (ofTokens doc tokens).Cites doc := by
  have hstart : (Span.point Place.start).In doc := (doc.holds_after (a := []) rfl).point
  cases tokens with
  | nil =>
    refine ⟨rfl, fun t ht => ?_, hstart, Log.cites_empty doc⟩
    rw [List.mem_singleton.1 ht]
    exact hstart
  | cons t ts => exact ⟨rfl, h, hstart, Log.cites_empty doc⟩

/-- So the log of the parser, which takes in that of the scanner, cites the document. -/
theorem Parse.log_cites (doc : Document) : (Parse.ofDocument doc).log.Cites doc := by
  have hread := Reading.cites_programBody (Reading.cites_tree doc Reading.fuel).2.2
    (Cursor.ofTokens doc doc.scan.tokens.toList).turns [] _
    (Cursor.cites_ofTokens doc.token_located)
  exact (Scan.log_cites doc).append hread.log

end SmallScript
