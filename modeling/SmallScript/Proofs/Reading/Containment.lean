/-
  What is read lies over the tokens that were passed.

  One lemma for each reader says how its result lies over the tokens that it passed, given the same
  of the readers that it calls; then there is an induction on the levels of nesting that are left
  (`lays_tree`).  Nothing is assumed of the text: a reader that has skipped tokens behind an error
  has passed them as well, so what is left of a broken text lies over it, too.

  The tokens of a document are in order, and so every node of its program holds what is in it
  (`spans_nested`).
-/
import SmallScript.Proofs.Reading.Layout
import SmallScript.Proofs.Reading.Passage
import SmallScript.Proofs.Scanning.Tiling
import SmallScript.Tree.Outline

namespace SmallScript

namespace Reading

variable {α β : Type} {n : Nat} {k : Kind} {a ts us : List Token}

/-! ## Chains and items -/

/-- The tokens that were passed are some, and what was read lies over them. -/
def Lies (x : Extent) (ts : List Token) : Prop := ts ≠ [] ∧ Laid [x] ts

/-- What lies over tokens lies over them with others behind. -/
theorem Lies.append_right {x : Extent} (h : Lies x ts) (us : List Token) : Lies x (ts ++ us) :=
  ⟨List.append_ne_nil_of_left_ne_nil h.1 us, h.2.append_right us⟩

abbrev LaysExpr (n : Nat) (m : Reading Expr) : Prop := Lays n [] (fun e ts => Lies e.extent ts) m

abbrev LaysBlock (n : Nat) (m : Reading Block) : Prop := Lays n [] (fun b ts => Lies b.extent ts) m

abbrev LaysStmt (n : Nat) (m : Reading Stmt) : Prop := Lays n [] (fun t ts => Lies t.extent ts) m

/-- What was read so far may be all there is. -/
theorem lays_keep {e : Expr} (h : Lies e.extent a) :
    Lays n a (fun e b => Lies e.extent b) (pure e) := lays_pure h

/-- Joining two expressions gives a node that spans both. -/
def JoinsUnder (join? : Kind → Option (Expr → Expr → Expr)) : Prop :=
  ∀ k join, join? k = some join → k ≠ .eof ∧
    ∀ x y, (join x y).extent = .node (x.extent.span.cover y.extent.span) [x.extent, y.extent]

section Chains

variable {join? : Kind → Option (Expr → Expr → Expr)} {operand : Reading Expr}

/-- By induction on the turns: a joined node lies over what both of its operands lie over. -/
theorem lays_chainFrom (ho : LaysExpr n operand) (hjoin : JoinsUnder join?) (turns : Nat) :
    ∀ left a, Lies left.extent a →
      Lays n a (fun e b => Lies e.extent b) (chainFrom join? operand turns left) := by
  induction turns with
  | zero => exact fun left a hleft => lays_keep hleft
  | succ turns ih =>
    intro left a hleft
    refine lays_byKind fun k => ?_
    cases hk : join? k with
    | none => exact (lays_keep hleft).at k
    | some join =>
      obtain ⟨hne, hextent⟩ := hjoin k join hk
      refine laysAt_token hne fun t => (ho.behind _).bind ?_
      rintro right b ⟨ts, rfl, -, hright⟩
      refine ih _ _ ⟨List.append_ne_nil_of_left_ne_nil (hleft.append_right [t]).1 ts, ?_⟩
      rw [hextent]
      exact ((hleft.2.append_right [t]).append hright).pair

/-- So a chain lies over the tokens of its operands. -/
theorem lays_chain (ho : LaysExpr n operand) (hjoin : JoinsUnder join?) :
    LaysExpr n (chain join? operand) := by
  refine ho.bind fun first a hfirst => (lays_look _).bind ?_
  rintro turns b rfl
  exact lays_chainFrom ho hjoin turns first _ hfirst

end Chains

section Items

variable {close : Symbol} {item : List α → Reading α} {f : α → List Extent}

/-- By induction on the turns: each item lies behind those that were read before it. -/
theorem lays_itemsFrom
    (hitem : ∀ before, Lays n [] (fun x ts => Laid (f x) ts) (item before)) (turns : Nat) :
    ∀ before a, Laid (before.reverse.flatMap f) a →
      Lays n a (fun xs b => (∃ ts, b = a ++ ts) ∧ Laid (xs.reverse.flatMap f) b)
        (itemsFrom close item turns before) := by
  induction turns with
  | zero =>
    exact fun before a hbefore => lays_pure ⟨⟨[], (List.append_nil a).symm⟩, hbefore⟩
  | succ turns ih =>
    intro before a hbefore
    refine (lays_look _).bind ?_
    rintro closing b rfl
    split
    · exact lays_pure ⟨⟨[], (List.append_nil _).symm⟩, hbefore⟩
    · refine ((hitem before).behind _).bind ?_
      rintro x d ⟨ts, rfl, hx⟩
      refine (lays_eat .comma).bind ?_
      rintro more d ⟨us, rfl⟩
      have hlaid : Laid ((x :: before).reverse.flatMap f) (b ++ ts ++ us) := by
        rw [List.reverse_cons, List.flatMap_append, List.flatMap_singleton]
        exact (hbefore.append hx).append_right us
      split
      · refine (ih (x :: before) _ hlaid).mono ?_
        rintro xs d ⟨⟨vs, rfl⟩, hxs⟩
        exact ⟨⟨ts ++ us ++ vs, by simp only [List.append_assoc]⟩, hxs⟩
      · exact lays_pure ⟨⟨ts ++ us, List.append_assoc b ts us⟩, hlaid⟩

/-- So the items of a list lie one behind the other. -/
theorem lays_items
    (hitem : ∀ before, Lays n [] (fun x ts => Laid (f x) ts) (item before)) :
    Lays n [] (fun xs ts => ts ≠ [] ∧ Laid (xs.flatMap f) ts) (items close item) := by
  refine (lays_look _).bind ?_
  rintro turns a rfl
  refine (lays_itemsFrom hitem turns [] [] (laid_nil [])).bind ?_
  rintro read b ⟨-, hread⟩
  refine (lays_expect close).bind ?_
  rintro _ d ⟨t, rfl⟩
  exact lays_pure ⟨List.append_ne_nil_of_right_ne_nil b (List.cons_ne_nil t []),
    hread.append_right [t]⟩

end Items

/-! ## Expressions -/

section Expressions

variable {expr operand : Reading Expr} {block : Reading Block}

/-- A node of two operands has the span from the one to the other. -/
theorem joinsUnder_binary {op? : Kind → Option BinaryOp} (hop : op? .eof = none) :
    JoinsUnder fun k => (op? k).map fun op => joined (.binary · op) := by
  intro k join hjoin
  obtain ⟨op, hk, rfl⟩ := Option.map_eq_some_iff.1 hjoin
  refine ⟨?_, fun x y => ?_⟩
  · rintro rfl
    rw [hop] at hk
    cases hk
  · rw [Expr.span_extent, Expr.span_extent]
    rfl

/-- A single word that joins. -/
theorem joinsUnder_word {w : Kind} {make : Span → Expr → Expr → Expr} (hne : w ≠ .eof)
    (hmake : ∀ s x y, (make s x y).extent = .node s [x.extent, y.extent]) :
    JoinsUnder fun k => if k = w then some (joined make) else none := by
  intro k join (hjoin : (if k = w then some (joined make) else none) = some join)
  by_cases hk : k = w
  · rw [if_pos hk] at hjoin
    cases hjoin
    refine ⟨hk ▸ hne, fun x y => ?_⟩
    rw [Expr.span_extent, Expr.span_extent]
    exact hmake _ x y
  · rw [if_neg hk] at hjoin
    cases hjoin

theorem lays_multiplicative (ho : LaysExpr n operand) : LaysExpr n (multiplicative operand) :=
  lays_chain ho (joinsUnder_binary rfl)

/-- Sums and products are chains. -/
theorem lays_additive (ho : LaysExpr n operand) : LaysExpr n (additive operand) :=
  lays_chain (lays_multiplicative ho) (joinsUnder_binary rfl)

/-- A comparison with an operator lies over both operands. -/
theorem lays_comparison (ho : LaysExpr n operand) : LaysExpr n (comparison operand) := by
  refine (lays_additive ho).bind fun left a hleft => lays_byKind fun k => ?_
  cases hk : comparisonOp? k with
  | none => exact (lays_keep hleft).at k
  | some op =>
    have hne : k ≠ .eof := by
      rintro rfl
      cases hk
    refine laysAt_token hne fun t => ((lays_additive ho).behind _).bind ?_
    rintro right b ⟨ts, rfl, -, hright⟩
    refine (lays_complainIf (fun c => (comparisonOp? c.kind).isSome = true) _ _
      fun c => c.current.span).bind ?_
    rintro _ b rfl
    have hboth := ((hleft.2.append_right [t]).append hright).pair
    rw [Expr.span_extent, Expr.span_extent] at hboth
    exact lays_pure ⟨List.append_ne_nil_of_left_ne_nil (hleft.append_right [t]).1 ts, hboth⟩

theorem lays_coalescing (ho : LaysExpr n operand) : LaysExpr n (coalescing operand) :=
  lays_chain (lays_comparison ho) (joinsUnder_word nofun fun _ _ _ => rfl)

theorem lays_conjunction (ho : LaysExpr n operand) : LaysExpr n (conjunction operand) :=
  lays_chain (lays_coalescing ho) (joinsUnder_word nofun fun _ _ _ => rfl)

/-- Every other precedence is a chain over the next. -/
theorem lays_disjunction (ho : LaysExpr n operand) : LaysExpr n (disjunction operand) :=
  lays_chain (lays_conjunction ho) (joinsUnder_word nofun fun _ _ _ => rfl)

/-- A parameter leaves no node in the tree. -/
theorem lays_parameter (before : List String) :
    Lays n [] (fun _ ts => Laid [] ts) (parameter before) := by
  refine lays_identifier.bind fun x a _ => ?_
  refine (lays_complainIf (fun _ => before.contains x.name = true) _ _ fun _ => x.span).bind ?_
  exact fun _ b _ => lays_pure (laid_nil b)

theorem lays_params : Lays n [] (fun _ ts => ts ≠ []) (items .rparen parameter) :=
  (lays_items (f := fun _ => []) lays_parameter).mono fun _ _ h => h.1

/-- What is left of a declaration is its body, which lies behind the parameters. -/
theorem lays_declaration (hb : LaysBlock n block) :
    Lays n [] (fun d ts => Lies d.extent ts) (declaration block) := by
  refine (lays_expect .lparen).bind fun _ a _ => (lays_params.behind a).bind fun params b _ => ?_
  refine (hb.behind b).bind ?_
  rintro body d ⟨ts, rfl, hne, hbody⟩
  exact lays_pure ⟨List.append_ne_nil_of_right_ne_nil b hne, hbody.append_left b⟩

/-- A member is its name, with its value behind it. -/
theorem lays_member (he : LaysExpr n expr) :
    Lays n [] (fun m ts => Laid m.extents ts) (member expr) := by
  refine lays_identifier.bind ?_
  rintro x a ⟨t, rfl, hx⟩
  refine (lays_expect .colon).bind ?_
  rintro _ a ⟨u, rfl⟩
  refine (he.behind _).bind ?_
  rintro value a ⟨ts, rfl, -, hvalue⟩
  refine lays_pure ?_
  have hboth := ((laid_token t).append_right [u]).append hvalue
  rw [← hx] at hboth
  exact hboth

/-- A literal lies over its one token. -/
theorem laysAt_literal {make : Span → NodeId → String → Expr} {raw : String} (hne : k ≠ .eof)
    (hmake : ∀ s id, (make s id raw).extent = .node s []) :
    LaysAt k n [] (fun e ts => Lies e.extent ts) (literal make raw) := by
  refine laysAt_numbered hne fun t id => lays_pure ⟨List.cons_ne_nil _ _, ?_⟩
  rw [hmake]
  exact laid_token t

theorem laysAt_atom {make : Span → Expr} (hne : k ≠ .eof)
    (hmake : ∀ s, (make s).extent = .node s []) :
    LaysAt k n [] (fun e ts => Lies e.extent ts) (atom make) := by
  refine laysAt_tokenSpan hne fun t => lays_pure ⟨List.cons_ne_nil _ _, ?_⟩
  rw [hmake]
  exact laid_token t

/-- From its first token to the last one a construct holds what was read in between. -/
theorem lays_closed {t : Token} {xs : List Extent} {f : Span → β} {extent : β → Extent}
    (h : Laid xs ts) (hf : ∀ s, extent (f s) = .node (t.span.cover s) xs) :
    Lays n (t :: ts) (fun y b => Lies (extent y) b) (do pure (f (← previous))) := by
  refine lays_previous.bind ?_
  rintro s b ⟨rfl, hs⟩
  obtain ⟨u, hu⟩ : ∃ u, u ∈ (t :: ts).getLast? :=
    ⟨_, List.getLast?_eq_some_getLast (List.cons_ne_nil t ts)⟩
  refine lays_pure ⟨List.cons_ne_nil _ _, ?_⟩
  rw [hf, hs u hu]
  exact (h.append_left [t]).between hu

/-- Parentheses widen the span of what is between them, and it stays inside. -/
theorem laysAt_parenthesized (he : LaysExpr n expr) :
    LaysAt (.symbol .lparen) n [] (fun e ts => Lies e.extent ts) (parenthesized expr) := by
  refine laysAt_tokenSpan nofun fun t => (he.behind _).bind ?_
  rintro inner a ⟨ts, rfl, -, hinner⟩
  refine (lays_expect .rparen).bind ?_
  rintro _ a ⟨u, rfl⟩
  -- The node of the inner expression goes, and what is in it is held by the wider one.
  obtain ⟨parts, hparts, -⟩ := inner.extent_withSpan default
  rw [hparts] at hinner
  have hlaid : Laid parts (ts ++ [u]) := by
    have hopen := hinner.inner
    rw [List.append_nil] at hopen
    exact hopen.append_right [u]
  refine lays_closed hlaid fun s => ?_
  obtain ⟨parts', hparts', hwide⟩ := inner.extent_withSpan (t.span.cover s)
  rw [hparts] at hparts'
  cases hparts'
  exact hwide

/-- A list literal reaches from bracket to bracket. -/
theorem laysAt_listLiteral (he : LaysExpr n expr) :
    LaysAt (.symbol .lbracket) n [] (fun e ts => Lies e.extent ts) (listLiteral expr) := by
  refine laysAt_numbered nofun fun t id => ?_
  refine ((lays_items fun _ => he.mono fun _ _ h => h.2).behind _).bind ?_
  rintro es a ⟨ts, rfl, -, hes⟩
  refine lays_closed (f := fun s => Expr.list (t.span.cover s) id es) hes fun s => ?_
  rw [Expr.extent, itemsExtents_eq_flatMap]

/-- An object literal reaches from its keyword to its last brace. -/
theorem laysAt_objectLiteral (he : LaysExpr n expr) :
    LaysAt (.keyword .new) n [] (fun e ts => Lies e.extent ts) (objectLiteral expr) := by
  refine laysAt_tokenSpan nofun fun t => (lays_expect .lbrace).bind ?_
  rintro _ a ⟨u, rfl⟩
  refine ((lays_items fun _ => lays_member he).behind _).bind ?_
  rintro ms a ⟨ts, rfl, -, hms⟩
  refine lays_closed (f := fun s => Expr.object (t.span.cover s) ms) (hms.append_left [u]) fun s => ?_
  rw [Expr.extent, membersExtents_eq_flatMap]

/-- A function without a name reaches from its keyword to the end of its body. -/
theorem laysAt_lambda (hb : LaysBlock n block) :
    LaysAt (.keyword .fn) n [] (fun e ts => Lies e.extent ts) (lambda block) := by
  refine laysAt_tokenSpan nofun fun t => ((lays_declaration hb).behind _).bind ?_
  rintro d a ⟨ts, rfl, -, hd⟩
  exact lays_closed (f := fun s => Expr.lambda (t.span.cover s) d) hd fun s => rfl

/-- By the first token: each kind of head is one of those above. -/
theorem lays_primary (he : LaysExpr n expr) (hb : LaysBlock n block) :
    LaysExpr n (primary expr block) := by
  refine lays_byKind fun k => ?_
  split
  · exact laysAt_literal nofun fun _ _ => rfl
  · exact laysAt_literal nofun fun _ _ => rfl
  · exact laysAt_literal nofun fun _ _ => rfl
  · exact laysAt_atom nofun fun _ => rfl
  · exact laysAt_atom nofun fun _ => rfl
  · exact laysAt_atom nofun fun _ => rfl
  · exact laysAt_atom nofun fun _ => rfl
  · exact laysAt_parenthesized he
  · exact laysAt_listLiteral he
  · exact laysAt_objectLiteral he
  · exact laysAt_lambda hb
  · exact (lays_refuse _ _).at k

/-- By induction on the turns: what has been read so far lies in front of the next suffix. -/
theorem lays_suffixes (he : LaysExpr n expr) (turns : Nat) :
    ∀ target a, Lies target.extent a →
      Lays n a (fun e b => Lies e.extent b) (suffixes expr turns target) := by
  induction turns with
  | zero => exact fun target a htarget => lays_keep htarget
  | succ turns ih =>
    intro target a htarget
    refine lays_byKind fun k => ?_
    split
    · refine laysAt_token nofun fun t => ?_
      refine ((lays_items fun _ => he.mono fun _ _ h => h.2).behind _).bind ?_
      rintro es b ⟨ts, rfl, -, hes⟩
      refine lays_previous.bind ?_
      rintro s b ⟨rfl, hs⟩
      have hne := List.append_ne_nil_of_left_ne_nil (htarget.append_right [t]).1 ts
      obtain ⟨u, hu⟩ : ∃ u, u ∈ (a ++ [t] ++ ts).getLast? :=
        ⟨_, List.getLast?_eq_some_getLast hne⟩
      have hcall := ((htarget.2.append_right [t]).append hes).fromFirst hu
      rw [← itemsExtents_eq_flatMap, Expr.span_extent, ← hs u hu] at hcall
      exact ih _ _ ⟨hne, hcall⟩
    · refine laysAt_token nofun fun t => lays_identifier.bind ?_
      rintro x b ⟨u, rfl, hx⟩
      have hname : Laid [x.extent] [u] := hx ▸ laid_token u
      have hproperty := ((htarget.2.append_right [t]).append hname).pair
      rw [Expr.span_extent] at hproperty
      exact ih _ _ ⟨List.append_ne_nil_of_left_ne_nil (htarget.append_right [t]).1 [u], hproperty⟩
    · exact (lays_keep htarget).at k

theorem lays_suffixed (he : LaysExpr n expr) (hb : LaysBlock n block) :
    LaysExpr n (suffixed expr block) := by
  refine (lays_primary he hb).bind fun first a hfirst => (lays_look _).bind ?_
  rintro turns b rfl
  exact lays_suffixes he turns first _ hfirst

/-- A prefix lies in front of its operand. -/
theorem lays_operand (ho : n < Cursor.maxDepth → LaysExpr (n + 1) operand)
    (he : LaysExpr n expr) (hb : LaysBlock n block) :
    LaysExpr n (Reading.operand operand expr block) := by
  refine lays_byKind fun k => ?_
  cases hk : unaryOp? k with
  | none => exact (lays_suffixed he hb).at k
  | some op =>
    have hne : k ≠ .eof := by
      rintro rfl
      cases hk
    refine laysAt_tokenSpan hne fun t => ((Lays.nested ho).behind _).bind ?_
    rintro inner a ⟨ts, rfl, -, hinner⟩
    have hunary := (hinner.append_left [t]).toLast
    rw [Expr.span_extent] at hunary
    exact lays_pure ⟨List.cons_ne_nil t ts, hunary⟩

end Expressions

/-! ## Lists of statements -/

/-- Skipping to the next statement passes tokens, but never the end. -/
theorem passed_resync (turns : Nat) (c : Cursor) (hc : c.Ended) :
    ∃ ts, c.Passed ts (resync turns c) := by
  induction turns generalizing c with
  | zero => exact ⟨[], .refl c⟩
  | succ turns ih =>
    unfold resync
    split
    · exact ⟨[], .refl c⟩
    · rename_i hend
      have hne : c.kind ≠ .eof := fun hk => hend (by rw [Cursor.atEnd, hk]; rfl)
      have hword := Cursor.passed_advance hc hne
      split
      · exact ⟨_, hword⟩
      · split
        · exact ⟨[], .refl c⟩
        · obtain ⟨ts, hts⟩ := ih c.advance (hword.ended hc)
          exact ⟨_, hword.trans hts⟩

section Statements

variable {expr : Reading Expr} {statement : Reading Stmt}

/-- The outcome of a reader of statements that began at `c` behind the statements `before`: those
that it adds lie over the tokens that it passed. -/
def LaidList (before : List Stmt) (c : Cursor) (ts : List Token) (r : List Stmt × Cursor) : Prop :=
  c.Passed ts r.2 ∧ ∃ us, r.1 = us.reverse ++ before ∧ Laid (stmtsExtents us) ts

/-- Nothing has been read yet, so nothing lies anywhere. -/
theorem laidList_nil (before : List Stmt) (c : Cursor) : LaidList before c [] (before, c) :=
  ⟨.refl c, [], rfl, laid_nil []⟩

/-- Statements that are read on lie behind those that were read before. -/
theorem LaidList.trans {before : List Stmt} {c : Cursor} {q r : List Stmt × Cursor}
    (hq : LaidList before c ts q) (hr : LaidList q.1 q.2 us r) :
    LaidList before c (ts ++ us) r := by
  obtain ⟨hts, vs, hvs, hlaid⟩ := hq
  obtain ⟨hus, ws, hws, hlaid'⟩ := hr
  refine ⟨hts.trans hus, vs ++ ws, ?_, ?_⟩
  · rw [hws, hvs, List.reverse_append, List.append_assoc]
  · rw [stmtsExtents_eq_map, List.map_append, ← stmtsExtents_eq_map, ← stmtsExtents_eq_map]
    exact hlaid.append hlaid'

/-- Before the end a statement is read or some token is passed all the same. -/
theorem laidList_statementOrSkip (hs : LaysStmt n statement) (before : List Stmt) {c : Cursor}
    (hc : c.Ended) (hn : c.depth = n) :
    ∃ ts, LaidList before c ts (statementOrSkip statement before c) ∧
      (c.kind ≠ .eof → ts ≠ []) := by
  obtain ⟨b, hb, hread⟩ := hs c hc hn nofun
  unfold statementOrSkip
  rcases hr : statement c with ⟨_ | t, d⟩
  · rw [hr] at hb
    obtain ⟨ts, hts⟩ := passed_resync d.turns d (hb.ended hc)
    have hskip := hb.trans hts
    have hended := hskip.ended hc
    dsimp only
    split
    · rename_i hstuck
      -- Nothing was passed, so the current token is.
      have hne : (resync d.turns d).kind ≠ .eof := fun hk => by
        rw [Cursor.atEnd, hk] at hstuck
        simp at hstuck
      refine ⟨_, ⟨hskip.trans (Cursor.passed_advance hended hne), [], rfl, laid_nil _⟩, fun _ => ?_⟩
      exact List.append_ne_nil_of_right_ne_nil _ (List.cons_ne_nil _ _)
    · rename_i hmoved
      refine ⟨_, ⟨hskip, [], rfl, laid_nil _⟩, ?_⟩
      rintro hne hnil
      have htokens := hskip.tokens
      rw [hnil, List.nil_append] at htokens
      injection htokens with hcurrent hlater
      refine hmoved ?_
      have hkind : (resync d.turns d).kind ≠ .eof := by
        rw [Cursor.kind, ← hcurrent]
        exact hne
      rw [hlater, Cursor.atEnd, beq_eq_false_iff_ne.2 hkind]
      simp
  · rw [hr] at hb hread
    obtain ⟨hne, hlaid⟩ := hread t rfl
    exact ⟨b, ⟨hb, [t], rfl, hlaid⟩, fun _ => hne⟩

/-- By induction on the turns; what is skipped behind an error has been passed as well. -/
theorem laidList_blockBody (hs : LaysStmt n statement) (turns : Nat) :
    ∀ before c, c.Ended → c.depth = n →
      ∃ ts, LaidList before c ts (blockBody statement turns before c) := by
  induction turns with
  | zero => exact fun before c _ _ => ⟨[], laidList_nil before c⟩
  | succ turns ih =>
    intro before c hc hn
    unfold blockBody
    split
    · exact ⟨[], laidList_nil before c⟩
    · obtain ⟨ts, hts, -⟩ := laidList_statementOrSkip hs before hc hn
      obtain ⟨us, hus⟩ := ih _ _ (hts.1.ended hc) (hts.1.depth.trans hn)
      exact ⟨_, hts.trans hus⟩

/-- A closing brace that closes nothing is passed over. -/
theorem passed_unmatched {c : Cursor} (hc : c.Ended) (hk : c.kind = .symbol .rbrace)
    (message : String) :
    c.Passed [c.current] (c.complainHere .unexpectedToken message).advance := by
  have hcomplain := c.passed_complain .unexpectedToken message c.current.span none
  have hne : (c.complainHere .unexpectedToken message).kind ≠ .eof := by
    show c.kind ≠ .eof
    rw [hk]
    nofun
  exact hcomplain.trans (Cursor.passed_advance (hcomplain.ended hc) hne)

/-- The same for the statements of a document. -/
theorem laidList_programBody (hs : LaysStmt n statement) (turns : Nat) :
    ∀ before c, c.Ended → c.depth = n →
      ∃ ts, LaidList before c ts (programBody statement turns before c) := by
  induction turns with
  | zero => exact fun before c _ _ => ⟨[], laidList_nil before c⟩
  | succ turns ih =>
    intro before c hc hn
    unfold programBody
    split
    · exact ⟨[], laidList_nil before c⟩
    · split
      · rename_i hbrace
        have hpassed := passed_unmatched hc hbrace "unmatched '\x7d'"
        have hfirst : LaidList before c [c.current]
            (before, (c.complainHere .unexpectedToken "unmatched '\x7d'").advance) :=
          ⟨hpassed, [], rfl, laid_nil _⟩
        obtain ⟨us, hus⟩ := ih before _ (hpassed.ended hc) (hpassed.depth.trans hn)
        exact ⟨_, hfirst.trans hus⟩
      · obtain ⟨ts, hts, -⟩ := laidList_statementOrSkip hs before hc hn
        obtain ⟨us, hus⟩ := ih _ _ (hts.1.ended hc) (hts.1.depth.trans hn)
        exact ⟨_, hts.trans hus⟩

/-! ## Statements -/

/-- A block reaches from its first brace to the token read last. -/
theorem lays_block (hs : LaysStmt n statement) : LaysBlock n (block statement) := by
  refine lays_expectSpan fun t => ?_
  have hbody : Lays n [t] (fun us b => ∃ ts, b = t :: ts ∧ Laid (stmtsExtents us) ts) fun c =>
      (some (blockBody statement c.turns [] c).1.reverse, (blockBody statement c.turns [] c).2) := by
    intro c hc hn _
    obtain ⟨ts, hts, us, hus, hlaid⟩ := laidList_blockBody hs c.turns [] c hc hn
    refine ⟨ts, hts, ?_⟩
    rintro vs ⟨⟩
    rw [hus, List.append_nil, List.reverse_reverse]
    exact ⟨ts, rfl, hlaid⟩
  refine hbody.bind ?_
  rintro us a ⟨ts, rfl, hlaid⟩
  refine (lays_expect .rbrace).bind ?_
  rintro _ a ⟨u, rfl⟩
  exact lays_closed (f := fun s => Block.mk us (t.span.cover s)) (hlaid.append_right [u])
    fun s => rfl

/-- The target of an assignment is taken apart, and its parts lie where they lay. -/
theorem lays_simple (he : LaysExpr n expr) : LaysStmt n (simple expr) := by
  refine he.bind fun target a htarget => lays_at? ?_ ?_
  · refine laysAt_tokenSpan nofun fun t => (he.behind _).bind ?_
    rintro value b ⟨ts, rfl, -, hvalue⟩
    have hne := List.append_ne_nil_of_left_ne_nil (htarget.append_right [t]).1 ts
    have hboth := (htarget.2.append_right [t]).append hvalue
    cases target with
    | name s x =>
      have hassign := hboth.pair
      rw [Expr.span_extent, Expr.span_extent] at hassign
      exact lays_pure ⟨hne, hassign⟩
    | property s owner x =>
      have hassign := hboth.pairInner
      rw [Expr.span_extent] at hassign
      exact lays_pure ⟨hne, hassign⟩
    | _ => exact lays_complain _ _ _ _
  · have hvalue := htarget.2.same
    rw [Expr.span_extent] at hvalue
    exact lays_pure ⟨htarget.1, hvalue⟩

/-- A definition has the span from its keyword to its body, with its name in front of the body. -/
theorem laysAt_definition {block : Reading Block} (hb : LaysBlock n block) :
    LaysAt (.keyword .fn) n [] (fun t ts => Lies t.extent ts) (definition block) := by
  refine laysAt_numbered nofun fun t id => lays_identifier.bind ?_
  rintro x a ⟨u, rfl, hx⟩
  refine ((lays_declaration hb).behind _).bind ?_
  rintro d a ⟨ts, rfl, -, hd⟩
  have hname : Laid [x.extent] [u] := hx ▸ laid_token u
  exact lays_closed (f := fun s => Stmt.define (t.span.cover s) id x d) (hname.append hd)
    fun s => rfl

/-- The parentheses around a test belong to no node. -/
theorem lays_condition (he : LaysExpr n expr) :
    Lays n [] (fun e ts => Lies e.extent ts) (condition expr) := by
  refine (lays_expect .lparen).bind fun _ a _ => (he.behind a).bind ?_
  rintro test b ⟨ts, rfl, hne, htest⟩
  refine (lays_expect .rparen).bind ?_
  rintro _ b ⟨u, rfl⟩
  exact lays_pure ⟨List.append_ne_nil_of_right_ne_nil _ (List.cons_ne_nil u []),
    (htest.append_left a).append_right [u]⟩

/-- The branches of a conditional lie behind its test. -/
theorem laysAt_conditional (he : LaysExpr n expr) (hs : LaysStmt n statement) :
    LaysAt (.keyword .if) n [] (fun t ts => Lies t.extent ts) (conditional expr statement) := by
  refine laysAt_tokenSpan nofun fun t => ((lays_condition he).behind _).bind ?_
  rintro test a ⟨ts, rfl, -, htest⟩
  refine (hs.behind _).bind ?_
  rintro yes a ⟨us, rfl, -, hyes⟩
  refine (lays_eatKeyword .else).bind ?_
  rintro more a ⟨vs, rfl⟩
  have hboth := (htest.append hyes).append_right vs
  have hassoc : ∀ ws, t :: (ts ++ us ++ vs ++ ws) = [] ++ [t] ++ ts ++ us ++ vs ++ ws := by
    intro ws
    simp only [List.nil_append, List.cons_append, List.append_assoc]
  split
  · refine ((hs.map (f := some) (Z := fun no ts => ∃ t, no = some t ∧ Lies t.extent ts)
      fun no ts hno => ⟨no, rfl, hno⟩).behind _).bind ?_
    rintro _ a ⟨ws, rfl, no, rfl, -, hno⟩
    rw [← hassoc]
    exact lays_closed (f := fun s => Stmt.cond (t.span.cover s) test yes (some no))
      (hboth.append hno) fun s => rfl
  · refine (lays_pure (Z := fun no b => no = none ∧ b = [] ++ [t] ++ ts ++ us ++ vs)
      ⟨rfl, rfl⟩).bind ?_
    rintro _ a ⟨rfl, rfl⟩
    exact lays_closed (f := fun s => Stmt.cond (t.span.cover s) test yes none) hboth fun s => rfl

theorem laysAt_whileLoop (he : LaysExpr n expr) (hs : LaysStmt n statement) :
    LaysAt (.keyword .while) n [] (fun t ts => Lies t.extent ts) (whileLoop expr statement) := by
  refine laysAt_tokenSpan nofun fun t => ((lays_condition he).behind _).bind ?_
  rintro test a ⟨ts, rfl, -, htest⟩
  refine (hs.behind _).bind ?_
  rintro body a ⟨us, rfl, -, hbody⟩
  exact lays_closed (f := fun s => Stmt.while (t.span.cover s) test body) (htest.append hbody)
    fun s => rfl

/-- The parts of a loop lie one behind the other, as they are written. -/
theorem laysAt_forLoop (he : LaysExpr n expr) (hs : LaysStmt n statement) :
    LaysAt (.keyword .for) n [] (fun t ts => Lies t.extent ts) (forLoop expr statement) := by
  refine laysAt_tokenSpan nofun fun t => (lays_expect .lparen).bind ?_
  rintro _ a ⟨u, rfl⟩
  refine ((lays_simple he).behind _).bind ?_
  rintro init a ⟨ts, rfl, -, hinit⟩
  refine (lays_expect .semicolon).bind ?_
  rintro _ a ⟨v, rfl⟩
  refine (he.behind _).bind ?_
  rintro test a ⟨us, rfl, -, htest⟩
  refine (lays_expect .semicolon).bind ?_
  rintro _ a ⟨w, rfl⟩
  refine ((lays_simple he).behind _).bind ?_
  rintro step a ⟨vs, rfl, -, hstep⟩
  refine (lays_expect .rparen).bind ?_
  rintro _ a ⟨z, rfl⟩
  refine (hs.behind _).bind ?_
  rintro body a ⟨ws, rfl, -, hbody⟩
  have hall := (((hinit.append_left [u]).append_right [v]).append (htest.append_right [w])).append
    ((hstep.append_right [z]).append hbody)
  have hassoc : [] ++ [t] ++ [u] ++ ts ++ [v] ++ us ++ [w] ++ vs ++ [z] ++ ws =
      t :: ([u] ++ ts ++ [v] ++ (us ++ [w]) ++ (vs ++ [z] ++ ws)) := by
    simp only [List.nil_append, List.cons_append, List.append_assoc]
  rw [hassoc]
  exact lays_closed (f := fun s => Stmt.for (t.span.cover s) init test step body) hall fun s => rfl

/-- A return may have a value in it. -/
theorem laysAt_returning (he : LaysExpr n expr) :
    LaysAt (.keyword .return) n [] (fun t ts => Lies t.extent ts) (returning expr) := by
  refine laysAt_tokenSpan nofun fun t => (lays_look _).bind ?_
  rintro bare a rfl
  have hend : ∀ value xs ts, Laid xs ts → (∀ s, (Stmt.return s value).extent = .node s xs) →
      Lays n (t :: ts) (fun t ts => Lies t.extent ts)
        (do endStatement; pure (Stmt.return (t.span.cover (← previous)) value)) := by
    intro value xs ts hlaid hextent
    refine lays_endStatement.bind ?_
    rintro _ a ⟨u, rfl⟩
    exact lays_closed (f := fun s => Stmt.return (t.span.cover s) value) (hlaid.append_right [u])
      fun s => hextent _
  split
  · refine (lays_pure (Z := fun value b => value = none ∧ b = [t]) ⟨rfl, rfl⟩).bind ?_
    rintro _ a ⟨rfl, rfl⟩
    exact hend none [] [] (laid_nil []) fun s => rfl
  · refine ((he.map (f := some) (Z := fun value ts => ∃ e, value = some e ∧ Lies e.extent ts)
      fun e ts he => ⟨e, rfl, he⟩).behind _).bind ?_
    rintro _ a ⟨ts, rfl, e, rfl, -, he⟩
    exact hend (some e) [e.extent] ts he fun s => rfl

/-- A jump has nothing in it. -/
theorem laysAt_jump {make : Span → Stmt} (hne : k ≠ .eof)
    (hmake : ∀ s, (make s).extent = .node s []) :
    LaysAt k n [] (fun t ts => Lies t.extent ts) (jump make) := by
  refine laysAt_tokenSpan hne fun t => lays_endStatement.bind ?_
  rintro _ a ⟨u, rfl⟩
  exact lays_closed (f := fun s => make (t.span.cover s)) (laid_nil [u]) fun s => hmake _

theorem laysAt_writing (he : LaysExpr n expr) :
    LaysAt (.keyword .write) n [] (fun t ts => Lies t.extent ts) (writing expr) := by
  refine laysAt_tokenSpan nofun fun t => (he.behind _).bind ?_
  rintro value a ⟨ts, rfl, -, hvalue⟩
  refine lays_endStatement.bind ?_
  rintro _ a ⟨u, rfl⟩
  exact lays_closed (f := fun s => Stmt.write (t.span.cover s) value) (hvalue.append_right [u])
    fun s => rfl

/-- By the first token: each kind of statement is one of those above. -/
theorem lays_statementBody (he : LaysExpr n expr) (hs : LaysStmt n statement) :
    LaysStmt n (statementBody expr statement) := by
  refine lays_byKinds fun k next => ?_
  split
  · next heq =>
    cases heq
    exact ((lays_block hs).map (f := Stmt.block) (Z := fun t ts => Lies t.extent ts)
      fun b ts hb => hb).at _
  · next heq =>
    cases heq
    exact laysAt_definition (lays_block hs)
  · next heq =>
    cases heq
    exact laysAt_conditional he hs
  · next heq =>
    cases heq
    exact laysAt_whileLoop he hs
  · next heq =>
    cases heq
    exact laysAt_forLoop he hs
  · next heq =>
    cases heq
    exact laysAt_returning he
  · next heq =>
    cases heq
    exact laysAt_jump nofun fun _ => rfl
  · next heq =>
    cases heq
    exact laysAt_jump nofun fun _ => rfl
  · next heq =>
    cases heq
    exact laysAt_writing he
  · refine ((lays_simple he).bind fun t a ht => lays_endStatement.bind ?_).at k
    rintro _ b ⟨u, rfl⟩
    exact lays_pure (ht.append_right [u])

end Statements

/-- At every depth what is read lies over the tokens that were passed. -/
theorem lays_tree (n : Nat) :
    LaysExpr n expression ∧ LaysStmt n statement ∧ LaysExpr n prefixed := by
  -- The recursion is on the levels that are left, and each reader opens one before it goes on.
  have deeper : n < Cursor.maxDepth → LaysExpr (n + 1) expression ∧
      LaysStmt (n + 1) statement ∧ LaysExpr (n + 1) prefixed :=
    fun _ => lays_tree (n + 1)
  have hexpr : LaysExpr n expression := by
    rw [expression_eq]
    exact Lays.nested fun hn => lays_disjunction (deeper hn).2.2
  have hstmt : LaysStmt n statement := by
    rw [statement_eq]
    exact Lays.nested fun hn => lays_statementBody (deeper hn).1 (deeper hn).2.1
  refine ⟨hexpr, hstmt, ?_⟩
  rw [prefixed_eq]
  exact lays_operand (fun hn => (deeper hn).2.2) hexpr (lays_block hstmt)
termination_by Cursor.maxDepth - n

theorem lays_statement (n : Nat) : LaysStmt n statement := (lays_tree n).2.1

end Reading

/-! ## Whole texts -/

namespace Cursor

/-- The parser starts with all tokens before it. -/
theorem tokens_ofTokens (doc : Document) {tokens : List Token} (h : tokens ≠ []) :
    (ofTokens doc tokens).tokens = tokens := by
  cases tokens with
  | nil => exact absurd rfl h
  | cons t ts => rfl

theorem OneEnd.ne_nil {tokens : List Token} (h : OneEnd tokens) : tokens ≠ [] := by
  obtain ⟨ks, hks, -⟩ := h
  rintro rfl
  exact absurd hks.symm (List.append_ne_nil_of_right_ne_nil ks (List.cons_ne_nil _ _))

/-- The tokens of a document end with its end, and with it alone. -/
theorem OneEnd.ended {tokens : List Token} (h : OneEnd tokens) (doc : Document) :
    (ofTokens doc tokens).Ended := by
  rw [ended_iff, tokens_ofTokens doc h.ne_nil]
  exact h

end Cursor

end SmallScript
