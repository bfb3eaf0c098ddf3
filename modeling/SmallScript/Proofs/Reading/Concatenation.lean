/-
  One text behind another.

  A text that is read without a complaint is read in the same way with another text behind it, as long
  as that does not begin with an `else`; and the other text is then read as it would be by itself,
  complaints included, only that its nodes are numbered from where the first text stopped
  (`read_append`).

  Both halves are instances of one statement about readers side by side, with one lemma for each
  reader: in the first half the texts part where the first one ends, in the second half they do not
  part at all.  For statements the statement is that they agree even where they end at the junction.
  There the optional `else` of a conditional is looked for, and behind a last `fn` a name.
-/
import SmallScript.Proofs.Reading.Alongside

namespace SmallScript

namespace Junction

open Reading

variable {J : Junction} {α β : Type} {p : Prop} {n : Nat} {k : Kind}

/-! ## Chains and items -/

/-- Up to the junction an expression is read on both sides. -/
abbrev SameExpr (J : Junction) (n : Nat) (m : Reading Expr) : Prop :=
  ∀ p, J.Agrees False p n (Expr.shift J.shift) m m

/-- A block is read on both sides, even if it ends at the junction. -/
abbrev SameBlock (J : Junction) (n : Nat) (m : Reading Block) : Prop :=
  ∀ p, J.Tight p n (Block.shift J.shift) m m

/-- A statement is read on both sides, even if it ends at the junction. -/
abbrev SameStmt (J : Junction) (n : Nat) (m : Reading Stmt) : Prop :=
  ∀ p, J.Tight p n (Stmt.shift J.shift) m m

/-- Joining two expressions numbers nothing. -/
def JoinsShifted (s : Nat) (join? : Kind → Option (Expr → Expr → Expr)) : Prop :=
  ∀ k join, join? k = some join → ∀ x y, (join x y).shift s = join (x.shift s) (y.shift s)

section Chains

variable {join? : Kind → Option (Expr → Expr → Expr)} {operand : Reading Expr}

/-- By induction on the turns; whether an operator follows must be seen before the junction. -/
theorem agrees_chainFrom (ho : J.SameExpr n operand) (hjoin : JoinsShifted J.shift join?)
    (turns : Nat) : ∀ left, J.Agrees False True n (Expr.shift J.shift)
      (chainFrom join? operand turns left) (chainFrom join? operand turns (left.shift J.shift)) := by
  induction turns with
  | zero => exact fun left => agrees_pure rfl
  | succ turns ih =>
    intro left
    refine agrees_byKind fun k => ?_
    cases hk : join? k with
    | none => exact agrees_pure rfl
    | some join =>
      refine agrees_token.bind fun _ => (ho True).bind fun right => ?_
      rw [← hjoin k join hk]
      exact ih _

/-- So chains agree where their operands do, if the end of a text is no operator. -/
theorem same_chain (ho : J.SameExpr n operand) (hjoin : JoinsShifted J.shift join?)
    (hend : join? .eof = none) (hgo : Forward operand) : J.SameExpr n (chain join? operand) := by
  refine fun p => (ho p).bind fun first => Agrees.turns
    (fun turns => agrees_chainFrom ho hjoin turns first) fun c hc turns hturns => ?_
  rw [chainFrom_eq, chainFrom_eq]
  exact (passes_chainTurn hend hgo).enough hc hturns

/-- A shift goes into both operands of an operator. -/
theorem joinsShifted_binary (s : Nat) (op? : Kind → Option BinaryOp) :
    JoinsShifted s fun k => (op? k).map fun op => joined (.binary · op) := by
  intro k join hjoin x y
  obtain ⟨op, -, rfl⟩ := Option.map_eq_some_iff.1 hjoin
  unfold joined
  rw [x.span_shift, y.span_shift]
  rfl

/-- A single word that joins. -/
theorem joinsShifted_word {s : Nat} {w : Kind} {make : Span → Expr → Expr → Expr}
    (hmake : ∀ span x y, (make span x y).shift s = make span (x.shift s) (y.shift s)) :
    JoinsShifted s fun k => if k = w then some (joined make) else none := by
  intro k join (hjoin : (if k = w then some (joined make) else none) = some join) x y
  by_cases hk : k = w
  · rw [if_pos hk] at hjoin
    cases hjoin
    unfold joined
    rw [x.span_shift, y.span_shift, hmake]
  · rw [if_neg hk] at hjoin
    cases hjoin

end Chains

section Items

variable {close : Symbol} {g : α → β} {item : List α → Reading α} {item' : List β → Reading β}

/-- By induction on the turns, up to the closing symbol. -/
theorem agrees_itemsFrom
    (hitem : ∀ before, J.Agrees False True n g (item before) (item' (before.map g))) (turns : Nat) :
    ∀ before, J.Agrees False True n (List.map g) (itemsFrom close item turns before)
      (itemsFrom close item' turns (before.map g)) := by
  induction turns with
  | zero => exact fun before => agrees_pure rfl
  | succ turns ih =>
    intro before
    refine (agrees_at? close).bind fun closing => ?_
    cases closing with
    | true => exact agrees_pure rfl
    | false =>
      refine (hitem before).bind fun x => (agrees_eat .comma).bind fun more => ?_
      cases more with
      | true => exact ih (x :: before)
      | false => exact agrees_pure rfl

/-- A list of items ends with its closing symbol, so it may end at the junction. -/
theorem tight_items
    (hitem : ∀ before, J.Agrees False True n g (item before) (item' (before.map g)))
    (hgo : ∀ before, Forward (item before)) :
    J.Tight True n (List.map g) (items close item) (items close item') := by
  refine Tight.turns (fun turns => (agrees_itemsFrom hitem turns []).bindTight fun read =>
    (tight_expect close).bind fun _ => agrees_pure ?_) fun c hc turns hturns => ?_
  · exact List.map_reverse
  · have henough : itemsFrom close item turns [] c = itemsFrom close item c.turns [] c := by
      rw [itemsFrom_eq, itemsFrom_eq]
      exact (passes_itemsTurn hgo).enough hc hturns
    show Reading.bind _ _ c = Reading.bind _ _ c
    unfold Reading.bind
    rw [henough]

end Items

/-! ## Expressions -/

section Expressions

theorem same_multiplicative (ho : J.SameExpr n prefixed) : J.SameExpr n (multiplicative prefixed) :=
  same_chain ho (joinsShifted_binary _ _) rfl (Lays.forward fun n => (lays_tree n).2.2)

/-- Sums and products are chains. -/
theorem same_additive (ho : J.SameExpr n prefixed) : J.SameExpr n (additive prefixed) :=
  same_chain (same_multiplicative ho) (joinsShifted_binary _ _) rfl
    (Lays.forward fun n => lays_multiplicative (lays_tree n).2.2)

/-- A comparison looks for one operator. -/
theorem same_comparison (ho : J.SameExpr n prefixed) : J.SameExpr n (comparison prefixed) := by
  refine fun p => (same_additive ho p).bind fun left => agrees_byKind fun k => ?_
  cases comparisonOp? k with
  | none => exact agrees_pure rfl
  | some op =>
    refine agrees_token.bind fun _ => (same_additive ho True).bind fun right => ?_
    refine (agrees_complainIf (fun t => (comparisonOp? t.kind).isSome) _ _ Token.span).bind
      fun _ => agrees_pure ?_
    unfold joined
    rw [left.span_shift, right.span_shift]
    rfl

theorem same_coalescing (ho : J.SameExpr n prefixed) : J.SameExpr n (coalescing prefixed) :=
  same_chain (same_comparison ho) (joinsShifted_word fun _ _ _ => rfl) rfl
    (Lays.forward fun n => lays_comparison (lays_tree n).2.2)

theorem same_conjunction (ho : J.SameExpr n prefixed) : J.SameExpr n (conjunction prefixed) :=
  same_chain (same_coalescing ho) (joinsShifted_word fun _ _ _ => rfl) rfl
    (Lays.forward fun n => lays_coalescing (lays_tree n).2.2)

/-- The lowest precedence is a chain of chains. -/
theorem same_disjunction (ho : J.SameExpr n prefixed) : J.SameExpr n (disjunction prefixed) :=
  same_chain (same_conjunction ho) (joinsShifted_word fun _ _ _ => rfl) rfl
    (Lays.forward fun n => lays_conjunction (lays_tree n).2.2)

/-- A parameter has no number. -/
theorem agrees_parameter (before : List String) :
    J.Agrees False True n id (parameter before) (parameter before) := by
  refine tight_identifier.agrees.loosen.bind fun x => ?_
  exact (agrees_complainIf (fun _ => before.contains x.name) _ _ fun _ => x.span).bind
    fun _ => agrees_pure rfl

theorem tight_params : J.Tight True n (List.map id) (items .rparen parameter)
    (items .rparen parameter) := by
  refine tight_items (fun before => ?_) fun before => Lays.forward fun _ => lays_parameter before
  rw [List.map_id]
  exact agrees_parameter before

/-- Parameters end with a parenthesis, and the body with a brace. -/
theorem tight_declaration {block : Reading Block} (hb : J.SameBlock n block) :
    J.Tight p n (FnDecl.shift J.shift) (declaration block) (declaration block) := by
  refine (tight_expect .lparen).bind fun _ => tight_params.agrees.bind fun params => ?_
  rw [List.map_id]
  exact (hb True).agrees.bind fun body => agrees_pure rfl

/-- A member is shifted in its value. -/
theorem agrees_member (he : J.SameExpr n expression) :
    J.Agrees False True n (Member.shift J.shift) (member expression) (member expression) :=
  tight_identifier.agrees.loosen.bind fun _ => (tight_expect .colon).agrees.loosen.bind fun _ =>
    (he True).bind fun _ => agrees_pure rfl

/-- A literal takes the next number, which is the shifted one in the second text. -/
theorem agrees_literal {make : Span → NodeId → String → Expr} {raw : String}
    (hmake : ∀ s id, (make s id raw).shift J.shift = make s (id + J.shift) raw) :
    J.Agrees False p n (Expr.shift J.shift) (literal make raw) (literal make raw) :=
  agrees_tokenSpan.bind fun s => agrees_freshId.bind fun id => agrees_pure (hmake s id)

/-- A word that stands for a value has no number to shift. -/
theorem agrees_atom {make : Span → Expr} (hmake : ∀ s, (make s).shift J.shift = make s) :
    J.Agrees False p n (Expr.shift J.shift) (atom make) (atom make) :=
  agrees_tokenSpan.bind fun s => agrees_pure (hmake s)

/-- Parentheses are read by both, up to the second one. -/
theorem same_parenthesized (he : J.SameExpr n expression) :
    J.SameExpr n (parenthesized expression) := by
  refine fun p => agrees_tokenSpan.bind fun start => (he True).bind fun inner => ?_
  refine (tight_expect .rparen).agrees.loosen.bind fun _ => agrees_previous.bind fun last => ?_
  exact agrees_pure (Expr.shift_withSpan _ _ _)

/-- The items of a list and the arguments of a call. -/
theorem tight_exprs {close : Symbol} (he : J.SameExpr n expression) :
    J.Tight True n (List.map (Expr.shift J.shift)) (items close fun _ => expression)
      (items close fun _ => expression) :=
  tight_items (fun _ => he True) fun _ => forward_expression

/-- A list literal takes its number before those of its items. -/
theorem same_listLiteral (he : J.SameExpr n expression) : J.SameExpr n (listLiteral expression) := by
  refine fun p => agrees_tokenSpan.bind fun start => agrees_freshId.bind fun id => ?_
  refine (tight_exprs he).agrees.loosen.bind fun es => agrees_previous.bind fun last => ?_
  exact agrees_pure (Expr.shift_list _ _ _ _)

/-- An object literal takes none. -/
theorem same_objectLiteral (he : J.SameExpr n expression) :
    J.SameExpr n (objectLiteral expression) := by
  have hmembers : J.Tight True n (List.map (Member.shift J.shift))
      (items .rbrace fun _ => member expression) (items .rbrace fun _ => member expression) :=
    tight_items (fun _ => agrees_member he)
      fun _ => Lays.forward fun n => lays_member (lays_tree n).1
  refine fun p => agrees_tokenSpan.bind fun start => ?_
  refine (tight_expect .lbrace).agrees.loosen.bind fun _ => ?_
  refine hmembers.agrees.loosen.bind fun ms => agrees_previous.bind fun last => ?_
  exact agrees_pure (Expr.shift_object _ _ _)

theorem same_lambda {block : Reading Block} (hb : J.SameBlock n block) :
    J.SameExpr n (lambda block) := by
  refine fun p => agrees_tokenSpan.bind fun start => ?_
  refine (tight_declaration hb).agrees.loosen.bind fun d => agrees_previous.bind fun last => ?_
  exact agrees_pure rfl

/-- Both see the same first word. -/
theorem same_primary {block : Reading Block} (he : J.SameExpr n expression)
    (hb : J.SameBlock n block) : J.SameExpr n (primary expression block) := by
  refine fun p => agrees_byKind fun k => ?_
  split
  · exact agrees_literal fun _ _ => rfl
  · exact agrees_literal fun _ _ => rfl
  · exact agrees_literal fun _ _ => rfl
  · exact agrees_atom fun _ => rfl
  · exact agrees_atom fun _ => rfl
  · exact agrees_atom fun _ => rfl
  · exact agrees_atom fun _ => rfl
  · exact same_parenthesized he p
  · exact same_listLiteral he p
  · exact same_objectLiteral he p
  · exact same_lambda hb p
  · exact agrees_refuse _ _

/-- By induction on the turns; that no suffix follows must be seen before the junction. -/
theorem agrees_suffixes (he : J.SameExpr n expression) (turns : Nat) :
    ∀ target, J.Agrees False True n (Expr.shift J.shift) (suffixes expression turns target)
      (suffixes expression turns (target.shift J.shift)) := by
  induction turns with
  | zero => exact fun target => agrees_pure rfl
  | succ turns ih =>
    intro target
    refine agrees_byKind fun k => ?_
    split
    · refine agrees_token.bind fun _ => (tight_exprs he).agrees.loosen.bind fun args => ?_
      refine agrees_previous.bind fun last => ?_
      have hcall := ih (.call (target.span.cover last) target args)
      rw [Expr.shift_call] at hcall
      rw [target.span_shift]
      exact hcall
    · refine agrees_token.bind fun _ => tight_identifier.agrees.loosen.bind fun name => ?_
      rw [target.span_shift]
      exact ih (.property (target.span.cover name.span) target name)
    · exact agrees_pure rfl

theorem same_suffixed {block : Reading Block} (he : J.SameExpr n expression)
    (hb : J.SameBlock n block) : J.SameExpr n (suffixed expression block) := by
  refine fun p => (same_primary he hb p).bind fun first => Agrees.turns
    (fun turns => agrees_suffixes he turns first) fun c hc turns hturns => ?_
  rw [suffixes_eq, suffixes_eq]
  exact (passes_suffixTurn forward_expression).enough hc hturns

/-- A prefix is entered by both. -/
theorem same_operand {block : Reading Block} (ho : n < Cursor.maxDepth → J.SameExpr (n + 1) prefixed)
    (he : J.SameExpr n expression) (hb : J.SameBlock n block) :
    J.SameExpr n (operand prefixed expression block) := by
  refine fun p => agrees_byKind fun k => ?_
  cases unaryOp? k with
  | none => exact same_suffixed he hb p
  | some op =>
    refine agrees_tokenSpan.bind fun start => ?_
    refine (Agrees.nested fun hn => ho hn True).bind fun inner => agrees_pure ?_
    rw [inner.span_shift]
    rfl

end Expressions

/-! ## Lists of statements -/

section Lists

/-- The outcomes of reading statements on both sides: those that were added correspond, whatever was
read before. -/
structure Lists (J : Junction) (p : Prop) (before before' : List Stmt) (r r' : List Stmt × Cursor) :
    Prop where
  read : ∃ us, r.1 = us ++ before ∧ r'.1 = us.map (Stmt.shift J.shift) ++ before'
  beside : J.Beside p r.2 r'.2

variable {before before' : List Stmt} {c c' : Cursor} {q q' r r' : List Stmt × Cursor}

theorem lists_nil (hb : J.Beside p c c') : J.Lists p before before' (before, c) (before', c') :=
  ⟨⟨[], rfl, rfl⟩, hb⟩

/-- Statements that agree may be followed by others that do. -/
theorem Lists.trans (h : J.Lists p before before' q q') (h' : J.Lists p q.1 q'.1 r r') :
    J.Lists p before before' r r' := by
  obtain ⟨us, hus, hus'⟩ := h.read
  obtain ⟨vs, hvs, hvs'⟩ := h'.read
  refine ⟨⟨vs ++ us, ?_, ?_⟩, h'.beside⟩
  · rw [hvs, hus, List.append_assoc]
  · rw [hvs', hus', List.map_append, List.append_assoc]

/-- Behind an error words are skipped on both sides, if nothing parts the texts. -/
theorem beside_resync (hJ : J.Seamless) (turns : Nat) :
    ∀ c c', J.Beside p c c' → J.Beside p (resync turns c) (resync turns c') := by
  induction turns with
  | zero => exact fun _ _ hb => hb
  | succ turns ih =>
    intro c c' hb
    have hkind := hb.kind (.inl hJ)
    unfold resync
    rw [show c'.atEnd = c.atEnd from congrArg (· == .eof) hkind, hkind]
    split
    · exact hb
    · split
      · exact hb.advance (.inl hJ)
      · split
        · exact hb
        · exact ih _ _ (hb.advance (.inl hJ))

/-- Without a junction both have equally many tokens left. -/
theorem Beside.length_later (hb : J.Beside p c c') (hJ : J.Seamless) :
    c'.later.length = c.later.length := by
  obtain ⟨-, ls, hls, hls'⟩ := hb.next (.inl hJ)
  rw [hls, hls', hJ.1, hJ.2]

/-- Where a statement is given up there is no junction, so both skip the same tokens. -/
theorem lists_statementOrSkip (hs : J.SameStmt n statement) (before before' : List Stmt)
    (hc : c.Ended) (hn : c.depth = n) (hb : J.Beside p c c')
    (hclear : J.Clear True c (some (statementOrSkip statement before c).1,
      (statementOrSkip statement before c).2)) :
    J.Lists p before before' (statementOrSkip statement before c)
      (statementOrSkip statement before' c') := by
  have hread := (hs p).agrees.honest c hc hn
  have hlist := faithful_statementOrSkip (hs p).agrees.honest before hc hn
  have hmeets := ((hs p).agrees c.kind).meets c c' hc hn rfl hb
  unfold statementOrSkip at hclear hlist ⊢
  rcases hr : statement c with ⟨_ | t, d⟩
  · rw [hr] at hclear hlist hread hmeets
    dsimp only at hclear hlist
    -- Nothing was read, so there was a complaint.
    have hJ : J.Seamless := by
      rcases hclear with hJ | ⟨hquiet, -⟩
      · exact hJ
      · obtain ⟨_, _, ⟨⟩, ⟨t, ht, -⟩, -⟩ := hlist.read hquiet
        split at ht
        · exact absurd ht.symm (List.cons_ne_self t before)
        · exact absurd ht.symm (List.cons_ne_self t before)
    obtain ⟨d', hr', hd⟩ := (hmeets (.inl hJ)).of_none
    have hturns : d'.turns = d.turns := congrArg (· + 1) (hd.length_later hJ)
    have hskip := beside_resync hJ d.turns d d' hd
    rw [hr']
    dsimp only
    rw [hturns, hskip.length_later hJ, hb.length_later hJ, hskip.atEnd (.inl hJ)]
    split
    · exact lists_nil (hskip.advance (.inl hJ))
    · exact lists_nil hskip
  · rw [hr] at hclear hmeets
    obtain ⟨d', hr', hd⟩ := (hmeets hclear).of_some
    rw [hr']
    exact ⟨⟨[t], rfl, rfl⟩, hd p⟩

/-- By induction on the turns, up to the brace that closes the block. -/
theorem lists_blockBody (hs : J.SameStmt n statement) (turns : Nat) :
    ∀ before before' c c', c.Ended → c.depth = n → J.Beside p c c' →
      J.Clear False c (some (blockBody statement turns before c).1,
        (blockBody statement turns before c).2) →
      J.Lists p before before' (blockBody statement turns before c)
        (blockBody statement turns before' c') := by
  induction turns with
  | zero => exact fun before before' c c' _ _ hb _ => lists_nil hb
  | succ turns ih =>
    intro before before' c c' hc hn hb hclear
    have hgo := hclear.before (faithful_blockBody (reads_statement n) (turns + 1) before c hc hn) hc
    unfold blockBody at hclear ⊢
    rw [hb.kind hgo, hb.atEnd hgo, hb.log]
    split
    · exact lists_nil hb
    · rename_i hstop
      rw [if_neg hstop] at hclear
      have hfirst := faithful_statementOrSkip (reads_statement n) before hc hn
      have hdn := hfirst.depth.trans hn
      have hrest := faithful_blockBody (reads_statement n) turns
        (statementOrSkip statement before c).1 _ hfirst.ended hdn
      -- The log only grows, so it is as it was in between as well.
      have hclear' : J.Clear True c (some (statementOrSkip statement before c).1,
          (statementOrSkip statement before c).2) := by
        rcases hclear with hJ | ⟨hquiet, -⟩
        · exact .inl hJ
        · exact .inr ⟨Nat.le_antisymm (Nat.le_trans hrest.total_le (Nat.le_of_eq hquiet))
            hfirst.total_le, .inl trivial⟩
      have hone := lists_statementOrSkip hs before before' hc hn hb hclear'
      refine hone.trans (ih _ _ _ _ hfirst.ended hdn hone.beside ?_)
      rcases hclear with hJ | ⟨hquiet, hend⟩
      · exact .inl hJ
      · exact .inr ⟨Nat.le_antisymm (Nat.le_trans (Nat.le_of_eq hquiet) hfirst.total_le)
          hrest.total_le, hend⟩

/-- A block ends with a brace, so it may end at the junction. -/
theorem same_block (hs : J.SameStmt n statement) : J.SameBlock n (block statement) := by
  refine fun p => tight_expectSpan fun start => ?_
  have hturns : ∀ turns, J.Agrees False True n (List.map (Stmt.shift J.shift))
      (fun c => (some (blockBody statement turns [] c).1.reverse,
        (blockBody statement turns [] c).2))
      (fun c => (some (blockBody statement turns [] c).1.reverse,
        (blockBody statement turns [] c).2)) := by
    refine fun turns k => ⟨fun c hc hn _ => ?_, fun c c' hc hn _ hb hclear => ?_⟩
    · have hread := faithful_blockBody (reads_statement n) turns [] c hc hn
      refine ⟨hread.ended, hread.depth, hread.total_le, fun hquiet => ?_⟩
      obtain ⟨_, ks, -, -, hks⟩ := hread.read hquiet
      exact ⟨_, ks, rfl, trivial, hks⟩
    · have hlists := lists_blockBody hs turns [] [] c c' hc hn hb hclear
      obtain ⟨us, hus, hus'⟩ := hlists.read
      refine ⟨?_, hlists.beside.mono fun _ => trivial⟩
      show some (blockBody statement turns [] c').1.reverse =
        some ((blockBody statement turns [] c).1.reverse.map (Stmt.shift J.shift))
      rw [hus, hus', List.append_nil, List.append_nil, List.map_reverse]
  have hbody : J.Agrees False True n (List.map (Stmt.shift J.shift))
      (fun c => (some (blockBody statement c.turns [] c).1.reverse,
        (blockBody statement c.turns [] c).2))
      (fun c => (some (blockBody statement c.turns [] c).1.reverse,
        (blockBody statement c.turns [] c).2)) := by
    refine Agrees.turns hturns fun c hc turns hle => ?_
    have henough : blockBody statement turns [] c = blockBody statement c.turns [] c := by
      rw [blockBody_eq, blockBody_eq]
      exact passes_blockTurn.enough hc hle
    rw [henough]
  refine (hbody.bindTight fun us => ?_).agrees
  exact (tight_expect .rbrace).bind fun _ => agrees_previous.bind fun last =>
    agrees_pure (Block.shift_mk _ _ _)

end Lists

/-! ## Statements -/

section Statements

variable {block : Reading Block}

/-- An assignment is looked for behind an expression, before the junction. -/
theorem same_simple (he : J.SameExpr n expression) (p : Prop) :
    J.Agrees False p n (Stmt.shift J.shift) (simple expression) (simple expression) := by
  refine (he p).bind fun target => (agrees_at? .eq).bind fun assigned => ?_
  cases assigned with
  | false => exact agrees_pure rfl
  | true =>
    refine agrees_tokenSpan.bind fun eq => (he True).bind fun value => ?_
    rw [value.span_shift]
    cases target with
    | name s x => exact agrees_pure rfl
    | property s owner x => exact agrees_pure rfl
    | _ => exact agrees_complain _ _ _ _

/-- A definition takes its number before those of its body. -/
theorem agreesAt_definition (hb : J.SameBlock n block) :
    J.AgreesAt True p (.keyword .fn) n (Stmt.shift J.shift) (definition block) (definition block) := by
  refine agreesAt_tokenSpan nofun fun start => agrees_freshId.bind fun id => ?_
  refine tight_identifier.agrees.bind fun name => (tight_declaration hb).agrees.bind fun d => ?_
  exact agrees_previous.bind fun last => agrees_pure rfl

theorem tight_condition (he : J.SameExpr n expression) :
    J.Tight p n (Expr.shift J.shift) (condition expression) (condition expression) := by
  refine (tight_expect .lparen).bind fun _ => ((he True).bindTight fun test => ?_).agrees
  exact (tight_expect .rparen).bind fun _ => agrees_pure rfl

/-- Whether an `else` follows is seen at the junction: the second text does not begin with one. -/
theorem agreesAt_conditional (he : J.SameExpr n expression) (hs : J.SameStmt n statement) :
    J.AgreesAt True p (.keyword .if) n (Stmt.shift J.shift) (conditional expression statement)
      (conditional expression statement) := by
  refine agreesAt_tokenSpan nofun fun start => (tight_condition he).agrees.bind fun test => ?_
  refine (hs True).agrees.bind fun yes => agrees_eatElse.bind fun more => ?_
  have hend : ∀ no, J.Agrees True True n (Stmt.shift J.shift)
      (do pure (Stmt.cond (start.cover (← previous)) test yes no))
      (do pure (Stmt.cond (start.cover (← previous)) (test.shift J.shift) (yes.shift J.shift)
        (no.map (Stmt.shift J.shift)))) :=
    fun no => agrees_previous.bind fun last => agrees_pure (Stmt.shift_cond _ _ _ _ _)
  cases more with
  | true =>
    have hno : J.Agrees True True n (Option.map (Stmt.shift J.shift)) (some <$> statement)
        (some <$> statement) := (hs True).agrees.map fun _ => rfl
    exact hno.bind hend
  | false => exact (agrees_pure rfl).bind hend

/-- A loop ends where its body does. -/
theorem agreesAt_whileLoop (he : J.SameExpr n expression) (hs : J.SameStmt n statement) :
    J.AgreesAt True p (.keyword .while) n (Stmt.shift J.shift) (whileLoop expression statement)
      (whileLoop expression statement) := by
  refine agreesAt_tokenSpan nofun fun start => (tight_condition he).agrees.bind fun test => ?_
  exact (hs True).agrees.bind fun body => agrees_previous.bind fun last => agrees_pure rfl

theorem agreesAt_forLoop (he : J.SameExpr n expression) (hs : J.SameStmt n statement) :
    J.AgreesAt True p (.keyword .for) n (Stmt.shift J.shift) (forLoop expression statement)
      (forLoop expression statement) := by
  refine agreesAt_tokenSpan nofun fun start => ?_
  refine (tight_expect .lparen).agrees.bind fun _ => ?_
  refine ((same_simple he True).bindTight fun init => (tight_expect .semicolon).bind fun _ => ?_).agrees
  refine ((he True).bindTight fun test => (tight_expect .semicolon).bind fun _ => ?_).agrees
  refine ((same_simple he True).bindTight fun step => (tight_expect .rparen).bind fun _ => ?_).agrees
  exact (hs True).agrees.bind fun body => agrees_previous.bind fun last => agrees_pure rfl

/-- A return, a jump and a write end with a semicolon. -/
theorem agreesAt_returning (he : J.SameExpr n expression) :
    J.AgreesAt True p (.keyword .return) n (Stmt.shift J.shift) (returning expression)
      (returning expression) := by
  refine agreesAt_tokenSpan nofun fun start => ?_
  have hend : ∀ value, J.Tight True n (Stmt.shift J.shift)
      (do endStatement; pure (Stmt.return (start.cover (← previous)) value))
      (do endStatement; pure (Stmt.return (start.cover (← previous))
        (value.map (Expr.shift J.shift)))) :=
    fun value => tight_endStatement.bind fun _ => agrees_previous.bind fun last =>
      agrees_pure (Stmt.shift_return _ _ _)
  refine ((agrees_at? .semicolon).bindTight fun bare => ?_).agrees
  cases bare with
  | true => exact Agrees.bindTight (agrees_pure rfl) hend
  | false =>
    have hvalue : J.Agrees False True n (Option.map (Expr.shift J.shift)) (some <$> expression)
        (some <$> expression) := (he True).map fun _ => rfl
    exact hvalue.bindTight hend

theorem agreesAt_jump {make : Span → Stmt} (hne : k ≠ .eof)
    (hmake : ∀ s, (make s).shift J.shift = make s) :
    J.AgreesAt True p k n (Stmt.shift J.shift) (jump make) (jump make) :=
  agreesAt_tokenSpan hne fun _ => tight_endStatement.agrees.bind fun _ =>
    agrees_previous.bind fun _ => agrees_pure (hmake _)

theorem agreesAt_writing (he : J.SameExpr n expression) :
    J.AgreesAt True p (.keyword .write) n (Stmt.shift J.shift) (writing expression)
      (writing expression) := by
  refine agreesAt_tokenSpan nofun fun start => ?_
  refine ((he True).bindTight fun value => tight_endStatement.bind fun _ => ?_).agrees
  exact agrees_previous.bind fun last => agrees_pure rfl

/-- A statement that its first token does not tell. -/
theorem tight_other (he : J.SameExpr n expression) :
    J.Tight p n (Stmt.shift J.shift) (do let t ← simple expression; endStatement; pure t)
      (do let t ← simple expression; endStatement; pure t) := by
  refine (same_simple he p).bindTight fun t => ?_
  exact tight_endStatement.bind fun _ => agrees_pure rfl

/-- Where only one word is left, there is no such statement: the word is read, and then a semicolon
is missed. -/
theorem logged_of_last (he : J.SameExpr n expression) {c : Cursor} {e : Token} (hc : c.Ended)
    (hn : c.depth = n) (hlast : c.later = [e]) : c.log.total <
      ((do let t ← simple expression; endStatement; pure t : Reading Stmt) c).2.log.total := by
  have hread := (same_simple he True).honest c hc hn
  obtain ⟨ts, hts, hlies⟩ := lays_simple (lays_tree n).1 c hc hn nofun
  change c.log.total < (Reading.bind (simple expression) _ c).2.log.total
  unfold Reading.bind
  rcases hr : simple expression c with ⟨_ | t, d⟩
  · rw [hr] at hread
    exact hread.logged rfl
  · rw [hr] at hread hts hlies
    have hpos : 0 < ts.length := List.length_pos_of_ne_nil (hlies t rfl).1
    have hlength : c.later.length = ts.length + d.later.length := hts.length_later
    rw [hlast, List.length_singleton] at hlength
    have hnil : d.later = [] := List.eq_nil_of_length_eq_zero (by omega)
    have hend : d.kind = .eof := hread.ended.kind_of_last hnil
    have hrest : J.Tight True n id (do endStatement; pure t) (do endStatement; pure t) :=
      tight_endStatement.bind fun _ => agrees_pure rfl
    exact Nat.lt_of_le_of_lt hread.total_le
      (hrest.stuck d hread.ended (hread.depth.trans hn) hend)

/-- How a statement is read is told by its first word, and only behind `fn` by the next one as well. -/
theorem branches (he : J.SameExpr n expression) (hs : J.SameStmt n statement) :
    ∃ f : Kind × Kind → Reading Stmt,
      statementBody expression statement = (look (fun c => (c.kind, c.nextKind)) >>= f) ∧
      (∀ p k next, J.AgreesAt True p k n (Stmt.shift J.shift) (f (k, next)) (f (k, next))) ∧
      (∀ next, f (.eof, next) = do let t ← simple expression; endStatement; pure t) ∧
      (f (.keyword .fn, .eof) = do let t ← simple expression; endStatement; pure t) ∧
      ∀ k next next', k ≠ .keyword .fn → f (k, next) = f (k, next') := by
  refine ⟨_, rfl, fun p k next => ?_, fun _ => rfl, rfl, fun k next next' hk => ?_⟩
  · split
    · next heq =>
      cases heq
      have hblock : J.Agrees True p n (Stmt.shift J.shift) (Stmt.block <$> block statement)
          (Stmt.block <$> block statement) := (same_block hs p).agrees.map fun _ => rfl
      exact hblock _
    · next heq =>
      cases heq
      exact agreesAt_definition (same_block hs)
    · next heq =>
      cases heq
      exact agreesAt_conditional he hs
    · next heq =>
      cases heq
      exact agreesAt_whileLoop he hs
    · next heq =>
      cases heq
      exact agreesAt_forLoop he hs
    · next heq =>
      cases heq
      exact agreesAt_returning he
    · next heq =>
      cases heq
      exact agreesAt_jump nofun fun _ => rfl
    · next heq =>
      cases heq
      exact agreesAt_jump nofun fun _ => rfl
    · next heq =>
      cases heq
      exact agreesAt_writing he
    · exact (tight_other he).agrees k
  · cases k with
    | keyword w =>
      cases w with
      | fn => exact absurd rfl hk
      | _ => rfl
    | symbol s => cases s <;> rfl
    | _ => rfl

/-- Both see the same first word, and each kind of statement is one of those above. -/
theorem same_statementBody (he : J.SameExpr n expression) (hs : J.SameStmt n statement) :
    J.SameStmt n (statementBody expression statement) := by
  obtain ⟨f, hf, hbranch, heof, hfn, hnext⟩ := branches he hs
  have hat : ∀ c, statementBody expression statement c = f (c.kind, c.nextKind) c := by
    rw [hf]
    exact fun c => rfl
  have hstuck : Stuck n (statementBody expression statement) := by
    intro c hc hn hk
    rw [hat, hk, heof]
    exact (tight_other (p := True) he).stuck c hc hn hk
  refine fun p => ⟨fun k => ⟨fun c hc hn hk => ?_, fun c c' hc hn hk hb hclear => ?_⟩, hstuck⟩
  · rw [hat]
    exact (hbranch p c.kind c.nextKind).honest c hc hn rfl
  · have hgo := hclear.before_of_stuck hstuck hc hn
    rw [hat] at hclear
    have hsame : f (c.kind, c'.nextKind) = f (c.kind, c.nextKind) := by
      obtain ⟨-, ls, hls, hls'⟩ := hb.next hgo
      cases ls with
      | cons t ls =>
        unfold Cursor.nextKind
        rw [hls, hls']
        rfl
      | nil =>
        rcases J.parts with ⟨hrest, hrest'⟩ | ⟨⟨e, he', hrest⟩, -⟩
        · unfold Cursor.nextKind
          rw [hls, hls', hrest, hrest']
        · -- The current word is the last one of the first text.
          have hlast : c.later = [e] := hls.trans hrest
          have hnext' : c.nextKind = .eof := by
            unfold Cursor.nextKind
            rw [hlast]
            exact he'
          by_cases hkf : c.kind = .keyword .fn
          · rw [hkf, hnext', hfn] at hclear
            have hJ := hclear.seamless (logged_of_last he hc hn hlast)
            rw [hJ.1] at hrest
            cases hrest
          · exact hnext _ _ _ hkf
    rw [hat, hat, hb.kind hgo, hsame]
    exact (hbranch p c.kind c.nextKind).meets c c' hc hn rfl hb hclear

end Statements

/-- At every depth the readers agree on both sides. -/
theorem same_tree (J : Junction) (n : Nat) :
    J.SameExpr n expression ∧ J.SameStmt n statement ∧ J.SameExpr n prefixed := by
  -- The recursion is on the levels that are left, and each reader opens one before it goes on.
  have deeper : n < Cursor.maxDepth → J.SameExpr (n + 1) expression ∧
      J.SameStmt (n + 1) statement ∧ J.SameExpr (n + 1) prefixed :=
    fun _ => same_tree J (n + 1)
  have hexpr : J.SameExpr n expression := by
    rw [expression_eq]
    exact fun p => Agrees.nested fun hn => same_disjunction (deeper hn).2.2 p
  have hstmt : J.SameStmt n statement := by
    rw [statement_eq]
    exact fun p => Tight.nested fun hn => same_statementBody (deeper hn).1 (deeper hn).2.1 p
  refine ⟨hexpr, hstmt, ?_⟩
  rw [prefixed_eq]
  exact same_operand (fun hn => (deeper hn).2.2) hexpr (same_block hstmt)
termination_by Cursor.maxDepth - n

/-- So statements agree at every depth. -/
theorem same_statement (J : Junction) (n : Nat) : J.SameStmt n statement := (same_tree J n).2.1

/-! ## Whole texts -/

section Texts

variable {s t r s' t' : List Stmt × Cursor}

/-- A turn of reading a text goes on beside, unless it complains at a junction. -/
theorem lists_programTurn (hs : s.2.Ended) (hb : J.Beside p s.2 s'.2)
    (hturn : programTurn statement s = .inl t)
    (hclear : J.Seamless ∨ t.2.log.total = s.2.log.total) :
    ∃ t', programTurn statement s' = .inl t' ∧ J.Lists p s.1 s'.1 t t' := by
  obtain ⟨before, c⟩ := s
  obtain ⟨before', c'⟩ := s'
  unfold programTurn at hturn ⊢
  dsimp only at hturn hb hclear ⊢
  split at hturn
  · cases hturn
  · rename_i hgo
    have hne : c.kind ≠ .eof := fun hk => hgo (by rw [Cursor.atEnd, hk]; rfl)
    rw [hb.atEnd (.inr hne), hb.log, if_neg hgo, hb.kind (.inr hne)]
    split at hturn
    · rename_i hbrace
      cases hturn
      rw [if_pos hbrace]
      have hJ : J.Seamless := by
        refine hclear.resolve_right (Nat.ne_of_gt ?_)
        exact (advance_unmatched hs hbrace _).2
      refine ⟨_, rfl, lists_nil ?_⟩
      exact (hb.complainHere (hb.current (.inl hJ)) _ _).advance (.inl hJ)
    · rename_i hbrace
      cases hturn
      rw [if_neg hbrace]
      refine ⟨_, rfl, lists_statementOrSkip (same_statement J c.depth) before before' hs rfl hb ?_⟩
      exact hclear.imp id fun hquiet => ⟨hquiet, .inl trivial⟩

/-- The log only grows. -/
theorem total_le_of_completes (h : Completes (programTurn statement) s r) (hs : s.2.Ended) :
    s.2.log.total ≤ r.2.log.total := by
  obtain ⟨before, c⟩ := s
  rw [h.unique (bounds_suffice.texts before hs)]
  exact (faithful_programBody c.turns before c hs).1.total_le

/-- One turn of the parser stays within its text. -/
theorem ended_programTurn (hs : s.2.Ended) (hturn : programTurn statement s = .inl t) :
    t.2.Ended := by
  obtain ⟨ts, -, hts⟩ := passes_programTurn s t hs hturn
  exact hts.ended hs

/-- What is read without a complaint is read in front of another text as well, and reading goes on
there. -/
theorem reads_first (h : Completes (programTurn statement) s r) :
    ∀ s', s.2.Ended → J.Beside p s.2 s'.2 → s.2.log.total = 0 → r.2.log.total = 0 →
      r.2.kind = .eof ∧ ∃ t', J.Lists p s.1 s'.1 r t' ∧
        ∀ r', Completes (programTurn statement) t' r' → Completes (programTurn statement) s' r' := by
  induction h with
  | @last s r hlast =>
    intro s' _ hb hempty _
    have hstop := stop_of_completes (.last hlast)
    unfold programTurn at hlast
    obtain ⟨before, c⟩ := s
    dsimp only at hlast hempty hb
    split at hlast
    · cases hlast
      refine ⟨hstop.resolve_right ?_, s', lists_nil hb, fun _ h => h⟩
      rw [hempty]
      decide
    · split at hlast <;> cases hlast
  | @next s t r hturn hrest ih =>
    intro s' hs hb hempty hquiet
    have ht := ended_programTurn hs hturn
    have hzero : t.2.log.total = 0 :=
      Nat.le_zero.1 (Nat.le_trans (total_le_of_completes hrest ht) (Nat.le_of_eq hquiet))
    obtain ⟨t', hturn', hone⟩ := lists_programTurn hs hb hturn (.inr (hzero.trans hempty.symm))
    obtain ⟨hend, q', hmore, hgo⟩ := ih t' ht hone.beside hzero hquiet
    exact ⟨hend, q', hone.trans hmore, fun r' hr' => .next hturn' (hgo r' hr')⟩

/-- Two texts that go on in the same way are read in the same way. -/
theorem reads_second (hJ : J.Seamless) (h : Completes (programTurn statement) s r) :
    ∀ s', s.2.Ended → J.Beside p s.2 s'.2 →
      ∃ r', Completes (programTurn statement) s' r' ∧ J.Lists p s.1 s'.1 r r' := by
  induction h with
  | @last s r hlast =>
    intro s' _ hb
    obtain ⟨before, c⟩ := s
    obtain ⟨before', c'⟩ := s'
    unfold programTurn at hlast
    dsimp only at hlast hb
    split at hlast
    · rename_i hstop
      cases hlast
      refine ⟨(before', c'), .last ?_, lists_nil hb⟩
      unfold programTurn
      dsimp only
      rw [hb.atEnd (.inl hJ), hb.log, if_pos hstop]
    · split at hlast <;> cases hlast
  | @next s t r hturn hrest ih =>
    intro s' hs hb
    obtain ⟨t', hturn', hone⟩ := lists_programTurn hs hb hturn (.inl hJ)
    obtain ⟨r', hr', hmore⟩ := ih t' (ended_programTurn hs hturn) hone.beside
    exact ⟨r', .next hturn' hr', hone.trans hmore⟩

end Texts

end Junction

section Halves

open Reading

variable {doc : Document} {as bs rest' : List Token} {endA endB t : Token}

/-- Without a complaint a text is read in front of another one as it is by itself, and there reading
goes on as at the beginning of a text, only that some numbers have been handed out. -/
theorem reads_in_front (hendA : endA.kind = .eof) (has : ∀ t ∈ as, t.kind ≠ .eof)
    (ht : t.kind ≠ .keyword .else)
    (hquiet : (Parse.ofTokens doc (as ++ [endA])).log.total = 0) :
    ∃ d : Cursor, d.doc = doc ∧ d.tokens = t :: rest' ∧ d.log = Log.empty ∧ d.depth = 0 ∧
      d.nextId = (Cursor.atStop doc (as ++ [endA])).nextId ∧
      ∀ r, Completes (programTurn statement)
          ((Parse.ofTokens doc (as ++ [endA])).program.stmts.reverse, d) r →
        Completes (programTurn statement) ([], Cursor.ofTokens doc (as ++ t :: rest')) r := by
  have hend := Cursor.oneEnd_append has hendA
  let c := Cursor.ofTokens doc (as ++ [endA])
  let J : Junction :=
    { rest := [endA], rest' := t :: rest', shift := 0,
      parts := .inr ⟨⟨endA, hendA, rfl⟩, t, rest', rfl, ht⟩ }
  have hJ : ¬ J.Seamless := fun hJ => List.cons_ne_nil _ _ hJ.1
  have hb : J.Beside True c (Cursor.ofTokens doc (as ++ t :: rest')) := by
    cases as with
    | nil => exact ⟨rfl, ⟨[], rfl, rfl⟩, fun _ => rfl, rfl, rfl, rfl⟩
    | cons a as => exact ⟨rfl, ⟨a :: as, rfl, rfl⟩, fun _ => rfl, rfl, rfl, rfl⟩
  have hc : c.Ended := hend.ended doc
  have hempty : c.log.total = 0 := by
    rw [Cursor.log_ofTokens]
    rfl
  obtain ⟨hstop, q, hlists, hgo⟩ :=
    Junction.reads_first (bounds_suffice.texts [] hc) ([], _) hc hb hempty hquiet
  obtain ⟨ts, hpassed, -⟩ := hend.passed_atStop doc
  have hd : J.Beside True (Cursor.atStop doc (as ++ [endA])) q.2 := hlists.beside
  have hlog : (Cursor.atStop doc (as ++ [endA])).log = Log.empty :=
    (read_of_written (written_of_quiet hend.choose_spec.1 hend.choose_spec.2 hquiet)
      hend.choose_spec.1).1
  have hread : (Parse.ofTokens doc (as ++ [endA])).program.stmts.reverse = q.1 := by
    obtain ⟨us, hus, hus'⟩ := hlists.read
    have hsame : Stmt.shift J.shift = id := funext Stmt.shift_zero
    rw [Parse.stmts_ofTokens, List.reverse_reverse, hus', hsame, List.map_id]
    exact hus
  refine ⟨q.2, ?_, hd.at_junction (hpassed.ended hc) hstop hJ, hd.log.trans hlog, ?_, hd.nextId,
    fun r hr => ?_⟩
  · rw [hd.doc, hpassed.doc]
    cases as <;> rfl
  · rw [hd.depth, hpassed.depth, Cursor.depth_ofTokens]
  · rw [hread] at hr
    exact hgo r hr

/-- Where some numbers have been handed out, a text is read as it is by itself, with its numbers
raised by as many. -/
theorem reads_behind {d : Cursor} (hendB : endB.kind = .eof) (hbs : ∀ t ∈ bs, t.kind ≠ .eof)
    (hdoc : d.doc = doc) (htokens : d.tokens = bs ++ [endB]) (hlog : d.log = Log.empty)
    (hdepth : d.depth = 0) (before : List Stmt) :
    ∃ r, Completes (programTurn statement) (before, d) r ∧
      r.1.reverse = before.reverse ++
        (Parse.ofTokens doc (bs ++ [endB])).program.stmts.map (Stmt.shift d.nextId) ∧
      r.2.log = (Parse.ofTokens doc (bs ++ [endB])).log := by
  have hend := Cursor.oneEnd_append hbs hendB
  let c := Cursor.ofTokens doc (bs ++ [endB])
  let J : Junction := { rest := [], rest' := [], shift := d.nextId, parts := .inl ⟨rfl, rfl⟩ }
  have hb : J.Beside False c d := by
    refine ⟨?_, ⟨bs ++ [endB], ?_, ?_⟩, fun h => h.elim, ?_, ?_, ?_⟩
    · rw [hdoc]
      cases bs <;> rfl
    · rw [Cursor.tokens_ofTokens doc hend.ne_nil]
      exact (List.append_nil _).symm
    · rw [htokens]
      exact (List.append_nil _).symm
    · rw [hlog, Cursor.log_ofTokens]
    · have hzero : c.nextId = 0 := by cases bs <;> rfl
      rw [hzero]
      exact (Nat.zero_add _).symm
    · rw [hdepth, Cursor.depth_ofTokens]
  have hc : c.Ended := hend.ended doc
  obtain ⟨r, hr, hlists⟩ :=
    Junction.reads_second ⟨rfl, rfl⟩ (bounds_suffice.texts [] hc) (before, d) hc hb
  obtain ⟨us, hus, hus'⟩ := hlists.read
  refine ⟨r, hr, ?_, hlists.beside.log⟩
  rw [hus', List.reverse_append, Parse.stmts_ofTokens, hus, List.append_nil, List.map_reverse]

end Halves

/-- **One text behind another.**  Where a text is read without a complaint and another text, which
does not begin with `else`, stands behind it, the statements of the first are followed by those of the
other as they are read by themselves, with all numbers raised by as many as the first has; and the
complaints are those about the other text. -/
theorem read_append (doc : Document) (as bs : List Token) (endA endB : Token)
    (hendA : endA.kind = .eof) (hendB : endB.kind = .eof) (has : ∀ t ∈ as, t.kind ≠ .eof)
    (hbs : ∀ t ∈ bs, t.kind ≠ .eof) (helse : ∀ t ∈ bs.head?, t.kind ≠ .keyword .else)
    (hquiet : (Parse.ofTokens doc (as ++ [endA])).log.hasErrors = false) :
    (Parse.ofTokens doc (as ++ bs ++ [endB])).program.stmts =
        (Parse.ofTokens doc (as ++ [endA])).program.stmts ++
          (Parse.ofTokens doc (bs ++ [endB])).program.stmts.map
            (Stmt.shift (Parse.ofTokens doc (as ++ [endA])).program.numbers.length) ∧
      (Parse.ofTokens doc (as ++ bs ++ [endB])).log =
        (Parse.ofTokens doc (bs ++ [endB])).log := by
  have hzero : (Parse.ofTokens doc (as ++ [endA])).log.total = 0 :=
    Nat.eq_zero_of_not_pos (of_decide_eq_false hquiet)
  obtain ⟨t, rest', hrest, ht⟩ : ∃ t rest', bs ++ [endB] = t :: rest' ∧ t.kind ≠ .keyword .else := by
    cases bs with
    | nil => exact ⟨endB, [], rfl, hendB ▸ nofun⟩
    | cons t bs => exact ⟨t, bs ++ [endB], rfl, helse t rfl⟩
  obtain ⟨d, hdoc, htokens, hlog, hdepth, hnext, hgo⟩ :=
    reads_in_front  hendA has ht hzero
  obtain ⟨r, hr, hstmts, hrlog⟩ := reads_behind hendB hbs hdoc (htokens.trans hrest.symm) hlog hdepth
    (Parse.ofTokens doc (as ++ [endA])).program.stmts.reverse
  -- As many numbers were handed out in the first text as its nodes have.
  have hcount : d.nextId = (Parse.ofTokens doc (as ++ [endA])).program.numbers.length := by
    rw [hnext, (handed_atStop doc (as ++ [endA])).2 hzero, List.length_range]
  have hall : Cursor.OneEnd (as ++ bs ++ [endB]) :=
    Cursor.oneEnd_append (fun t ht => (List.mem_append.1 ht).elim (has t) (hbs t)) hendB
  have hjoin : as ++ bs ++ [endB] = as ++ t :: rest' := by rw [List.append_assoc, hrest]
  have hboth := (Reading.bounds_suffice.texts [] (hall.ended doc)).unique (hjoin ▸ hgo r hr)
  refine ⟨?_, ?_⟩
  · rw [Parse.stmts_ofTokens, hboth, hstmts, List.reverse_reverse, hcount]
  · rw [Parse.log_ofTokens, hboth, hrlog]

/-- A document without a text. -/
def noText : Document := { name := "", text := "" }

/-- The end of that document. -/
def noMore : Token := ⟨.eof, Span.point Place.start⟩

/-- The words of `if (a) write 1;`, which could go on with an `else`. -/
def openIf : List Token :=
  [.keyword .if, .symbol .lparen, .identifier "a", .symbol .rparen, .keyword .write, .int "1",
    .symbol .semicolon].map fun k => ⟨k, Span.point Place.start⟩

/-- The words of `} write 2; f(`: a brace that closes nothing and a call that is left open. -/
def openCall : List Token :=
  [.symbol .rbrace, .keyword .write, .int "2", .symbol .semicolon, .identifier "f",
    .symbol .lparen].map fun k => ⟨k, Span.point Place.start⟩

theorem openIf_append_openCall :
    (Parse.ofTokens noText (openIf ++ openCall ++ [noMore])).program.stmts =
        (Parse.ofTokens noText (openIf ++ [noMore])).program.stmts ++
          (Parse.ofTokens noText (openCall ++ [noMore])).program.stmts.map (Stmt.shift 1) ∧
      (Parse.ofTokens noText (openIf ++ openCall ++ [noMore])).log =
        (Parse.ofTokens noText (openCall ++ [noMore])).log ∧
      (Parse.ofTokens noText (openIf ++ openCall ++ [noMore])).program.numbers = [0, 1] ∧
      (Parse.ofTokens noText (openIf ++ openCall ++ [noMore])).log.total = 2 := by
  have hquiet : (Parse.ofTokens noText (openIf ++ [noMore])).log.hasErrors = false := by
    decide +kernel
  have hone : (Parse.ofTokens noText (openIf ++ [noMore])).program.numbers.length = 1 := by
    decide +kernel
  obtain ⟨hstmts, hlog⟩ := read_append noText openIf openCall noMore noMore rfl rfl (by decide)
    (by decide) (by decide) hquiet
  rw [hone] at hstmts
  exact ⟨hstmts, hlog, by decide +kernel, by decide +kernel⟩

end SmallScript
