/-
  What is written can be read.

  The words of a proper program are read without a complaint, and what is read is that program
  again, up to its spans and node numbers, as long as no more levels of nesting are open at once
  than the reader allows (`read_words`).  So the words of a tree mean that tree: operators bind as
  their levels say and join to the left, and an `else` belongs to the nearest `if`.

  The proof is an induction on the written form (`Written.complete`), with one lemma for each rule of
  the grammar.
-/
import SmallScript.Proofs.Reading.Operands

namespace SmallScript

namespace Reading

/-! ## Statements -/

/-- An `else` may stand behind a statement only if the statement cannot take it. -/
def NoElse (t : Stmt) (k : Kind) : Prop := t.endsOpen = true → k ≠ .keyword .else

abbrev TakesStmt (h : Nat) (t : Stmt) (ks : List Kind) : Prop :=
  Takes statement h (fun t' => t'.plain = t.plain) (NoElse t) ks

abbrev TakesBody (h : Nat) (t : Stmt) (ks : List Kind) : Prop :=
  Takes (statementBody expression statement) h (fun t' => t'.plain = t.plain) (NoElse t) ks

/-- The words `ks` are read as `t`, an expression or an assignment; an equals sign behind an
expression would make it an assignment. -/
abbrev TakesSimple (h : Nat) (t : Stmt) (ks : List Kind) : Prop :=
  Takes (simple expression) h (fun t' => t'.plain = t.plain)
    (fun k => Stops 0 k ∧ k ≠ .symbol .eq) ks

section Statements

variable {h : Nat} {e : Expr} {t : Stmt} {ks js is ls : List Kind} {s : Span}

/-- An expression in front of a semicolon, where no equals sign follows. -/
theorem takes_evaluation (he : TakesExpr h e ks) : TakesSimple h (.expr e) ks := by
  refine he.bind_nil (fun _ hk => hk.1) fun e' he' => takes_notAt? (heads_nil fun _ hk => hk.2) ?_
  refine takes_pure ?_
  show Stmt.expr e'.plain = Stmt.expr e.plain
  rw [he']

/-- An assignment is read as an expression up to the equals sign; `hmake` says what its target makes
of it. -/
theorem takes_assignment {target value : Expr} (htarget : TakesExpr h target ks)
    (hvalue : TakesExpr h value js)
    (hmake : ∀ target' : Expr, target'.plain = target.plain →
      (∃ s x, target' = .name s x ∧ ∀ span value', value'.plain = value.plain →
        (Stmt.assign span ⟨x, s⟩ value').plain = t.plain) ∨
      (∃ s o x, target' = .property s o x ∧ ∀ span value', value'.plain = value.plain →
        (Stmt.assignProperty span o x value').plain = t.plain)) :
    TakesSimple h t (ks ++ .symbol .eq :: js) := by
  refine htarget.bind (heads_cons nofun) fun target' htarget' => takes_at? ?_
  refine takes_tokenSpan fun eq => ?_
  refine hvalue.bind_nil (fun _ hk => hk.1) fun value' hvalue' => ?_
  rcases hmake target' htarget' with ⟨s, x, rfl, ht⟩ | ⟨s, o, x, rfl, ht⟩
  · exact takes_pure (ht _ value' hvalue')
  · exact takes_pure (ht _ value' hvalue')

/-- A name in front of an equals sign is assigned to. -/
theorem takes_assign {x : Ident} {value : Expr} (hname : TakesExpr h (.name x.span x.name) ks)
    (hvalue : TakesExpr h value js) :
    TakesSimple h (.assign s x value) (ks ++ .symbol .eq :: js) := by
  refine takes_assignment hname hvalue fun target' htarget' => .inl ?_
  cases target' with
  | name s' y =>
    refine ⟨s', y, rfl, fun span value' hvalue' => ?_⟩
    have hy : y = x.name := (Expr.name.inj htarget').2
    show Stmt.assign default ⟨y, default⟩ value'.plain = Stmt.assign default ⟨x.name, default⟩ _
    rw [hy, hvalue']
  | _ => cases htarget'

/-- So is a property. -/
theorem takes_assignProperty {s' : Span} {o : Expr} {x : Ident} {value : Expr}
    (hproperty : TakesExpr h (.property s' o x) ks) (hvalue : TakesExpr h value js) :
    TakesSimple h (.assignProperty s o x value) (ks ++ .symbol .eq :: js) := by
  refine takes_assignment hproperty hvalue fun target' htarget' => .inr ?_
  cases target' with
  | property s' o' y =>
    refine ⟨s', o', y, rfl, fun span value' hvalue' => ?_⟩
    obtain ⟨-, ho, hy⟩ := Expr.property.inj htarget'
    show Stmt.assignProperty default o'.plain ⟨y.name, default⟩ value'.plain =
      Stmt.assignProperty default o.plain ⟨x.name, default⟩ value.plain
    rw [ho, hy, hvalue']
  | _ => cases htarget'

/-- A statement that begins as an expression is read as one, unless it is a definition. -/
theorem statementBody_simple {c : Cursor} (hk : c.kind.startsExpr = true)
    (hfn : c.kind = .keyword .fn → c.nextKind = .symbol .lparen) :
    statementBody expression statement c =
      (simple expression >>= fun t => endStatement >>= fun _ => pure t) c := by
  rw [statementBody, look_bind]
  -- Of the two words that the reader looks at, only these facts are used.
  generalize c.kind = k at hk hfn
  generalize c.nextKind = next at hfn
  generalize hp : (k, next) = p
  split <;> cases hp <;> first | cases hfn rfl | cases hk | rfl

/-- What begins as an expression does is read as one, unless it is a definition. -/
theorem takes_simpleStatement {k : Kind} (hk : k.startsExpr = true)
    (hfn : k = .keyword .fn → ks.head? = some (.symbol .lparen))
    (ht : TakesSimple h t (k :: ks)) : TakesBody h t (k :: ks ++ [.symbol .semicolon]) := by
  have hend : Takes (simple expression >>= fun t => endStatement >>= fun _ => pure t) h
      (fun t' => t'.plain = t.plain) (NoElse t) (k :: ks ++ [.symbol .semicolon]) :=
    ht.bind (heads_cons ⟨nofun, nofun⟩) fun t' ht' => takes_endStatement (takes_pure ht')
  intro c rest hc hrest hready
  rw [statementBody_simple (Cursor.kind_of_kinds hc ▸ hk) fun hkind => ?_]
  · exact hend c rest hc hrest hready
  · rw [Cursor.kind_of_kinds hc] at hkind
    obtain ⟨js, rfl⟩ := List.head?_eq_some_iff.mp (hfn hkind)
    exact Cursor.nextKind_of_kinds hc

theorem takes_compound {b : Block} (hb : TakesBlock h b (.symbol .lbrace :: ks)) :
    TakesBody h (.block b) (.symbol .lbrace :: ks) := by
  refine takes_byKinds fun next => (hb.map (R := fun t => t.plain = (Stmt.block b).plain) ?_).mono
    (fun _ => id) fun _ _ => trivial
  intro b' hb'
  show Stmt.block b'.plain = Stmt.block b.plain
  rw [hb']

/-- Behind `fn`, a name makes a definition. -/
theorem takes_definition {id : NodeId} {x : Ident} {d : FnDecl} (hd : TakesDecl h d ks) :
    TakesBody h (.define s id x d) (.keyword .fn :: .identifier x.name :: ks) := by
  refine takes_byBothKinds (takes_tokenSpan fun start => takes_freshId fun id' => ?_)
  refine takes_identifier fun y hy => hd.bind_nil (fun _ _ => trivial) fun d' hd' => ?_
  refine takes_look fun last => takes_pure ?_
  show Stmt.define default 0 ⟨y.name, default⟩ d'.plain = Stmt.define default 0 ⟨x.name, default⟩ _
  rw [hy, hd']

/-- A test stands in parentheses. -/
theorem takes_condition {T : Kind → Prop} (he : TakesExpr h e ks) :
    Takes (condition expression) h (fun e' => e'.plain = e.plain) T
      (.symbol .lparen :: ks ++ [.symbol .rparen]) :=
  takes_expect (he.bind (heads_cons nofun) fun _ he' => takes_expect (takes_pure he'))

/-- A conditional without an `else` must not be followed by one. -/
theorem takes_cond {yes : Stmt} (he : TakesExpr h e ks) (hyes : TakesStmt h yes js) :
    TakesBody h (.cond s e yes none)
      (.keyword .if :: (.symbol .lparen :: ks ++ [.symbol .rparen] ++ js)) := by
  refine takes_byKinds fun next => takes_tokenSpan fun start => ?_
  refine (takes_condition he).bind heads_any fun e' he' => ?_
  refine hyes.bind_nil (fun k hk _ => hk rfl) fun yes' hyes' => ?_
  refine takes_notKeyword (heads_nil fun k hk => hk rfl) (takes_pureBind ?_)
  refine takes_look fun last => takes_pure ?_
  show Stmt.cond default e'.plain yes'.plain none = Stmt.cond default e.plain yes.plain none
  rw [he', hyes']

/-- Its first branch must be closed, or the `else` would go there. -/
theorem takes_condElse {yes no : Stmt} (hclosed : yes.endsOpen = false) (he : TakesExpr h e ks)
    (hyes : TakesStmt h yes js) (hno : TakesStmt h no is) :
    TakesBody h (.cond s e yes (some no)) (.keyword .if :: (.symbol .lparen :: ks ++
      [.symbol .rparen] ++ (js ++ .keyword .else :: is))) := by
  refine takes_byKinds fun next => takes_tokenSpan fun start => ?_
  refine (takes_condition he).bind heads_any fun e' he' => ?_
  -- The first branch is closed, so the `else` behind it is not taken by an `if` in it.
  have hmay : NoElse yes (.keyword .else) := by
    intro hopen
    rw [hclosed] at hopen
    cases hopen
  refine hyes.bind (heads_cons hmay) fun yes' hyes' => takes_eatKeyword ?_
  refine (hno.map (R := fun no' => no'.map Stmt.plain = some no.plain) ?_).bind_nil
    (fun _ hk => hk) fun no' hno' => takes_look fun last => takes_pure ?_
  · intro no' hno'
    rw [Option.map_some, hno']
  · cases no' with
    | none => cases hno'
    | some no' =>
      rw [Option.map_some, Option.some.injEq] at hno'
      show Stmt.cond default e'.plain yes'.plain (some no'.plain) = Stmt.cond default _ _ _
      rw [he', hyes', hno']

theorem takes_whileLoop {body : Stmt} (he : TakesExpr h e ks) (hbody : TakesStmt h body js) :
    TakesBody h (.while s e body)
      (.keyword .while :: (.symbol .lparen :: ks ++ [.symbol .rparen] ++ js)) := by
  refine takes_byKinds fun next => takes_tokenSpan fun start => ?_
  refine (takes_condition he).bind heads_any fun e' he' => ?_
  refine hbody.bind_nil (fun _ hk => hk) fun body' hbody' => takes_look fun last => takes_pure ?_
  show Stmt.while default e'.plain body'.plain = Stmt.while default e.plain body.plain
  rw [he', hbody']

/-- The parts of a loop are parted by semicolons. -/
theorem takes_forLoop {init step body : Stmt} (hinit : TakesSimple h init ks)
    (he : TakesExpr h e js) (hstep : TakesSimple h step is) (hbody : TakesStmt h body ls) :
    TakesBody h (.for s init e step body) (.keyword .for :: .symbol .lparen ::
      (ks ++ .symbol .semicolon :: (js ++ .symbol .semicolon ::
        (is ++ .symbol .rparen :: ls)))) := by
  refine takes_byKinds fun next => takes_tokenSpan fun start => takes_expect ?_
  refine hinit.bind (heads_cons ⟨nofun, nofun⟩) fun init' hinit' => takes_expect ?_
  refine he.bind (heads_cons nofun) fun e' he' => takes_expect ?_
  refine hstep.bind (heads_cons ⟨nofun, nofun⟩) fun step' hstep' => takes_expect ?_
  refine hbody.bind_nil (fun _ hk => hk) fun body' hbody' => takes_look fun last => takes_pure ?_
  show Stmt.for default init'.plain e'.plain step'.plain body'.plain = Stmt.for default _ _ _ _
  rw [hinit', he', hstep', hbody']

/-- A jump is a keyword and a semicolon. -/
theorem takes_jump {make : Span → Stmt} {k : Kind} (hmake : ∀ s, (make s).plain = t.plain) :
    Takes (jump make) h (fun t' => t'.plain = t.plain) (NoElse t) [k, .symbol .semicolon] :=
  takes_tokenSpan fun _ => takes_endStatement (takes_look fun _ => takes_pure (hmake _))

theorem takes_returnNull :
    TakesBody h (.return s none) [.keyword .return, .symbol .semicolon] := by
  refine takes_byKinds fun next => takes_tokenSpan fun start => takes_at? (takes_pureBind ?_)
  exact takes_endStatement (takes_look fun last => takes_pure rfl)

/-- What stands behind a return and is no semicolon is its value. -/
theorem takes_return {k : Kind} (hk : k.startsExpr = true) (he : TakesExpr h e (k :: ks)) :
    TakesBody h (.return s (some e))
      (.keyword .return :: (k :: ks ++ [.symbol .semicolon])) := by
  refine takes_byKinds fun next => takes_tokenSpan fun start => ?_
  refine takes_notAt? (heads_cons fun hsemi => ?_) ?_
  · rw [hsemi] at hk
    cases hk
  · refine (he.map (R := fun v => v.map Expr.plain = some e.plain) ?_).bind (heads_cons nofun)
      fun v hv => takes_endStatement (takes_look fun last => takes_pure ?_)
    · intro e' he'
      rw [Option.map_some, he']
    · cases v with
      | none => cases hv
      | some e' =>
        rw [Option.map_some, Option.some.injEq] at hv
        show Stmt.return default (some e'.plain) = Stmt.return default (some e.plain)
        rw [hv]

theorem takes_writing (he : TakesExpr h e ks) :
    TakesBody h (.write s e) (.keyword .write :: (ks ++ [.symbol .semicolon])) := by
  refine takes_byKinds fun next => takes_tokenSpan fun start => ?_
  refine he.bind (heads_cons nofun) fun e' he' => takes_endStatement ?_
  refine takes_look fun last => takes_pure ?_
  show Stmt.write default e'.plain = Stmt.write default e.plain
  rw [he']

end Statements

/-! ## Lists of statements -/

/-- The words `ks` are those of the statements `ts`, one behind the other. -/
inductive Row (h : Nat) : List Stmt → List Kind → Prop where
  | nil : Row h [] []
  | cons {t ts k ks js} : k.startsStmt = true → TakesStmt h t (k :: ks) → Row h ts js →
      Row h (t :: ts) (k :: ks ++ js)

/-- What begins a statement neither ends a block nor goes on with a conditional. -/
theorem startsStmt_ne {k : Kind} (hk : k.startsStmt = true) :
    k ≠ .keyword .else ∧ k ≠ .symbol .rbrace ∧ k ≠ .eof := by
  refine ⟨?_, ?_, ?_⟩ <;> rintro rfl <;> cases hk

/-- A statement that is read is put in front of those before it. -/
theorem statementOrSkip_of_some {before : List Stmt} {c d : Cursor} {t : Stmt}
    (h : statement c = (some t, d)) :
    statementOrSkip statement before c = (t :: before, d) := by
  unfold statementOrSkip
  rw [h]

section Row

variable {h : Nat} {ts : List Stmt} {ks : List Kind}

/-- Behind a statement there stands no `else` that is not its own. -/
theorem Row.noElse {k : Kind} {rest : List Kind} (hk : k ≠ .keyword .else) (hts : Row h ts ks) :
    Follows (· ≠ .keyword .else) (ks ++ k :: rest) := by
  cases hts with
  | nil => exact follows_cons hk
  | cons hstarts _ _ => exact follows_cons (startsStmt_ne hstarts).1

/-- Statements are read one by one by a reader that stops before the word `k` and else reads a
statement in each of its turns. -/
theorem read_row {read : Nat → List Stmt → Cursor → List Stmt × Cursor} {k : Kind}
    (hk : k ≠ .keyword .else)
    (hstop : ∀ turns before c, c.kind = k → read (turns + 1) before c = (before, c))
    (hstep : ∀ turns before c, c.kind.startsStmt = true → c.log.isFull = false →
      read (turns + 1) before c = read turns (statementOrSkip statement before c).1
        (statementOrSkip statement before c).2)
    (hts : Row h ts ks) :
    ∀ (turns : Nat) (before : List Stmt) (c : Cursor) (rest : List Kind),
      c.kinds = ks ++ k :: rest → c.kinds.length ≤ turns → c.Ready h →
        ∃ us d, read turns before c = (us, d) ∧
          us.map Stmt.plain = (ts.reverse ++ before).map Stmt.plain ∧ c.Reached (k :: rest) d := by
  induction hts with
  | nil =>
    intro turns before c rest hc hturns _
    obtain ⟨turns, rfl⟩ := Cursor.exists_turn hturns
    exact ⟨before, c, hstop turns before c (Cursor.kind_of_kinds hc), rfl, .refl hc⟩
  | @cons t ts j ks js hj ht hts ih =>
    intro turns before c rest hc hturns hready
    obtain ⟨turns, rfl⟩ := Cursor.exists_turn hturns
    rw [hc] at hturns
    rw [List.append_assoc] at hc
    -- Behind the statement stands another one or the closing word, and neither is an `else`.
    have hbehind : Follows (NoElse t) (js ++ k :: rest) := (hts.noElse hk).mono fun _ hi _ => hi
    obtain ⟨t', d, ht', htplain, hd⟩ := ht c _ hc hbehind hready
    have hstarts : c.kind.startsStmt = true := by
      rw [Cursor.kind_of_kinds hc]
      exact hj
    obtain ⟨us, e, hus, husplain, he⟩ := ih turns (t' :: before) d rest hd.kinds
      (by
        rw [hd.kinds]
        simp only [List.length_append, List.length_cons] at hturns ⊢
        omega)
      (hd.ready hready)
    refine ⟨us, e, ?_, ?_, hd.trans he⟩
    · rw [hstep turns before c hstarts hready.2, statementOrSkip_of_some ht']
      exact hus
    · rw [husplain, List.reverse_cons, List.append_assoc, List.map_append, List.map_append,
        List.map_cons, htplain]
      rfl

/-- In a block, one turn reads one statement. -/
theorem blockBody_step (turns : Nat) (before : List Stmt) (c : Cursor)
    (hstarts : c.kind.startsStmt = true) (hroom : c.log.isFull = false) :
    blockBody statement (turns + 1) before c =
      blockBody statement turns (statementOrSkip statement before c).1
        (statementOrSkip statement before c).2 := by
  obtain ⟨-, hbrace, hend⟩ := startsStmt_ne hstarts
  have hgo : (decide (c.kind = .symbol .rbrace) || c.atEnd || c.log.isFull) = false := by
    rw [decide_eq_false hbrace, hroom, Cursor.atEnd, beq_eq_false_iff_ne.mpr hend]
    rfl
  rw [blockBody, hgo]
  rfl

/-- In a document, one turn does the same. -/
theorem programBody_step (turns : Nat) (before : List Stmt) (c : Cursor)
    (hstarts : c.kind.startsStmt = true) (hroom : c.log.isFull = false) :
    programBody statement (turns + 1) before c =
      programBody statement turns (statementOrSkip statement before c).1
        (statementOrSkip statement before c).2 := by
  obtain ⟨-, hbrace, hend⟩ := startsStmt_ne hstarts
  have hgo : (c.atEnd || c.log.isFull) = false := by
    rw [hroom, Cursor.atEnd, beq_eq_false_iff_ne.mpr hend]
    rfl
  rw [programBody, hgo, if_neg Bool.false_ne_true, if_neg hbrace]

/-- The statements of a block, as a reader by itself. -/
theorem takes_stmts (hts : Row h ts ks) : Takes (fun c =>
    let (stmts, c) := blockBody statement c.turns [] c
    (some stmts.reverse, c)) h (fun us => us.map Stmt.plain = ts.map Stmt.plain)
    (· = .symbol .rbrace) ks := by
  intro c rest hc hrest hready
  obtain ⟨_, rest, rfl, rfl⟩ := hrest
  have hstop : ∀ turns before (c : Cursor), c.kind = .symbol .rbrace →
      blockBody statement (turns + 1) before c = (before, c) := by
    intro turns before c hkind
    rw [blockBody, decide_eq_true hkind]
    rfl
  obtain ⟨us, d, hus, husplain, hd⟩ := read_row (by decide) hstop blockBody_step hts c.turns [] c
    rest hc (Nat.le_of_eq c.turns_eq.symm) hready
  refine ⟨us.reverse, d, ?_, ?_, hd⟩
  · dsimp only
    rw [hus]
  · show us.reverse.map Stmt.plain = ts.map Stmt.plain
    rw [List.map_reverse, husplain, List.append_nil, List.map_reverse, List.reverse_reverse]

/-- A row of statements in braces is read as a block. -/
theorem takes_block {s : Span} (hts : Row h ts ks) :
    TakesBlock h ⟨ts, s⟩ (.symbol .lbrace :: (ks ++ [.symbol .rbrace])) := by
  refine takes_look fun start => takes_expect ?_
  refine (takes_stmts hts).bind (heads_cons rfl) fun us hus => ?_
  refine takes_expect (takes_look fun last => takes_pure ?_)
  simp only [Block.plain, plainStmts_eq, hus]

end Row

end Reading

/-! ## The induction -/

open Reading in
/-- What a written form is to its reader: words that it takes. -/
def Phrase.Complete (h : Nat) (ks : List Kind) : Phrase → Prop
  | .operand l e => Resumes l h e ks
  | .expr e => TakesExpr h e ks
  | .items es => ∀ before, Separated (ItemWords h) before es ks
  | .members ms => ∀ before, Separated (MemberWords h) before ms ks
  | .params xs => ∀ before, (∀ x ∈ xs, x ∉ before) → Separated ParamWords before xs ks
  | .decl d => TakesDecl h d ks
  | .block b => TakesBlock h b ks
  | .stmts ts => Row h ts ks
  | .simple t => TakesSimple h t ks
  | .body t => TakesBody h t ks
  | .stmt t => TakesStmt h t ks

namespace Reading

section Rules

variable {h l : Nat} {e : Expr} {ks js : List Kind}

/-- A level is one of chains, or it is that of comparisons, prefixes, suffixes or heads. -/
theorem chained_cases (l : Nat) : Chained l ∨ l = 3 ∨ l = 6 ∨ l = 7 ∨ 8 ≤ l := by
  omega

/-- Where a looser operand is wanted, a tighter one is read. -/
theorem Resumes.looser (hw : Written h (.operand (l + 1) e) ks) (hr : Resumes (l + 1) h e ks) :
    Resumes l h e ks := by
  rcases chained_cases l with hl | rfl | rfl | rfl | hl
  · exact .of_chained hl hr.takes
  · exact .of_takes (by decide) (by decide) (takes_additive hr.takes)
  · obtain ⟨k, js, rfl, -, -, hk⟩ := hw.begins _ rfl
    refine .of_takes (by decide) (by decide) ?_
    exact takes_suffixed (hk (Nat.le_refl 7)) hr.takes
  · exact .suffixed hr.takes
  · obtain ⟨n, rfl⟩ := Nat.exists_eq_add_of_le' hl
    refine .of_takes (by omega) (by omega) ?_
    exact hr.takes.mono (fun _ => id) fun _ => stops_of_behind

/-- An operator joins to the left: what stands on its left may be of its own level. -/
theorem Resumes.binary {op : BinaryOp} {a b : Expr} {s : Span}
    (ha : Resumes op.leftLevel h a ks) (hb : Resumes (op.level + 1) h b js) :
    Resumes op.level h (.binary s op a b) (ks ++ .symbol op.symbol :: js) := by
  have hplain : ∀ a' b' : Expr, a'.plain = a.plain → b'.plain = b.plain →
      (joined (.binary · op) a' b').plain = (Expr.binary s op a b).plain := by
    intro a' b' ha' hb'
    show Expr.binary default op a'.plain b'.plain = Expr.binary default op a.plain b.plain
    rw [ha', hb']
  unfold BinaryOp.leftLevel at ha
  rcases op.level_cases with hop | hop | hop
  · rw [if_pos hop] at ha
    rw [hop] at hb ⊢
    exact .of_takes (by decide) (by decide) (takes_comparison hop ha.takes hb.takes)
  · rw [hop] at ha hb ⊢
    refine .join (by decide) ?_ ha hb.takes hplain
    show (additiveOp? _).map _ = _
    rw [additiveOp?_symbol hop]
    rfl
  · rw [hop] at ha hb ⊢
    refine .join (by decide) ?_ ha hb.takes hplain
    show (multiplicativeOp? _).map _ = _
    rw [multiplicativeOp?_symbol hop]
    rfl

/-- So does a logical operator. -/
theorem Resumes.logical {op : LogicalOp} {a b : Expr} {s : Span}
    (ha : Resumes op.level h a ks) (hb : Resumes (op.level + 1) h b js) :
    Resumes op.level h (.logical s op a b) (ks ++ .keyword op.keyword :: js) := by
  have hplain : ∀ a' b' : Expr, a'.plain = a.plain → b'.plain = b.plain →
      (joined (.logical · op) a' b').plain = (Expr.logical s op a b).plain := by
    intro a' b' ha' hb'
    show Expr.logical default op a'.plain b'.plain = Expr.logical default op a.plain b.plain
    rw [ha', hb']
  cases op with
  | and => exact .join (.inr (.inl rfl)) rfl ha hb.takes hplain
  | or => exact .join (.inl rfl) rfl ha hb.takes hplain

theorem Resumes.coalesce {a b : Expr} {s : Span} (ha : Resumes 2 h a ks) (hb : Resumes 3 h b js) :
    Resumes 2 h (.coalesce s a b) (ks ++ .symbol .question :: js) := by
  refine .join (.inr (.inr (.inl rfl))) rfl ha hb.takes fun a' b' ha' hb' => ?_
  show Expr.coalesce default a'.plain b'.plain = Expr.coalesce default a.plain b.plain
  rw [ha', hb']

/-- A prefix takes one level of nesting. -/
theorem Resumes.unary {op : UnaryOp} {s : Span} (he : Resumes 6 h e ks) :
    Resumes 6 (h + 1) (.unary s op e) (op.kind :: ks) :=
  .of_takes (by decide) (by decide) (takes_unary he.takes)

/-- So does an expression of the lowest precedence. -/
theorem Resumes.takesExpr (he : Resumes 0 h e ks) : TakesExpr (h + 1) e ks := by
  have htakes := he.takes.nested
  rw [TakesExpr, expression_eq]
  exact htakes

end Rules

end Reading

open Reading in
/-- Every written form is read as what it is a form of. -/
theorem Written.complete {h : Nat} {p : Phrase} {ks : List Kind} (hp : Written h p ks) :
    p.Complete h ks := by
  induction hp with
  | int => exact .of_primary (takes_byKind (takes_literal fun _ _ => rfl))
  | float => exact .of_primary (takes_byKind (takes_literal fun _ _ => rfl))
  | string => exact .of_primary (takes_byKind (takes_literal fun _ _ => rfl))
  | true => exact .of_primary (takes_byKind (takes_atom fun _ => rfl))
  | false => exact .of_primary (takes_byKind (takes_atom fun _ => rfl))
  | null => exact .of_primary (takes_byKind (takes_atom fun _ => rfl))
  | name => exact .of_primary (takes_byKind (takes_atom fun _ => rfl))
  | parens _ he => exact .of_primary (takes_parenthesized he)
  | list _ hes => exact .of_primary (takes_listLiteral (hes []))
  | object _ hms => exact .of_primary (takes_objectLiteral (hms []))
  | lambda _ hd => exact .of_primary (takes_lambda hd)
  | property _ he => exact he.property
  | call _ _ he hes => exact he.call (hes [])
  | unary _ he => exact he.unary
  | binary _ _ ha hb => exact ha.binary hb
  | coalesce _ _ ha hb => exact ha.coalesce hb
  | logical _ _ ha hb => exact ha.logical hb
  | looser hw he => exact he.looser hw
  | expr _ he => exact he.takesExpr
  | noItem => exact fun _ => .none
  | lastItem hw he =>
    obtain ⟨k, js, rfl, hk, -⟩ := hw.begins _ rfl
    exact fun _ => .last ⟨⟨k, js, rfl, hk⟩, he⟩
  | nextItem hw _ he hes =>
    obtain ⟨k, js, rfl, hk, -⟩ := hw.begins _ rfl
    exact fun _ => .next ⟨⟨k, js, rfl, hk⟩, he⟩ (hes _)
  | noMember => exact fun _ => .none
  | lastMember _ he => exact fun _ => .last ⟨_, rfl, he⟩
  | nextMember _ _ he hms => exact fun _ => .next ⟨_, rfl, he⟩ (hms _)
  | noParam => exact fun _ _ => .none
  | lastParam => exact fun _ hnew => .last ⟨rfl, hnew _ List.mem_cons_self⟩
  | @nextParam _ x xs ks hx _ hxs =>
    intro before hnew
    show Separated ParamWords before (x :: xs) ([.identifier x] ++ .symbol .comma :: ks)
    -- The parameters behind `x` differ from those before it and from `x`.
    refine .next ⟨rfl, hnew _ List.mem_cons_self⟩ (hxs _ fun y hy hmem => ?_)
    rcases List.mem_cons.mp hmem with rfl | hmem
    · exact hx hy
    · exact hnew y (List.mem_cons_of_mem _ hy) hmem
  | decl _ _ hxs hb => exact takes_declaration (hxs [] fun _ _ => List.not_mem_nil) hb
  | block _ hts => exact takes_block hts
  | noStmt => exact .nil
  | nextStmt hw _ ht hts =>
    obtain ⟨k, js, rfl, hk⟩ := hw.begins _ rfl
    exact .cons hk ht hts
  | evaluation _ he => exact takes_evaluation he
  | assign _ _ hname he => exact takes_assign hname he
  | assignProperty _ _ hproperty he => exact takes_assignProperty hproperty he
  | simple hw ht =>
    obtain ⟨k, js, rfl, hk, hfn⟩ := hw.begins _ rfl
    exact takes_simpleStatement hk hfn ht
  | compound hw hb =>
    obtain ⟨k, js, rfl, rfl⟩ := hw.begins _ rfl
    exact takes_compound hb
  | define _ hd => exact takes_definition hd
  | cond _ _ he hyes =>
    rw [List.append_cons]
    exact takes_cond he hyes
  | @condElse _ s _ _ _ _ _ _ hclosed _ _ _ he hyes hno =>
    have hcond := takes_condElse (s := s) hclosed he hyes hno
    simp only [List.append_assoc, List.cons_append, List.nil_append] at hcond ⊢
    exact hcond
  | «while» _ _ he hbody =>
    rw [List.append_cons]
    exact takes_whileLoop he hbody
  | @«for» _ s _ _ _ _ _ _ _ _ _ _ _ _ hinit he hstep hbody =>
    have hfor := takes_forLoop (s := s) hinit he hstep hbody
    simp only [List.append_assoc, List.cons_append] at hfor ⊢
    exact hfor
  | «break» => exact takes_byKinds fun _ => takes_jump fun _ => rfl
  | «continue» => exact takes_byKinds fun _ => takes_jump fun _ => rfl
  | returnNull => exact takes_returnNull
  | «return» hw he =>
    obtain ⟨k, js, rfl, hk, -⟩ := hw.begins _ rfl
    exact takes_return hk he
  | write _ he => exact takes_writing he
  | stmt _ ht =>
    show TakesStmt _ _ _
    rw [TakesStmt, statement_eq]
    exact ht.nested

/-! ## Texts -/

/-- A proper program is read from its words, without a complaint, if no more levels are open in
them than may be. -/
theorem read_words (doc : Document) (p : Program) (tokens : List Token) (hp : p.proper = true)
    (hl : p.levels ≤ Cursor.maxDepth) (htokens : tokens.map Token.kind = p.words ++ [.eof]) :
    (Parse.ofTokens doc tokens).log = Log.empty ∧
      (Parse.ofTokens doc tokens).program.plain = p.plain := by
  have hrow : Reading.Row Cursor.maxDepth p.stmts p.words := (p.written_words hp hl).complete
  have hready : (Cursor.ofTokens doc tokens).Ready Cursor.maxDepth := by
    unfold Cursor.Ready
    rw [Cursor.depth_ofTokens, Cursor.log_ofTokens]
    exact ⟨by decide, rfl⟩
  have hstop : ∀ turns before (c : Cursor), c.kind = .eof →
      Reading.programBody Reading.statement (turns + 1) before c = (before, c) := by
    intro turns before c hkind
    rw [Reading.programBody, Cursor.atEnd, hkind]
    rfl
  obtain ⟨us, d, hus, husplain, hd⟩ := Reading.read_row (by decide) hstop Reading.programBody_step hrow
    (Cursor.ofTokens doc tokens).turns [] _ [] (Cursor.kinds_ofTokens doc htokens)
    (Nat.le_of_eq (Cursor.turns_eq _).symm) hready
  constructor
  · rw [Parse.log_ofTokens, hus]
    exact hd.log.trans (Cursor.log_ofTokens doc tokens)
  · show Program.mk ((Parse.ofTokens doc tokens).program.stmts.map Stmt.plain) default =
      Program.mk (p.stmts.map Stmt.plain) default
    rw [Parse.stmts_ofTokens, hus, List.map_reverse, husplain, List.append_nil, List.map_reverse,
      List.reverse_reverse]

/-- The program `x = (a + b) * c - (d - e);  if (x) if (b) f(not g.y); else write 1;`, in which two pairs
of parentheses are needed and the `else` belongs to the inner `if`. -/
def fencedProgram : Program where
  stmts :=
    let a := Expr.name default "a"
    let b := Expr.name default "b"
    let negated := Expr.unary default .not (.property default (.name default "g") ⟨"y", default⟩)
    let product := Expr.binary default (.arith .mul) (.binary default (.arith .add) a b)
      (.name default "c")
    let difference := Expr.binary default (.arith .sub) (.name default "d") (.name default "e")
    [.assign default ⟨"x", default⟩ (.binary default (.arith .sub) product difference),
      .cond default (.name default "x")
        (.cond default b (.expr (.call default (.name default "f") [negated]))
          (some (.write default (.int default 0 "1")))) none]
  span := default

theorem fencedProgram_read :
    let doc : Document := { name := "", text := "" }
    let tokens : List Token := (fencedProgram.words ++ [Kind.eof]).map fun k => ⟨k, default⟩
    (Parse.ofTokens doc tokens).log = Log.empty ∧
      (Parse.ofTokens doc tokens).program.plain = fencedProgram.plain := by
  intro doc tokens
  have htokens : tokens.map Token.kind = fencedProgram.words ++ [.eof] := by decide +kernel
  exact read_words doc fencedProgram tokens rfl (by decide) htokens

end SmallScript
