/-
  What is read without a complaint is written so.

  A text that is read without a complaint is a written form of the program that is read from it:
  no word of it is skipped, read twice or left over.  The other way round, a reading that gives up
  has logged why.

  There is one lemma for each reader, which takes the soundness of the readers that it calls, and
  then an induction on the levels of nesting that are left (`reads_tree`).  What differs between
  readers is the rule of the grammar that ends the proof.
-/
import SmallScript.Proofs.Reading.Faithful
import SmallScript.Proofs.Reading.Grammar

namespace SmallScript

namespace Reading

variable {α β : Type} {n : Nat} {k : Kind}

/-- At depth `n` a reader yields what its words are a written form of, within the levels that are
left there. -/
abbrev Reads (n : Nat) (phrase : α → Phrase) (m : Reading α) : Prop :=
  Sound n (fun x ks => Written (Cursor.maxDepth - n) (phrase x) ks) m

/-- The same where the word `k` comes next. -/
abbrev ReadsAt (k : Kind) (n : Nat) (phrase : α → Phrase) (m : Reading α) : Prop :=
  SoundAt k n (fun x ks => Written (Cursor.maxDepth - n) (phrase x) ks) m

/-- A level that is opened counts for the whole of what stands in it. -/
theorem Reads.nested {phrase : α → Phrase} {Z : Nat → α → List Kind → Prop} {m : Reading α}
    (h : n < Cursor.maxDepth → Reads (n + 1) phrase m)
    (hrule : ∀ l x ks, Written l (phrase x) ks → Z (l + 1) x ks) :
    Sound n (Z (Cursor.maxDepth - n)) (nested m) := by
  refine Sound.nested fun hn => (h hn).mono fun x ks hx => ?_
  have hlevel : Cursor.maxDepth - n = Cursor.maxDepth - (n + 1) + 1 := by omega
  rw [hlevel]
  exact hrule _ x ks hx

/-! ## Operators -/

/-- What is written so far may be all there is. -/
theorem reads_keep {phrase : α → Phrase} {P : Prop} {l : Nat} {x : α} {a : List Kind}
    (h : P → Written l (phrase x) a) :
    Sound n (fun y b => P → Written l (phrase y) (a ++ b)) (pure x) := by
  refine sound_pure fun hP => ?_
  rw [List.append_nil]
  exact h hP

/-- The operators of a level join to the left. -/
theorem joins_binary {op? : Kind → Option BinaryOp} {h l : Nat} (hl : l ≠ 3)
    (hop : ∀ {k op}, op? k = some op → k = .symbol op.symbol ∧ op.level = l) :
    Joins (fun k => (op? k).map fun op => joined (.binary · op))
      (fun e ks => Written h (.operand (l + 1) e) ks) (fun e ks => Written h (.operand l e) ks) := by
  intro k join hjoin
  obtain ⟨op, hk, rfl⟩ := Option.map_eq_some_iff.mp hjoin
  obtain ⟨rfl, rfl⟩ := hop hk
  refine ⟨nofun, fun x a y b hx hy => ?_⟩
  have hleft : op.leftLevel = op.level := if_neg hl
  exact .binary (hleft ▸ hx) hy

section Expressions

variable {operand expr : Reading Expr} {block : Reading Block}

/-- Products are chains of operands. -/
theorem reads_multiplicative (ho : Reads n (.operand 6) operand) :
    Reads n (.operand 5) (multiplicative operand) :=
  sound_chain ho (fun _ _ => .looser) (joins_binary (by decide) multiplicativeOp?_eq_some)

/-- Sums are chains of products. -/
theorem reads_additive (ho : Reads n (.operand 6) operand) :
    Reads n (.operand 4) (additive operand) :=
  sound_chain (reads_multiplicative ho) (fun _ _ => .looser)
    (joins_binary (by decide) additiveOp?_eq_some)

/-- A comparison with an operator has two operands and no third. -/
theorem reads_comparison (ho : Reads n (.operand 6) operand) :
    Reads n (.operand 3) (comparison operand) := by
  refine (reads_additive ho).bind fun left a => sound_byKind fun k => ?_
  cases hk : comparisonOp? k with
  | none => exact (reads_keep fun hleft => .looser hleft).at k
  | some op =>
    obtain ⟨rfl, hlevel⟩ := comparisonOp?_eq_some hk
    -- A comparison behind this one would be a complaint, so it can be left out of account.
    refine soundAt_token nofun fun _ => (reads_additive ho).bind fun right d => ?_
    refine Sound.bind (fun c hc _ => (faithful_complainIf hc
      (fun c => (comparisonOp? c.kind).isSome) .chainedComparison _ (·.current.span)).mono
        fun _ _ h => h.1) fun _ e => sound_pure ?_
    rintro rfl hright hleft
    have hop : op.leftLevel = 4 := if_pos hlevel
    have hboth : Written (Cursor.maxDepth - n) (.operand op.level (joined (.binary · op) left right))
        (a ++ .symbol op.symbol :: d) := by
      refine .binary (hop ▸ hleft) ?_
      rw [hlevel]
      exact hright
    rw [hlevel] at hboth
    rw [List.append_nil, List.append_nil]
    exact hboth

/-- The other precedences are chains again. -/
theorem reads_coalescing (ho : Reads n (.operand 6) operand) :
    Reads n (.operand 2) (coalescing operand) :=
  sound_chain (reads_comparison ho) (fun _ _ => .looser)
    (joins_word nofun fun _ _ _ _ hx hy => .coalesce hx hy)

theorem reads_conjunction (ho : Reads n (.operand 6) operand) :
    Reads n (.operand 1) (conjunction operand) := by
  refine sound_chain (reads_coalescing ho) (fun _ _ => .looser) (joins_word nofun ?_)
  intro x a y b hx hy
  show Written _ (.operand (LogicalOp.level .and) _) (a ++ .keyword (LogicalOp.keyword .and) :: b)
  exact .logical hx hy

/-- So an expression of the lowest precedence is read as it is written. -/
theorem reads_disjunction (ho : Reads n (.operand 6) operand) :
    Reads n (.operand 0) (disjunction operand) := by
  refine sound_chain (reads_conjunction ho) (fun _ _ => .looser) (joins_word nofun ?_)
  intro x a y b hx hy
  show Written _ (.operand (LogicalOp.level .or) _) (a ++ .keyword (LogicalOp.keyword .or) :: b)
  exact .logical hx hy

/-! ## Functions -/

/-- A parameter that is read without a complaint is not there already. -/
theorem sound_parameter (before : List String) :
    Sound n (fun x ks => ks = [.identifier x] ∧ x ∉ before) (parameter before) := by
  refine sound_identifier.bind fun x a => ?_
  refine Sound.bind (Y := fun _ ks => ks = [] ∧ before.contains x.name = false)
    (fun c hc _ => faithful_complainIf hc (fun _ => before.contains x.name) _ _ fun _ => x.span)
    fun _ b => sound_pure ?_
  rintro ⟨rfl, hnew⟩ rfl
  refine ⟨rfl, fun hmem => ?_⟩
  rw [List.contains_iff_mem.mpr hmem] at hnew
  cases hnew

/-- Parameters with commas between them, none of which repeats one before it. -/
theorem written_params {before xs : List String} {ks : List Kind}
    (h : Separated (fun before x ks => ks = [.identifier x] ∧ x ∉ before) before xs ks) {l : Nat} :
    Written l (.params xs) ks ∧ ∀ y ∈ xs, y ∉ before := by
  induction h with
  | none => exact ⟨.noParam, fun y hy => nomatch hy⟩
  | last hx =>
    obtain ⟨rfl, hx⟩ := hx
    refine ⟨.lastParam, fun y hy => ?_⟩
    rw [List.mem_singleton.mp hy]
    exact hx
  | next hx _ ih =>
    obtain ⟨rfl, hx⟩ := hx
    obtain ⟨hxs, hnew⟩ := ih
    refine ⟨.nextParam (fun hmem => hnew _ hmem List.mem_cons_self) hxs, fun y hy => ?_⟩
    rcases List.mem_cons.mp hy with rfl | hy
    · exact hx
    · exact fun hmem => hnew y hy (List.mem_cons_of_mem _ hmem)

/-- The parameters of a function are all different. -/
theorem reads_declaration (hb : Reads n .block block) : Reads n .decl (declaration block) := by
  refine (sound_expect .lparen).bind fun _ a => ?_
  refine (sound_items sound_parameter .rparen).bind fun params b => ?_
  refine hb.bind fun body d => sound_pure ?_
  rintro hbody ⟨ks, rfl, hparams⟩ rfl
  have hdecl := Written.decl (written_params hparams).1 hbody
  simpa using hdecl

/-! ## Expressions that stand alone -/

/-- Items with commas between them are the items of a list, with a last comma or without. -/
theorem written_items {h : Nat} {before es : List Expr} {ks : List Kind}
    (hes : Separated (fun _ e ks => Written h (.expr e) ks) before es ks) :
    Written h (.items es) ks := by
  induction hes with
  | none => exact .noItem
  | last he => exact .lastItem he
  | next he _ ih => exact .nextItem he ih

/-- A member is a name, a colon and an expression. -/
theorem sound_member (he : Reads n .expr expr) :
    Sound n (fun m ks => ∃ js, ks = .identifier m.name.name :: .symbol .colon :: js ∧
      Written (Cursor.maxDepth - n) (.expr m.value) js) (member expr) := by
  refine sound_identifier.bind fun x a => (sound_expect .colon).bind fun _ b => ?_
  refine he.bind fun value d => sound_pure ?_
  rintro hvalue rfl rfl
  refine ⟨d, ?_, hvalue⟩
  rw [List.append_nil]
  rfl

/-- So are members with commas the members of an object. -/
theorem written_members {h : Nat} {before ms : List Member} {ks : List Kind}
    (hms : Separated (fun _ m ks => ∃ js, ks = .identifier m.name.name :: .symbol .colon :: js ∧
      Written h (.expr m.value) js) before ms ks) : Written h (.members ms) ks := by
  induction hms with
  | none => exact .noMember
  | @last _ m _ hm =>
    obtain ⟨x, e⟩ := m
    obtain ⟨js, rfl, hvalue⟩ := hm
    exact .lastMember hvalue
  | @next _ m _ _ _ hm _ ih =>
    obtain ⟨x, e⟩ := m
    obtain ⟨js, rfl, hvalue⟩ := hm
    exact .nextMember hvalue ih

/-- A literal is one word, which is not the end of the text. -/
theorem readsAt_literal {make : Span → NodeId → String → Expr} {raw : String} (hne : k ≠ .eof)
    (hrule : ∀ l s id, Written l (.operand 8 (make s id raw)) [k]) :
    ReadsAt k n (.operand 8) (literal make raw) := by
  refine soundAt_tokenSpan hne fun s => sound_freshId.bind fun id a => sound_pure ?_
  rintro rfl
  exact hrule _ s id

theorem readsAt_atom {make : Span → Expr} (hne : k ≠ .eof)
    (hrule : ∀ l s, Written l (.operand 8 (make s)) [k]) :
    ReadsAt k n (.operand 8) (atom make) :=
  soundAt_tokenSpan hne fun s => sound_pure (hrule _ s)

/-- Parentheses may stand around any expression. -/
theorem readsAt_parenthesized (he : Reads n .expr expr) :
    ReadsAt (.symbol .lparen) n (.operand 8) (parenthesized expr) := by
  refine soundAt_tokenSpan nofun fun start => he.bind fun inner a => ?_
  refine (sound_expect .rparen).bind fun _ b => sound_previous.bind fun last d => sound_pure ?_
  rintro rfl rfl hinner
  have hparens := Written.parens (s := start.cover last) hinner
  simpa using hparens

/-- Brackets stand around items. -/
theorem readsAt_listLiteral (he : Reads n .expr expr) :
    ReadsAt (.symbol .lbracket) n (.operand 8) (listLiteral expr) := by
  refine soundAt_tokenSpan nofun fun start => sound_freshId.bind fun id a => ?_
  refine (sound_items (fun _ => he) .rbracket).bind fun es b => ?_
  refine sound_previous.bind fun last d => sound_pure ?_
  rintro rfl ⟨ks, rfl, hes⟩ rfl
  have hlist := @Written.list _ (start.cover last) id _ _ (written_items hes)
  simpa using hlist

/-- Braces stand around members, behind a keyword. -/
theorem readsAt_objectLiteral (he : Reads n .expr expr) :
    ReadsAt (.keyword .new) n (.operand 8) (objectLiteral expr) := by
  refine soundAt_tokenSpan nofun fun start => (sound_expect .lbrace).bind fun _ a => ?_
  refine (sound_items (fun _ => sound_member he) .rbrace).bind fun ms b => ?_
  refine sound_previous.bind fun last d => sound_pure ?_
  rintro rfl ⟨ks, rfl, hms⟩ rfl
  have hobject := Written.object (s := start.cover last) (written_members hms)
  simpa using hobject

/-- A function without a name is a declaration behind its keyword. -/
theorem readsAt_lambda (hb : Reads n .block block) :
    ReadsAt (.keyword .fn) n (.operand 8) (lambda block) := by
  refine soundAt_tokenSpan nofun fun start => (reads_declaration hb).bind fun d a => ?_
  refine sound_previous.bind fun last b => sound_pure ?_
  rintro rfl hdecl
  have hlambda := Written.lambda (s := start.cover last) hdecl
  simpa using hlambda

/-- By the first word, which decides which rule of the grammar it is. -/
theorem reads_primary (he : Reads n .expr expr) (hb : Reads n .block block) :
    Reads n (.operand 8) (primary expr block) := by
  refine sound_byKind fun k => ?_
  split
  · exact readsAt_literal nofun fun _ _ _ => .int
  · exact readsAt_literal nofun fun _ _ _ => .float
  · exact readsAt_literal nofun fun _ _ _ => .string
  · exact readsAt_atom nofun fun _ _ => .name
  · exact readsAt_atom nofun fun _ _ => .true
  · exact readsAt_atom nofun fun _ _ => .false
  · exact readsAt_atom nofun fun _ _ => .null
  · exact readsAt_parenthesized he
  · exact readsAt_listLiteral he
  · exact readsAt_objectLiteral he
  · exact readsAt_lambda hb
  · exact (sound_refuse _ _).at k

/-! ## Behind and in front of an operand -/

/-- By induction on the turns: what has been read so far stands in front of the next suffix. -/
theorem sound_suffixes (he : Reads n .expr expr) (turns : Nat) :
    ∀ target a, Sound n
      (fun z b => Written (Cursor.maxDepth - n) (.operand 7 target) a →
        Written (Cursor.maxDepth - n) (.operand 7 z) (a ++ b)) (suffixes expr turns target) := by
  induction turns with
  | zero => exact fun target a => reads_keep id
  | succ turns ih =>
    intro target a
    refine sound_byKind fun k => ?_
    split
    · refine soundAt_token nofun fun _ => (sound_items (fun _ => he) .rparen).bind fun es b => ?_
      refine sound_previous.bind fun last d => ?_
      refine (ih (.call (target.span.cover last) target es) (a ++ .symbol .lparen :: b)).mono ?_
      rintro z ks hz rfl ⟨js, rfl, hes⟩ htarget
      have hcall := Written.call (s := target.span.cover last) htarget (written_items hes)
      have hwritten := hz (by simpa using hcall)
      simpa using hwritten
    · refine soundAt_token nofun fun _ => sound_identifier.bind fun x b => ?_
      refine (ih (.property (target.span.cover x.span) target x)
        (a ++ [.symbol .dot, .identifier x.name])).mono ?_
      rintro z ks hz rfl htarget
      have hwritten := hz (.property htarget)
      simpa using hwritten
    · exact (reads_keep id).at k

/-- An expression that stands alone, with its suffixes. -/
theorem reads_suffixed (he : Reads n .expr expr) (hb : Reads n .block block) :
    Reads n (.operand 7) (suffixed expr block) := by
  refine (reads_primary he hb).bind fun first a c hc hn => ?_
  have hrest := sound_suffixes he c.turns first a c hc hn
  exact hrest.mono fun z b hz hfirst => hz (.looser hfirst)

/-- The operand of a prefix is read one level deeper. -/
theorem reads_operand (ho : n < Cursor.maxDepth → Reads (n + 1) (.operand 6) operand)
    (he : Reads n .expr expr) (hb : Reads n .block block) :
    Reads n (.operand 6) (Reading.operand operand expr block) := by
  refine sound_byKind fun k => ?_
  cases hk : unaryOp? k with
  | none => exact ((reads_suffixed he hb).mono fun _ _ => .looser).at k
  | some op =>
    rw [unaryOp?_eq_some hk]
    have hne : op.kind ≠ .eof := by cases op <;> nofun
    refine soundAt_tokenSpan hne fun start => ?_
    have hinner := Reads.nested
      (Z := fun l e ks => ∀ s, Written l (.operand 6 (.unary s op e)) (op.kind :: ks))
      ho fun l e ks he s => .unary he
    refine hinner.bind fun inner a => sound_pure fun hwritten => ?_
    rw [List.append_nil]
    exact hwritten _

end Expressions

/-! ## Lists of statements -/

/-- Skipping logs nothing and stays within the text. -/
theorem resync_quiet (turns : Nat) (c : Cursor) (hc : c.Ended) :
    (resync turns c).Ended ∧ (resync turns c).log = c.log := by
  induction turns generalizing c with
  | zero => exact ⟨hc, rfl⟩
  | succ turns ih =>
    unfold resync
    split
    · exact ⟨hc, rfl⟩
    · rename_i hend
      have hadvance : c.advance.Ended :=
        (hc.advance fun hk => hend (by rw [Cursor.atEnd, hk]; rfl)).2
      split
      · exact ⟨hadvance, c.log_advance⟩
      · split
        · exact ⟨hc, rfl⟩
        · obtain ⟨hended, hlog⟩ := ih c.advance hadvance
          exact ⟨hended, hlog.trans c.log_advance⟩

section Statements

variable {expr : Reading Expr} {statement : Reading Stmt}

/-- A statement is dropped, and words are skipped, only behind a complaint. -/
theorem faithful_statementOrSkip {Y : Stmt → List Kind → Prop} (hs : Sound n Y statement)
    (before : List Stmt) {c : Cursor} (hc : c.Ended) (hn : c.depth = n) :
    Faithful (fun ts ks => ∃ t, ts = t :: before ∧ Y t ks) c
      (some (statementOrSkip statement before c).1, (statementOrSkip statement before c).2) := by
  have hread := hs c hc hn
  unfold statementOrSkip
  rcases hr : statement c with ⟨_ | t, d⟩
  · rw [hr] at hread
    -- The reading has given up, so it has complained; skipping words adds nothing to the log.
    obtain ⟨hended, hlog⟩ := resync_quiet d.turns d hread.ended
    have hdepth : (resync d.turns d).depth = c.depth := (depth_resync d.turns d).trans hread.depth
    have hlogged : c.log.total < (resync d.turns d).log.total := hlog ▸ hread.logged rfl
    dsimp only
    split
    · rename_i hstuck
      have hend : (resync d.turns d).kind ≠ .eof := fun hk => by
        rw [Cursor.atEnd, hk] at hstuck
        simp at hstuck
      refine .of_logged (hended.advance hend).2 ?_ ?_
      · exact (depth_advance _).trans hdepth
      · rw [Cursor.log_advance]
        exact hlogged
    · exact .of_logged hended hdepth hlogged
  · rw [hr] at hread
    refine ⟨hread.ended, hread.depth, hread.total_le, fun hquiet => ?_⟩
    obtain ⟨_, ks, ⟨⟩, hY, hks⟩ := hread.read hquiet
    exact ⟨t :: before, ks, rfl, ⟨t, rfl, hY⟩, hks⟩

/-- The outcome of a reader of statements, those read before in front. -/
abbrev FaithfulList (before : List Stmt) (c : Cursor) (r : List Stmt × Cursor) : Prop :=
  Faithful (fun ts ks => ∃ us, ts = us.reverse ++ before ∧
    Written (Cursor.maxDepth - c.depth) (.stmts us) ks) c (some r.1, r.2)

/-- Nothing has been read yet, and nothing is claimed of it. -/
theorem faithfulList_nil (before : List Stmt) {c : Cursor} (hc : c.Ended) :
    FaithfulList before c (before, c) :=
  faithful_same hc ⟨[], rfl, .noStmt⟩

/-- One more statement in front of a list of them. -/
theorem FaithfulList.cons (hs : Reads n .stmt statement) {before : List Stmt} {c : Cursor}
    {r : List Stmt × Cursor} (hc : c.Ended) (hn : c.depth = n)
    (hrest : FaithfulList (statementOrSkip statement before c).1
      (statementOrSkip statement before c).2 r) : FaithfulList before c r := by
  have hfirst := faithful_statementOrSkip hs before hc hn
  generalize statementOrSkip statement before c = q at hfirst hrest
  obtain ⟨ts, d⟩ := q
  have hle : c.log.total ≤ d.log.total := hfirst.total_le
  have hle' : d.log.total ≤ r.2.log.total := hrest.total_le
  have hdepth : d.depth = c.depth := hfirst.depth
  refine ⟨hrest.ended, hrest.depth.trans hdepth, Nat.le_trans hle hle', fun hquiet => ?_⟩
  change r.2.log.total = c.log.total at hquiet
  obtain ⟨_, ks, ⟨⟩, ⟨t, rfl, ht⟩, hks⟩ := hfirst.read (show d.log.total = _ by omega)
  obtain ⟨_, js, ⟨⟩, ⟨us, hus, hwritten⟩, hjs⟩ := hrest.read (show r.2.log.total = d.log.total by omega)
  rw [hdepth] at hwritten
  rw [← hn] at ht
  refine ⟨r.1, ks ++ js, rfl, ⟨t :: us, ?_, .nextStmt ht hwritten⟩, ?_⟩
  · rw [hus, List.reverse_cons, List.append_assoc]
    rfl
  · rw [hks, List.append_assoc]
    exact congrArg (ks ++ ·) hjs

/-- By induction on the turns: statements up to a brace or the end. -/
theorem faithful_blockBody (hs : Reads n .stmt statement) (turns : Nat) :
    ∀ before c, c.Ended → c.depth = n →
      FaithfulList before c (blockBody statement turns before c) := by
  induction turns with
  | zero => exact fun before c hc _ => faithfulList_nil before hc
  | succ turns ih =>
    intro before c hc hn
    unfold blockBody
    split
    · exact faithfulList_nil before hc
    · have hfirst := faithful_statementOrSkip hs before hc hn
      exact .cons hs hc hn (ih _ _ hfirst.ended (hfirst.depth.trans hn))

/-- The statements of a block, as a reader by itself. -/
theorem reads_stmts (hs : Reads n .stmt statement) : Reads n .stmts fun c =>
    let (stmts, c) := blockBody statement c.turns [] c
    (some stmts.reverse, c) := by
  intro c hc hn
  have hread := faithful_blockBody hs c.turns [] c hc hn
  refine ⟨hread.ended, hread.depth, hread.total_le, fun hquiet => ?_⟩
  obtain ⟨_, ks, ⟨⟩, ⟨us, hus, hwritten⟩, hks⟩ := hread.read hquiet
  rw [hn] at hwritten
  refine ⟨us, ks, ?_, hwritten, hks⟩
  dsimp only at hus ⊢
  rw [hus, List.append_nil, List.reverse_reverse]

/-- A block whose brace is missing has been complained about. -/
theorem reads_block (hs : Reads n .stmt statement) : Reads n .block (block statement) := by
  refine (sound_look _).bind fun start a => (sound_expect .lbrace).bind fun _ b => ?_
  refine (reads_stmts hs).bind fun ts d => (sound_expect .rbrace).bind fun _ e => ?_
  refine sound_previous.bind fun last f => sound_pure ?_
  rintro rfl rfl hts rfl rfl
  have hblock := Written.block (s := start.cover last) hts
  simpa using hblock

/-! ## Statements -/

/-- Only a name or a property stands in front of an equals sign without a complaint. -/
theorem reads_simple (he : Reads n .expr expr) : Reads n .simple (simple expr) := by
  refine he.bind fun target a => sound_at? ?_ ?_
  · refine soundAt_tokenSpan nofun fun eq => he.bind fun value b => ?_
    -- What the target is shows only here, behind both expressions.
    cases target with
    | name s x =>
      refine sound_pure fun hvalue htarget => ?_
      rw [List.append_nil]
      exact Written.assign (x := ⟨x, s⟩) htarget hvalue
    | property s owner x =>
      refine sound_pure fun hvalue htarget => ?_
      rw [List.append_nil]
      exact .assignProperty htarget hvalue
    | _ => exact fun c hc _ => faithful_complain hc _ _ _ _
  · exact reads_keep fun htarget => .evaluation htarget

/-- A test stands between parentheses. -/
theorem reads_condition (he : Reads n .expr expr) :
    Sound n (fun e ks => ∃ js, ks = .symbol .lparen :: js ++ [.symbol .rparen] ∧
      Written (Cursor.maxDepth - n) (.expr e) js) (condition expr) := by
  refine (sound_expect .lparen).bind fun _ a => he.bind fun test b => ?_
  refine (sound_expect .rparen).bind fun _ d => sound_pure ?_
  rintro rfl htest rfl
  exact ⟨b, by simp, htest⟩

/-- A definition is a keyword, a name and a declaration. -/
theorem readsAt_definition {block : Reading Block} (hb : Reads n .block block) :
    ReadsAt (.keyword .fn) n .body (definition block) := by
  refine soundAt_tokenSpan nofun fun start => sound_freshId.bind fun id a => ?_
  refine sound_identifier.bind fun x b => (reads_declaration hb).bind fun d js => ?_
  refine sound_previous.bind fun last e => sound_pure ?_
  rintro rfl hdecl rfl rfl
  have hdefine := @Written.define _ (start.cover last) id x _ _ hdecl
  simpa using hdefine

theorem readsAt_whileLoop (he : Reads n .expr expr) (hs : Reads n .stmt statement) :
    ReadsAt (.keyword .while) n .body (whileLoop expr statement) := by
  refine soundAt_tokenSpan nofun fun start => (reads_condition he).bind fun test a => ?_
  refine hs.bind fun body b => sound_previous.bind fun last d => sound_pure ?_
  rintro rfl hbody ⟨ks, rfl, htest⟩
  have hwhile := Written.while (s := start.cover last) htest hbody
  simpa using hwhile

/-- The three parts of a loop are parted by semicolons. -/
theorem readsAt_forLoop (he : Reads n .expr expr) (hs : Reads n .stmt statement) :
    ReadsAt (.keyword .for) n .body (forLoop expr statement) := by
  refine soundAt_tokenSpan nofun fun start => (sound_expect .lparen).bind fun _ a => ?_
  refine (reads_simple he).bind fun init b => (sound_expect .semicolon).bind fun _ d => ?_
  refine he.bind fun test e => (sound_expect .semicolon).bind fun _ f => ?_
  refine (reads_simple he).bind fun step g => (sound_expect .rparen).bind fun _ l => ?_
  refine hs.bind fun body m => sound_previous.bind fun last o => sound_pure ?_
  rintro rfl hbody rfl hstep rfl htest rfl hinit rfl
  have hfor := Written.for (s := start.cover last) hinit htest hstep hbody
  simpa using hfor

/-- A return with a value and one without are two rules. -/
theorem readsAt_returning (he : Reads n .expr expr) :
    ReadsAt (.keyword .return) n .body (returning expr) := by
  refine soundAt_tokenSpan nofun fun start => (sound_look _).bind fun bare a => ?_
  have hend : ∀ value, Sound n (fun t ks => ks = [.symbol .semicolon] ∧ ∃ s, t = .return s value)
      (do endStatement; pure (Stmt.return (start.cover (← previous)) value)) := by
    intro value
    refine sound_endStatement.bind fun _ b => sound_previous.bind fun last d => sound_pure ?_
    rintro rfl rfl
    exact ⟨rfl, _, rfl⟩
  split
  · refine (sound_pure (Y := fun value ks => value = none ∧ ks = []) ⟨rfl, rfl⟩).bind ?_
    refine fun value b => (hend value).mono ?_
    rintro t ks ⟨rfl, s, rfl⟩ ⟨rfl, rfl⟩ rfl
    exact .returnNull
  · refine (he.map (f := some) (Z := fun value ks => ∃ e, value = some e ∧
      Written (Cursor.maxDepth - n) (.expr e) ks) fun e ks he => ⟨e, rfl, he⟩).bind ?_
    refine fun value b => (hend value).mono ?_
    rintro t ks ⟨rfl, s, rfl⟩ ⟨e, rfl, he⟩ rfl
    have hreturn := Written.return (s := s) he
    simpa using hreturn

/-- A jump is a keyword and a semicolon. -/
theorem readsAt_jump {make : Span → Stmt} (hne : k ≠ .eof)
    (hrule : ∀ l s, Written l (.body (make s)) [k, .symbol .semicolon]) :
    ReadsAt k n .body (jump make) := by
  refine soundAt_tokenSpan hne fun start => sound_endStatement.bind fun _ a => ?_
  refine sound_previous.bind fun last b => sound_pure ?_
  rintro rfl rfl
  exact hrule _ _

theorem readsAt_writing (he : Reads n .expr expr) :
    ReadsAt (.keyword .write) n .body (writing expr) := by
  refine soundAt_tokenSpan nofun fun start => he.bind fun value a => ?_
  refine sound_endStatement.bind fun _ b => sound_previous.bind fun last d => sound_pure ?_
  rintro rfl rfl hvalue
  have hwrite := Written.write (s := start.cover last) hvalue
  simpa using hwrite

end Statements

/-! ## Where an else belongs -/

/-- A result, and where it leaves the cursor. -/
def Yields (P : α → Cursor → Prop) (m : Reading α) : Prop :=
  ∀ c x d, m c = (some x, d) → P x d

/-- What a reader leaves behind an `if` that is still open is no `else`. -/
abbrev ClosesIfs (m : Reading Stmt) : Prop :=
  Yields (fun t d => t.endsOpen = true → d.kind ≠ .keyword .else) m

/-- Two readings that succeed one behind the other. -/
theorem bind_eq_some {m : Reading α} {f : α → Reading β} {c d : Cursor} {y : β}
    (h : (m >>= f) c = (some y, d)) : ∃ x e, m c = (some x, e) ∧ f x e = (some y, d) := by
  change Reading.bind m f c = (some y, d) at h
  unfold Reading.bind at h
  rcases hr : m c with ⟨_ | x, e⟩
  · rw [hr] at h
    cases h
  · rw [hr] at h
    exact ⟨x, e, rfl, h⟩

/-- What holds of the last step holds of both. -/
theorem Yields.bind {P : β → Cursor → Prop} {m : Reading α} {f : α → Reading β}
    (h : ∀ x, Yields P (f x)) : Yields P (m >>= f) := by
  intro c y d hr
  obtain ⟨x, e, -, hrest⟩ := bind_eq_some hr
  exact h x e y d hrest

theorem yields_pure {P : α → Cursor → Prop} {x : α} (h : ∀ d, P x d) : Yields P (pure x) := by
  rintro c _ _ ⟨⟩
  exact h c

/-- A statement that cannot take an `else` leaves none open. -/
theorem closesIfs_previous {make : Span → Stmt} (h : ∀ s, (make s).endsOpen = false) :
    ClosesIfs (do pure (make (← previous))) := by
  refine .bind fun s => yields_pure fun d hopen => ?_
  rw [h s] at hopen
  cases hopen

section Else

variable {expr : Reading Expr} {statement : Reading Stmt}

/-- What ends in a statement is open where that statement is. -/
theorem Yields.last (hs : ClosesIfs statement) {f : Span → Stmt → Stmt}
    (h : ∀ s t, (f s t).endsOpen = t.endsOpen) :
    ClosesIfs (do let t ← statement; pure (f (← previous) t)) := by
  intro c t d hr hopen
  obtain ⟨body, e, hbody, hr⟩ := bind_eq_some hr
  obtain ⟨s, f, ⟨⟩, ⟨⟩⟩ := bind_eq_some hr
  rw [h] at hopen
  exact hs _ _ _ hbody hopen

/-- Behind a conditional that could still take an `else`, no `else` follows: it would have been
read. -/
theorem closesIfs_conditional (hs : ClosesIfs statement) :
    ClosesIfs (conditional expr statement) := by
  refine .bind fun start => .bind fun test => .bind fun yes => ?_
  intro c t d hr hopen
  obtain ⟨more, e, heat, hr⟩ := bind_eq_some hr
  cases more with
  | true =>
    obtain ⟨no, f, hno, hr⟩ := bind_eq_some hr
    obtain ⟨no', g, hno', ⟨⟩⟩ := bind_eq_some hno
    obtain ⟨s, i, ⟨⟩, ⟨⟩⟩ := bind_eq_some hr
    exact hs _ _ _ hno' hopen
  | false =>
    obtain ⟨no, f, ⟨⟩, hr⟩ := bind_eq_some hr
    obtain ⟨s, i, ⟨⟩, ⟨⟩⟩ := bind_eq_some hr
    unfold eatKeyword at heat
    split at heat
    · cases heat
    · rename_i hk
      cases heat
      exact hk

/-- An expression or an assignment cannot take an `else`. -/
theorem yields_simple : Yields (fun t _ => t.endsOpen = false) (simple expr) := by
  refine .bind fun target => .bind fun assigned => ?_
  split
  · refine .bind fun eq => .bind fun value => ?_
    cases target with
    | name s x => exact yields_pure fun _ => rfl
    | property s owner x => exact yields_pure fun _ => rfl
    | _ => exact fun c t d hr => nomatch hr
  · exact yields_pure fun _ => rfl

/-- By the first word of the statement. -/
theorem closesIfs_statementBody (hs : ClosesIfs statement) :
    ClosesIfs (statementBody expr statement) := by
  refine .bind fun kinds => ?_
  split
  · exact .bind fun b => yields_pure fun _ hopen => nomatch hopen
  · exact .bind fun start => .bind fun id => .bind fun x => .bind fun d =>
      closesIfs_previous fun _ => rfl
  · exact closesIfs_conditional hs
  · refine .bind fun start => .bind fun test => ?_
    exact hs.last (f := fun s t => .while (start.cover s) test t) fun _ _ => rfl
  · refine .bind fun start => .bind fun _ => .bind fun init => .bind fun _ => .bind fun test => ?_
    refine .bind fun _ => .bind fun step => .bind fun _ => ?_
    exact hs.last (f := fun s t => .for (start.cover s) init test step t) fun _ _ => rfl
  · refine .bind fun start => .bind fun bare => ?_
    split
    · exact .bind fun value => .bind fun _ => closesIfs_previous fun _ => rfl
    · exact .bind fun value => .bind fun _ => closesIfs_previous fun _ => rfl
  · exact .bind fun start => .bind fun _ => closesIfs_previous fun _ => rfl
  · exact .bind fun start => .bind fun _ => closesIfs_previous fun _ => rfl
  · exact .bind fun start => .bind fun value => .bind fun _ => closesIfs_previous fun _ => rfl
  · intro c t d hr hopen
    obtain ⟨t', e, hsimple, hr⟩ := bind_eq_some hr
    obtain ⟨_, f, hend, ⟨⟩⟩ := bind_eq_some hr
    rw [yields_simple _ _ _ hsimple] at hopen
    cases hopen

theorem Yields.nested {m : Reading Stmt} (h : ClosesIfs m) : ClosesIfs (nested m) := by
  intro c t d hr
  unfold Reading.nested at hr
  split at hr
  · rcases hm : m { c with depth := c.depth + 1 } with ⟨x, e⟩
    rw [hm] at hr
    cases hr
    exact fun hopen => h _ _ e hm hopen
  · cases hr

/-- By induction on the fuel, for loops and conditionals end with a statement. -/
theorem closesIfs_statement (fuel : Nat) : ClosesIfs (statementAt fuel) := by
  induction fuel with
  | zero => exact fun c t d hr => nomatch hr
  | succ fuel ih =>
    rw [statementAt_succ]
    exact (closesIfs_statementBody ih).nested

end Else

/-! ## The tree -/

section Tree

variable {expr : Reading Expr} {statement : Reading Stmt}

/-- So an `else` belongs to the nearest conditional, as the grammar says. -/
theorem readsAt_conditional (he : Reads n .expr expr) (hs : Reads n .stmt statement)
    (hclose : ClosesIfs statement) :
    ReadsAt (.keyword .if) n .body (conditional expr statement) := by
  refine soundAt_tokenSpan nofun fun start => (reads_condition he).bind fun test a c hc hn => ?_
  refine (hs c hc hn).bind fun yes b d hyes hd hdepth => ?_
  have hend : ∀ no, Sound n (fun t ks => ks = [] ∧ ∃ s, t = .cond s test yes no)
      (do pure (Stmt.cond (start.cover (← previous)) test yes no)) :=
    fun no => sound_previous.bind fun s f => sound_pure fun hf => ⟨by rw [hf]; rfl, _, rfl⟩
  refine (faithful_eatKeyword hd .else).bind fun more f e _ he hedepth => ?_
  have hen : e.depth = n := hedepth.trans (hdepth.trans hn)
  cases more with
  | true =>
    have hno := hs.map (f := some) (Z := fun no ks => ∃ t, no = some t ∧
      Written (Cursor.maxDepth - n) (.stmt t) ks) fun t ks ht => ⟨t, rfl, ht⟩
    refine hno.bind (fun no g => (hend no).mono ?_) e he hen
    rintro t ks ⟨rfl, s, rfl⟩ ⟨other, rfl, hother⟩ ⟨rfl, helse⟩ hb ⟨js, rfl, htest⟩
    -- An open `if` at the end of the first branch would have taken the `else`.
    have hclosed : yes.endsOpen = false := by
      rw [← Bool.not_eq_true]
      exact fun hopen => hclose c yes d hyes hopen (helse rfl)
    have hcond := Written.condElse (s := s) hclosed htest hb hother
    simpa using hcond
  | false =>
    refine (sound_pure (Y := fun no ks => no = none ∧ ks = []) ⟨rfl, rfl⟩).bind
      (fun no g => (hend no).mono ?_) e he hen
    rintro t ks ⟨rfl, s, rfl⟩ ⟨rfl, rfl⟩ ⟨hf, -⟩ hb ⟨js, rfl, htest⟩
    have hcond := Written.cond (s := s) htest hb
    rw [hf]
    simpa using hcond

/-- By the first word, which decides which rule of the grammar it is. -/
theorem reads_statementBody (he : Reads n .expr expr) (hs : Reads n .stmt statement)
    (hclose : ClosesIfs statement) : Reads n .body (statementBody expr statement) := by
  refine sound_byKinds fun k next => ?_
  split
  · next heq =>
    cases heq
    exact ((reads_block hs).map fun b ks hb => .compound hb).at _
  · next heq =>
    cases heq
    exact readsAt_definition (reads_block hs)
  · next heq =>
    cases heq
    exact readsAt_conditional he hs hclose
  · next heq =>
    cases heq
    exact readsAt_whileLoop he hs
  · next heq =>
    cases heq
    exact readsAt_forLoop he hs
  · next heq =>
    cases heq
    exact readsAt_returning he
  · next heq =>
    cases heq
    exact readsAt_jump nofun fun _ _ => .break
  · next heq =>
    cases heq
    exact readsAt_jump nofun fun _ _ => .continue
  · next heq =>
    cases heq
    exact readsAt_writing he
  · refine ((reads_simple he).bind fun t a => sound_endStatement.bind fun _ b => ?_).at k
    refine sound_pure ?_
    rintro rfl ht
    rw [List.append_nil]
    exact .simple ht

end Tree

/-- At every depth, expressions, statements and operands are read as they are written: what is one
level deeper is, and at the limit nothing is read there. -/
theorem reads_tree (n : Nat) :
    Reads n .expr expression ∧ Reads n .stmt statement ∧ Reads n (.operand 6) prefixed := by
  -- The recursion is on the levels that are left, and each reader opens one before it goes on.
  have deeper : n < Cursor.maxDepth → Reads (n + 1) .expr expression ∧
      Reads (n + 1) .stmt statement ∧ Reads (n + 1) (.operand 6) prefixed :=
    fun _ => reads_tree (n + 1)
  have hexpr : Reads n .expr expression := by
    rw [expression_eq]
    exact Reads.nested (Z := fun l e ks => Written l (.expr e) ks)
      (fun hn => reads_disjunction (deeper hn).2.2) fun l e ks => .expr
  have hstmt : Reads n .stmt statement := by
    rw [statement_eq]
    refine Reads.nested (Z := fun l t ks => Written l (.stmt t) ks) (fun hn => ?_) fun l t ks => .stmt
    obtain ⟨he, hs, -⟩ := deeper hn
    exact reads_statementBody he hs (closesIfs_statement fuel)
  refine ⟨hexpr, hstmt, ?_⟩
  rw [prefixed_eq]
  exact reads_operand (fun hn => (deeper hn).2.2) hexpr (reads_block hstmt)
termination_by Cursor.maxDepth - n

theorem reads_statement (n : Nat) : Reads n .stmt statement := (reads_tree n).2.1

/-! ## Whole texts -/

/-- A closing brace that closes nothing is passed over with a complaint. -/
theorem advance_unmatched {c : Cursor} (hc : c.Ended) (hk : c.kind = .symbol .rbrace)
    (message : String) : ((c.complainHere .unexpectedToken message).advance).Ended ∧
      c.log.total < ((c.complainHere .unexpectedToken message).advance).log.total := by
  have hd : (c.complainHere .unexpectedToken message).Ended := hc
  have hne : (c.complainHere .unexpectedToken message).kind ≠ .eof := by
    show c.kind ≠ .eof
    rw [hk]
    nofun
  refine ⟨(hd.advance hne).2, ?_⟩
  rw [Cursor.log_advance]
  exact Nat.lt_succ_self _

/-- A statement that is read leaves fewer words. -/
theorem later_lt_of_quiet {before : List Stmt} {c : Cursor} (hc : c.Ended)
    (hquiet : (statementOrSkip statement before c).2.log.total = c.log.total) :
    (statementOrSkip statement before c).2.later.length < c.later.length := by
  have hread := faithful_statementOrSkip (reads_statement c.depth) before hc rfl
  obtain ⟨_, ks, -, ⟨t, -, ht⟩, hks⟩ := hread.read hquiet
  obtain ⟨k, js, rfl, -⟩ := ht.begins _ rfl
  have hlength := congrArg List.length hks
  simp only [Cursor.kinds, List.length_cons, List.length_append, List.length_map] at hlength
  omega

/-- Enough turns and no complaint lead to the end of the text. -/
theorem faithful_programBody (turns : Nat) : ∀ before c, c.Ended →
    FaithfulList before c (programBody statement turns before c) ∧
    (c.later.length < turns → c.log.total = 0 →
      (programBody statement turns before c).2.log.total = 0 →
        (programBody statement turns before c).2.kind = .eof) := by
  induction turns with
  | zero =>
    exact fun before c hc => ⟨faithfulList_nil before hc, fun h => absurd h (Nat.not_lt_zero _)⟩
  | succ turns ih =>
    intro before c hc
    unfold programBody
    split
    · rename_i hstop
      refine ⟨faithfulList_nil before hc, fun _ hempty _ => ?_⟩
      -- An empty log is not full, so this is the end of the text.
      rcases Bool.or_eq_true_iff.mp hstop with hend | hfull
      · exact eq_of_beq hend
      · rw [Log.isFull, hempty] at hfull
        cases hfull
    · split
      · rename_i hbrace
        obtain ⟨hended, hlogged⟩ := advance_unmatched hc hbrace "unmatched '\x7d'"
        obtain ⟨hrest, -⟩ := ih before _ hended
        have hlt := Nat.lt_of_lt_of_le hlogged hrest.total_le
        refine ⟨.of_logged hrest.ended (hrest.depth.trans (depth_advance _)) hlt, ?_⟩
        exact fun _ _ hquiet => absurd hquiet (Nat.ne_of_gt (Nat.lt_of_le_of_lt (Nat.zero_le _) hlt))
      · have hfirst := faithful_statementOrSkip (reads_statement c.depth) before hc rfl
        have hle : c.log.total ≤ (statementOrSkip statement before c).2.log.total := hfirst.total_le
        obtain ⟨hrest, hreach⟩ := ih (statementOrSkip statement before c).1
          (statementOrSkip statement before c).2 hfirst.ended
        refine ⟨.cons (reads_statement c.depth) hc rfl hrest, fun hturns hempty hquiet => ?_⟩
        -- Each statement has a first word, so there are fewer words and turns left behind it.
        have hzero : (statementOrSkip statement before c).2.log.total = 0 :=
          Nat.le_zero.mp (Nat.le_trans hrest.total_le (Nat.le_of_eq hquiet))
        have hshort := later_lt_of_quiet hc (hzero.trans hempty.symm)
        exact hreach (by omega) hzero hquiet

/-! ## Giving up -/

/-- The readers of the tree, and the words they are called at: those that a word tells are called
there, the others anywhere. -/
inductive Called : Kind → {α : Type} → Reading α → Prop where
  | statement {k : Kind} : Called k statement
  | statementBody {k : Kind} : Called k (statementBody expression statement)
  | block {k : Kind} : Called k (block statement)
  | definition : Called (.keyword .fn) (definition (block statement))
  | conditional : Called (.keyword .if) (conditional expression statement)
  | whileLoop : Called (.keyword .while) (whileLoop expression statement)
  | forLoop : Called (.keyword .for) (forLoop expression statement)
  | returning : Called (.keyword .return) (returning expression)
  | break : Called (.keyword .break) (jump .break)
  | continue : Called (.keyword .continue) (jump .continue)
  | writing : Called (.keyword .write) (writing expression)
  | simple {k : Kind} : Called k (simple expression)
  | condition {k : Kind} : Called k (condition expression)
  | declaration {k : Kind} : Called k (declaration (block statement))
  | params {k : Kind} : Called k (items .rparen parameter)
  | expression {k : Kind} : Called k expression
  | disjunction {k : Kind} : Called k (disjunction prefixed)
  | conjunction {k : Kind} : Called k (conjunction prefixed)
  | coalescing {k : Kind} : Called k (coalescing prefixed)
  | comparison {k : Kind} : Called k (comparison prefixed)
  | additive {k : Kind} : Called k (additive prefixed)
  | multiplicative {k : Kind} : Called k (multiplicative prefixed)
  | prefixed {k : Kind} : Called k prefixed
  | suffixed {k : Kind} : Called k (suffixed expression (block statement))
  | primary {k : Kind} : Called k (primary expression (block statement))
  | parenthesized : Called (.symbol .lparen) (parenthesized expression)
  | listLiteral : Called (.symbol .lbracket) (listLiteral expression)
  | objectLiteral : Called (.keyword .new) (objectLiteral expression)
  | lambda : Called (.keyword .fn) (lambda (block statement))
  | member {k : Kind} : Called k (member expression)
  | items {k : Kind} {close : Symbol} : Called k (items close fun _ => expression)
  | members {k : Kind} : Called k (items .rbrace fun _ => member expression)

/-- What is called behind a word has been proved sound behind it. -/
theorem Called.soundAt {m : Reading α} (h : Called k m) (n : Nat) :
    ∃ Y, SoundAt k n Y m := by
  obtain ⟨he, hs, ho⟩ := reads_tree n
  have hb := reads_block hs
  have hclose := closesIfs_statement fuel
  cases h with
  | statement => exact ⟨_, hs.at k⟩
  | statementBody => exact ⟨_, (reads_statementBody he hs hclose).at k⟩
  | block => exact ⟨_, hb.at k⟩
  | definition => exact ⟨_, readsAt_definition hb⟩
  | conditional => exact ⟨_, readsAt_conditional he hs hclose⟩
  | whileLoop => exact ⟨_, readsAt_whileLoop he hs⟩
  | forLoop => exact ⟨_, readsAt_forLoop he hs⟩
  | returning => exact ⟨_, readsAt_returning he⟩
  | «break» => exact ⟨_, readsAt_jump nofun fun _ _ => .break⟩
  | «continue» => exact ⟨_, readsAt_jump nofun fun _ _ => .continue⟩
  | writing => exact ⟨_, readsAt_writing he⟩
  | simple => exact ⟨_, (reads_simple he).at k⟩
  | condition => exact ⟨_, (reads_condition he).at k⟩
  | declaration => exact ⟨_, (reads_declaration hb).at k⟩
  | params => exact ⟨_, (sound_items sound_parameter .rparen).at k⟩
  | expression => exact ⟨_, he.at k⟩
  | disjunction => exact ⟨_, (reads_disjunction ho).at k⟩
  | conjunction => exact ⟨_, (reads_conjunction ho).at k⟩
  | coalescing => exact ⟨_, (reads_coalescing ho).at k⟩
  | comparison => exact ⟨_, (reads_comparison ho).at k⟩
  | additive => exact ⟨_, (reads_additive ho).at k⟩
  | multiplicative => exact ⟨_, (reads_multiplicative ho).at k⟩
  | prefixed => exact ⟨_, ho.at k⟩
  | suffixed => exact ⟨_, (reads_suffixed he hb).at k⟩
  | primary => exact ⟨_, (reads_primary he hb).at k⟩
  | parenthesized => exact ⟨_, readsAt_parenthesized he⟩
  | listLiteral => exact ⟨_, readsAt_listLiteral he⟩
  | objectLiteral => exact ⟨_, readsAt_objectLiteral he⟩
  | lambda => exact ⟨_, readsAt_lambda hb⟩
  | member => exact ⟨_, (sound_member he).at k⟩
  | items => exact ⟨_, (sound_items (fun _ => he) _).at k⟩
  | members => exact ⟨_, (sound_items (fun _ => sound_member he) .rbrace).at k⟩

end Reading

/-! ## Texts without complaints -/

/-- A token list with one end that is read without a complaint is, up to that end, a written form
of the program read from it.  Wherever a reader is called and gives up, and wherever a statement is
dropped from a list, a complaint has been logged. -/
theorem read_as_written :
    (∀ doc tokens ks, tokens.map Token.kind = ks ++ [.eof] → .eof ∉ ks →
      (Parse.ofTokens doc tokens).log.hasErrors = false →
        Written Cursor.maxDepth (.stmts (Parse.ofTokens doc tokens).program.stmts) ks) ∧
    (∀ (k : Kind) (α : Type) (m : Reading α) (c : Cursor), Reading.Called k m → c.Ended →
      c.kind = k → (m c).1 = none → c.log.total < (m c).2.log.total) ∧
    (∀ (before : List Stmt) (c : Cursor), c.Ended →
      (∀ t, (Reading.statementOrSkip Reading.statement before c).1 ≠ t :: before) →
        c.log.total < (Reading.statementOrSkip Reading.statement before c).2.log.total) := by
  refine ⟨fun doc tokens ks hks hnot hquiet => ?_, fun k α m c hcalled hc hk hnone => ?_,
    fun before c hc hdropped => ?_⟩
  · have hkinds := Cursor.kinds_ofTokens doc hks
    have hc : (Cursor.ofTokens doc tokens).Ended := ⟨ks, hkinds, hnot⟩
    have hempty : (Cursor.ofTokens doc tokens).log.total = 0 := by rw [Cursor.log_ofTokens]; rfl
    have hzero : (Parse.ofTokens doc tokens).log.total = 0 :=
      Nat.eq_zero_of_not_pos (of_decide_eq_false hquiet)
    obtain ⟨hread, hreach⟩ :=
      Reading.faithful_programBody (Cursor.ofTokens doc tokens).turns [] _ hc
    have hend := hread.ended.kinds_of_eof (hreach (Nat.lt_succ_self _) hempty hzero)
    obtain ⟨_, js, ⟨⟩, ⟨us, hus, hwritten⟩, hjs⟩ := hread.read (hzero.trans hempty.symm)
    rw [hend, hkinds] at hjs
    rw [List.append_cancel_right hjs]
    rw [Parse.stmts_ofTokens, hus, List.append_nil, List.reverse_reverse]
    rw [Cursor.depth_ofTokens] at hwritten
    exact hwritten
  · obtain ⟨Y, hsound⟩ := hcalled.soundAt c.depth
    exact (hsound c hc rfl hk).logged hnone
  · have hread := Reading.faithful_statementOrSkip (Reading.reads_statement c.depth) before hc rfl
    rcases Nat.lt_or_eq_of_le hread.total_le with hlt | heq
    · exact hlt
    · obtain ⟨_, _, ⟨⟩, ⟨t, ht, -⟩, -⟩ := hread.read heq.symm
      exact absurd ht (hdropped t)

/-- The words of `f((x),);`, which has parentheses and a comma to spare. -/
def spareWords : List Kind :=
  [.identifier "f", .symbol .lparen, .symbol .lparen, .identifier "x", .symbol .rparen,
    .symbol .comma, .symbol .rparen, .symbol .semicolon]

theorem spareWords_written :
    let doc : Document := { name := "", text := "" }
    let tokens : List Token := (spareWords ++ [Kind.eof]).map fun k => ⟨k, default⟩
    let nothing := Cursor.ofTokens doc [⟨.eof, default⟩]
    Written Cursor.maxDepth (.stmts (Parse.ofTokens doc tokens).program.stmts) spareWords ∧
      nothing.log.total < (Reading.expression nothing).2.log.total ∧
      nothing.log.total < (Reading.statementOrSkip Reading.statement [] nothing).2.log.total := by
  intro doc tokens nothing
  obtain ⟨hread, hcalled, hdropped⟩ := read_as_written
  have hended : nothing.Ended := ⟨[], rfl, List.not_mem_nil⟩
  have hquiet : (Parse.ofTokens doc tokens).log.hasErrors = false := by decide +kernel
  have hnone : (Reading.expression nothing).1.isNone = true := by decide +kernel
  have hnil : (Reading.statementOrSkip Reading.statement [] nothing).1.isEmpty = true := by
    decide +kernel
  refine ⟨hread doc tokens spareWords rfl (by decide) hquiet, ?_, ?_⟩
  · exact hcalled .eof Expr _ _ .expression hended rfl (Option.isNone_iff_eq_none.mp hnone)
  · refine hdropped [] nothing hended fun t ht => ?_
    rw [ht] at hnil
    cases hnil

end SmallScript
