/-
  Two texts read side by side.

  A `Junction` is where two texts that are the same so far may part: there the first one ends and the
  second goes on.  `J.Agrees b p n g m m'` says of two readers at depth `n` that the second does on its
  text what the first does on the first text, with results related by `g`.  It says so only of readings
  of the first text that are clear of the junction: nothing is complained about, and the reading ends
  before the junction, or, where `b` holds, at the junction at the latest.  For a reader of expressions
  that ends at the junction has seen the end of the text there, where the second text may go on with an
  operator; but a statement that ends there is complete whatever follows, unless it is an `else`.

  The same notion serves two texts without a junction.  Then it speaks of all readings, and what is
  left to differ is how nodes are numbered and which token was read last before the two began.  `p` says
  that the token read last was the same; once a token has been read, it always is.

  There is one lemma for each step and each way of building a reader.
-/
import SmallScript.Proofs.Reading.Progress

namespace SmallScript

/-! ## Shifted numbers -/

mutual

/-- The same expression with every number raised by `k`. -/
def Expr.shift (k : Nat) : Expr → Expr
  | .int s id raw => .int s (id + k) raw
  | .float s id raw => .float s (id + k) raw
  | .string s id raw => .string s (id + k) raw
  | .bool s value => .bool s value
  | .null s => .null s
  | .list s id items => .list s (id + k) (shiftItems k items)
  | .object s members => .object s (shiftMembers k members)
  | .name s x => .name s x
  | .property s target x => .property s (target.shift k) x
  | .call s callee args => .call s (callee.shift k) (shiftItems k args)
  | .lambda s decl => .lambda s (decl.shift k)
  | .binary s op left right => .binary s op (left.shift k) (right.shift k)
  | .unary s op operand => .unary s op (operand.shift k)
  | .logical s op left right => .logical s op (left.shift k) (right.shift k)
  | .coalesce s left right => .coalesce s (left.shift k) (right.shift k)

def shiftItems (k : Nat) : List Expr → List Expr
  | [] => []
  | e :: es => e.shift k :: shiftItems k es

def Member.shift (k : Nat) : Member → Member
  | ⟨x, value⟩ => ⟨x, value.shift k⟩

def shiftMembers (k : Nat) : List Member → List Member
  | [] => []
  | m :: ms => m.shift k :: shiftMembers k ms

def FnDecl.shift (k : Nat) : FnDecl → FnDecl
  | ⟨params, body⟩ => ⟨params, body.shift k⟩

def Block.shift (k : Nat) : Block → Block
  | ⟨stmts, s⟩ => ⟨shiftStmts k stmts, s⟩

def shiftStmts (k : Nat) : List Stmt → List Stmt
  | [] => []
  | t :: ts => t.shift k :: shiftStmts k ts

/-- The same statement with every number raised by `k`. -/
def Stmt.shift (k : Nat) : Stmt → Stmt
  | .expr value => .expr (value.shift k)
  | .assign s x value => .assign s x (value.shift k)
  | .assignProperty s target x value => .assignProperty s (target.shift k) x (value.shift k)
  | .define s id x decl => .define s (id + k) x (decl.shift k)
  | .cond s test yes none => .cond s (test.shift k) (yes.shift k) none
  | .cond s test yes (some no) => .cond s (test.shift k) (yes.shift k) (some (no.shift k))
  | .while s test body => .while s (test.shift k) (body.shift k)
  | .for s init test step body =>
    .for s (init.shift k) (test.shift k) (step.shift k) (body.shift k)
  | .break s => .break s
  | .continue s => .continue s
  | .return s none => .return s none
  | .return s (some value) => .return s (some (value.shift k))
  | .write s value => .write s (value.shift k)
  | .block b => .block (b.shift k)

end

section Shift

variable (k : Nat)

/-- The nested lists of a tree are shifted member by member. -/
theorem shiftItems_eq (es : List Expr) : shiftItems k es = es.map (Expr.shift k) := by
  induction es with
  | nil => rfl
  | cons e es ih => rw [shiftItems, ih, List.map_cons]

theorem shiftMembers_eq (ms : List Member) : shiftMembers k ms = ms.map (Member.shift k) := by
  induction ms with
  | nil => rfl
  | cons m ms ih => rw [shiftMembers, ih, List.map_cons]

theorem shiftStmts_eq (ts : List Stmt) : shiftStmts k ts = ts.map (Stmt.shift k) := by
  induction ts with
  | nil => rfl
  | cons t ts ih => rw [shiftStmts, ih, List.map_cons]

/-- Numbers say nothing about places. -/
@[simp] theorem Expr.span_shift (e : Expr) : (e.shift k).span = e.span := by
  cases e <;> rfl

/-- A shift touches numbers, and spans are something else. -/
theorem Expr.shift_withSpan (s : Span) (e : Expr) :
    (e.withSpan s).shift k = (e.shift k).withSpan s := by
  cases e <;> rfl

/-- The parts of a literal are shifted with it. -/
theorem Expr.shift_list (s : Span) (id : NodeId) (es : List Expr) :
    (Expr.list s id es).shift k = .list s (id + k) (es.map (Expr.shift k)) := by
  rw [Expr.shift, shiftItems_eq]

/-- So are the arguments of a call. -/
theorem Expr.shift_call (s : Span) (callee : Expr) (es : List Expr) :
    (Expr.call s callee es).shift k = .call s (callee.shift k) (es.map (Expr.shift k)) := by
  rw [Expr.shift, shiftItems_eq]

/-- An object literal is shifted in its members. -/
theorem Expr.shift_object (s : Span) (ms : List Member) :
    (Expr.object s ms).shift k = .object s (ms.map (Member.shift k)) := by
  rw [Expr.shift, shiftMembers_eq]

/-- A block is shifted in its statements. -/
theorem Block.shift_mk (ts : List Stmt) (s : Span) :
    (Block.mk ts s).shift k = ⟨ts.map (Stmt.shift k), s⟩ := by
  rw [Block.shift, shiftStmts_eq]

/-- An `else` that is missing is missing behind a shift. -/
theorem Stmt.shift_cond (s : Span) (test : Expr) (yes : Stmt) (no : Option Stmt) :
    (Stmt.cond s test yes no).shift k =
      .cond s (test.shift k) (yes.shift k) (no.map (Stmt.shift k)) := by
  cases no <;> rw [Stmt.shift] <;> rfl

theorem Stmt.shift_return (s : Span) (value : Option Expr) :
    (Stmt.return s value).shift k = .return s (value.map (Expr.shift k)) := by
  cases value <;> rw [Stmt.shift] <;> rfl

end Shift

mutual

/-- Raising by nothing changes nothing. -/
theorem Expr.shift_zero : ∀ e : Expr, e.shift 0 = e
  | .int _ _ _ | .float _ _ _ | .string _ _ _ | .bool _ _ | .null _ | .name _ _ => rfl
  | .list _ _ items => by rw [Expr.shift, shiftItems_zero items]; rfl
  | .object _ members => by rw [Expr.shift, shiftMembers_zero members]
  | .property _ target _ => by rw [Expr.shift, target.shift_zero]
  | .call _ callee args => by rw [Expr.shift, callee.shift_zero, shiftItems_zero args]
  | .lambda _ decl => by rw [Expr.shift, decl.shift_zero]
  | .binary _ _ left right => by rw [Expr.shift, left.shift_zero, right.shift_zero]
  | .unary _ _ operand => by rw [Expr.shift, operand.shift_zero]
  | .logical _ _ left right => by rw [Expr.shift, left.shift_zero, right.shift_zero]
  | .coalesce _ left right => by rw [Expr.shift, left.shift_zero, right.shift_zero]

/-- Raising by nothing does not change the items of a list. -/
theorem shiftItems_zero : ∀ es : List Expr, shiftItems 0 es = es
  | [] => rfl
  | e :: es => by rw [shiftItems, e.shift_zero, shiftItems_zero es]

theorem Member.shift_zero : ∀ m : Member, m.shift 0 = m
  | ⟨_, value⟩ => by rw [Member.shift, value.shift_zero]

/-- Nor does it change members. -/
theorem shiftMembers_zero : ∀ ms : List Member, shiftMembers 0 ms = ms
  | [] => rfl
  | m :: ms => by rw [shiftMembers, m.shift_zero, shiftMembers_zero ms]

/-- A function is not changed. -/
theorem FnDecl.shift_zero : ∀ d : FnDecl, d.shift 0 = d
  | ⟨_, body⟩ => by rw [FnDecl.shift, body.shift_zero]

theorem Block.shift_zero : ∀ b : Block, b.shift 0 = b
  | ⟨stmts, _⟩ => by rw [Block.shift, shiftStmts_zero stmts]

theorem shiftStmts_zero : ∀ ts : List Stmt, shiftStmts 0 ts = ts
  | [] => rfl
  | t :: ts => by rw [shiftStmts, t.shift_zero, shiftStmts_zero ts]

/-- A statement is not changed, by recursion along the tree. -/
theorem Stmt.shift_zero : ∀ t : Stmt, t.shift 0 = t
  | .expr value => by rw [Stmt.shift, value.shift_zero]
  | .assign _ _ value => by rw [Stmt.shift, value.shift_zero]
  | .assignProperty _ target _ value => by rw [Stmt.shift, target.shift_zero, value.shift_zero]
  | .define _ _ _ decl => by rw [Stmt.shift, decl.shift_zero]; rfl
  | .cond _ test yes none => by rw [Stmt.shift, test.shift_zero, yes.shift_zero]
  | .cond _ test yes (some no) => by
    rw [Stmt.shift, test.shift_zero, yes.shift_zero, no.shift_zero]
  | .while _ test body => by rw [Stmt.shift, test.shift_zero, body.shift_zero]
  | .for _ init test step body => by
    rw [Stmt.shift, init.shift_zero, test.shift_zero, step.shift_zero, body.shift_zero]
  | .break _ | .continue _ | .return _ none => rfl
  | .return _ (some value) => by rw [Stmt.shift, value.shift_zero]
  | .write _ value => by rw [Stmt.shift, value.shift_zero]
  | .block b => by rw [Stmt.shift, b.shift_zero]

end

/-! ## Cursors that move on -/

namespace Cursor

variable {c : Cursor}

/-- Going on drops the current token if another one follows. -/
theorem tokens_advance (h : c.later ≠ []) : c.advance.tokens = c.later := by
  unfold advance
  cases hl : c.later with
  | nil => exact absurd hl h
  | cons t ts => rfl

/-- The last token stays where it is. -/
theorem tokens_advance_of_nil (h : c.later = []) : c.advance.tokens = c.tokens := by
  unfold advance
  split
  · rfl
  · rename_i hl
    rw [h] at hl
    cases hl

/-- The last token is the end. -/
theorem Ended.kind_of_last (hc : c.Ended) (h : c.later = []) : c.kind = .eof := by
  obtain ⟨ks, hks, -⟩ := hc
  unfold kinds at hks
  rw [h] at hks
  cases ks with
  | nil => exact (List.cons.inj hks).1
  | cons k ks => exact absurd (List.cons.inj hks).2.symm (List.append_ne_nil_of_right_ne_nil _ nofun)

theorem doc_advance (c : Cursor) : c.advance.doc = c.doc := by
  unfold advance
  split <;> rfl

/-- The token read last is the one that was current. -/
theorem previous_advance (c : Cursor) : c.advance.previous = c.current.span := by
  unfold advance
  split <;> rfl

end Cursor

/-! ## Junctions -/

/-- Where two texts part: the first goes on with `rest` and the second with `rest'`, and the nodes of
the second are numbered higher by `shift`.  Either there is nothing left to part them, or the first
text ends here and the second does not go on with an `else`. -/
structure Junction where
  rest : List Token
  rest' : List Token
  shift : Nat
  parts : rest = [] ∧ rest' = [] ∨
    (∃ e : Token, e.kind = .eof ∧ rest = [e]) ∧ ∃ t ts, rest' = t :: ts ∧ t.kind ≠ .keyword .else

namespace Junction

/-- There is nothing that parts the texts. -/
def Seamless (J : Junction) : Prop := J.rest = [] ∧ J.rest' = []

/-- The second cursor stands in the second text as the first one does in the first text. -/
structure Beside (J : Junction) (p : Prop) (c c' : Cursor) : Prop where
  doc : c'.doc = c.doc
  tokens : ∃ ls, c.tokens = ls ++ J.rest ∧ c'.tokens = ls ++ J.rest'
  previous : p → c'.previous = c.previous
  log : c'.log = c.log
  nextId : c'.nextId = c.nextId + J.shift
  depth : c'.depth = c.depth

section Beside

variable {J : Junction} {p q : Prop} {c c' : Cursor}

/-- Cursors whose tokens read last agree may be said to agree in less. -/
theorem Beside.mono (h : J.Beside p c c') (hpq : q → p) : J.Beside q c c' :=
  ⟨h.doc, h.tokens, fun hq => h.previous (hpq hq), h.log, h.nextId, h.depth⟩

/-- The second text is at least as long. -/
theorem length_rest_le (J : Junction) : J.rest.length ≤ J.rest'.length := by
  rcases J.parts with ⟨hrest, hrest'⟩ | ⟨⟨e, -, hrest⟩, t, ts, hrest', -⟩
  · rw [hrest, hrest']
  · rw [hrest, hrest']
    exact Nat.succ_le_succ (Nat.zero_le _)

/-- So the second reader may make at least as many turns. -/
theorem Beside.turns_le (h : J.Beside p c c') : c.turns ≤ c'.turns := by
  obtain ⟨ls, hls, hls'⟩ := h.tokens
  rw [← c.length_tokens, ← c'.length_tokens, hls, hls', List.length_append, List.length_append]
  exact Nat.add_le_add_left J.length_rest_le _

/-- Before the junction both cursors stand before the same token, and the same tokens follow up to
the junction. -/
theorem Beside.next (h : J.Beside p c c') (hgo : J.Seamless ∨ c.kind ≠ .eof) :
    c'.current = c.current ∧ ∃ ls, c.later = ls ++ J.rest ∧ c'.later = ls ++ J.rest' := by
  obtain ⟨ls, hls, hls'⟩ := h.tokens
  cases ls with
  | cons t ls =>
    injection hls with hcurrent hlater
    injection hls' with hcurrent' hlater'
    exact ⟨hcurrent'.trans hcurrent.symm, ls, hlater, hlater'⟩
  | nil =>
    -- Here the first text ends.
    rcases J.parts with ⟨hrest, -⟩ | ⟨⟨e, he, hrest⟩, hbehind⟩
    · rw [hrest] at hls
      cases hls
    · rw [hrest] at hls
      injection hls with hcurrent
      obtain ⟨t, ts, hrest', -⟩ := hbehind
      refine absurd ((congrArg Token.kind hcurrent).trans he) (hgo.resolve_left fun hJ => ?_)
      rw [hJ.2] at hrest'
      cases hrest'

/-- Before the junction both readers see the same token. -/
theorem Beside.current (h : J.Beside p c c') (hgo : J.Seamless ∨ c.kind ≠ .eof) :
    c'.current = c.current := (h.next hgo).1

theorem Beside.kind (h : J.Beside p c c') (hgo : J.Seamless ∨ c.kind ≠ .eof) :
    c'.kind = c.kind := congrArg Token.kind (h.current hgo)

theorem Beside.atEnd (h : J.Beside p c c') (hgo : J.Seamless ∨ c.kind ≠ .eof) :
    c'.atEnd = c.atEnd := congrArg (· == .eof) (h.kind hgo)

/-- Going on before the junction, both have the same tokens left up to it. -/
theorem Beside.tokens_advance (h : J.Beside p c c') (hgo : J.Seamless ∨ c.kind ≠ .eof) :
    ∃ ls, c.advance.tokens = ls ++ J.rest ∧ c'.advance.tokens = ls ++ J.rest' := by
  obtain ⟨hcurrent, ls, hls, hls'⟩ := h.next hgo
  by_cases hlast : c.later = []
  · -- The first cursor stays, so there is no junction and the other one stays as well.
    rw [hlast] at hls
    obtain ⟨rfl, hrest⟩ := List.append_eq_nil_iff.1 hls.symm
    rcases J.parts with hJ | ⟨⟨e, -, he⟩, -⟩
    · have hlast' : c'.later = [] := hls'.trans hJ.2
      refine ⟨[c.current], ?_, ?_⟩
      · rw [Cursor.tokens_advance_of_nil hlast, Cursor.tokens, hlast, hrest]
        rfl
      · rw [Cursor.tokens_advance_of_nil hlast', Cursor.tokens, hlast', hcurrent, hJ.2]
        rfl
    · rw [hrest] at he
      cases he
  · refine ⟨ls, (Cursor.tokens_advance hlast).trans hls, (Cursor.tokens_advance ?_).trans hls'⟩
    intro hlast'
    rw [hlast'] at hls'
    obtain ⟨rfl, hrest'⟩ := List.append_eq_nil_iff.1 hls'.symm
    have hle := J.length_rest_le
    rw [hrest'] at hle
    exact hlast (hls.trans (List.length_eq_zero_iff.1 (Nat.le_zero.1 hle)))

/-- Behind the current token both have read the same token last, whatever it was before. -/
theorem Beside.advance (h : J.Beside p c c') (hgo : J.Seamless ∨ c.kind ≠ .eof) :
    J.Beside q c.advance c'.advance := by
  refine ⟨?_, h.tokens_advance hgo, fun _ => ?_, ?_, ?_, ?_⟩
  · rw [c.doc_advance, c'.doc_advance, h.doc]
  · rw [c.previous_advance, c'.previous_advance, h.current hgo]
  · rw [c.log_advance, c'.log_advance, h.log]
  · rw [c.nextId_advance, c'.nextId_advance, h.nextId]
  · rw [Reading.depth_advance, Reading.depth_advance, h.depth]

/-- Two cursors that complain alike stay side by side. -/
theorem Beside.complain (h : J.Beside p c c') (code : Code) (message : String) (span : Span)
    (suggestion : Option String) :
    J.Beside p (c.complain code message span suggestion)
      (c'.complain code message span suggestion) := by
  refine ⟨h.doc, h.tokens, h.previous, ?_, h.nextId, h.depth⟩
  show c'.log.push _ = c.log.push _
  rw [h.log, h.doc]

/-- So do two that complain about a token that both see. -/
theorem Beside.complainHere (h : J.Beside p c c') (hcurrent : c'.current = c.current) (code : Code)
    (message : String) : J.Beside p (c.complainHere code message) (c'.complainHere code message) := by
  unfold Cursor.complainHere
  rw [hcurrent]
  exact h.complain _ _ _ _

end Beside

/-! ## Readers side by side -/

variable {J : Junction} {α β γ δ : Type} {b p : Prop} {k : Kind} {n : Nat}

/-- The outcome of a reading of the second text is that of one of the first, with results related by
`g`. -/
structure Meets (J : Junction) (p : Prop) (g : α → β) (r : Option α × Cursor)
    (r' : Option β × Cursor) : Prop where
  result : r'.1 = r.1.map g
  beside : J.Beside (p ∨ r.1.isSome = true) r.2 r'.2

/-- The outcome of a reading of the first text is clear of the junction: without a complaint, and
before the junction or, if `b` holds, at the junction at the latest. -/
def Clear (J : Junction) (b : Prop) (c : Cursor) (r : Option α × Cursor) : Prop :=
  J.Seamless ∨ r.2.log.total = c.log.total ∧ (b ∨ r.2.kind ≠ .eof)

/-- Unless it has complained, a reader has a result and has skipped no word. -/
abbrev Honest (n : Nat) (m : Reading α) : Prop := Reading.Sound n (fun _ _ => True) m

/-- Where the word `k` comes next, `m'` does on the second text what `m` does on the first. -/
structure AgreesAt (J : Junction) (b p : Prop) (k : Kind) (n : Nat) (g : α → β) (m : Reading α)
    (m' : Reading β) : Prop where
  honest : Reading.SoundAt k n (fun _ _ => True) m
  meets : ∀ c c', c.Ended → c.depth = n → c.kind = k → J.Beside p c c' → J.Clear b c (m c) →
    J.Meets p g (m c) (m' c')

/-- The same wherever they begin. -/
def Agrees (J : Junction) (b p : Prop) (n : Nat) (g : α → β) (m : Reading α) (m' : Reading β) :
    Prop := ∀ k, J.AgreesAt b p k n g m m'

/-- At the end of the text a reader complains. -/
def Stuck (n : Nat) (m : Reading α) : Prop :=
  ∀ c, c.Ended → c.depth = n → c.kind = .eof → c.log.total < (m c).2.log.total

/-- Up to the junction they do the same, and at the end of the text the first complains. -/
structure Tight (J : Junction) (p : Prop) (n : Nat) (g : α → β) (m : Reading α) (m' : Reading β) :
    Prop where
  agrees : J.Agrees True p n g m m'
  stuck : Stuck n m

section Outcomes

variable {c d : Cursor} {Y : α → List Kind → Prop} {r : Option α × Cursor} {m : Reading α}
  {g : α → β} {x : α} {y : β} {c' : Cursor} {r' : Option β × Cursor}

/-- Where the first reader gives up, so does the second. -/
theorem Meets.of_none (h : J.Meets p g (none, d) r') :
    ∃ d', r' = (none, d') ∧ J.Beside p d d' := by
  obtain ⟨y, d'⟩ := r'
  obtain ⟨hresult, hbeside⟩ := h
  exact ⟨d', congrArg (·, d') hresult, hbeside.mono .inl⟩

/-- Where the first reader succeeds, the second does with the related result. -/
theorem Meets.of_some (h : J.Meets p g (some x, d) r') :
    ∃ d', r' = (some (g x), d') ∧ ∀ q, J.Beside q d d' := by
  obtain ⟨y, d'⟩ := r'
  obtain ⟨hresult, hbeside⟩ := h
  exact ⟨d', congrArg (·, d') hresult, fun _ => hbeside.mono fun _ => .inr rfl⟩

theorem Agrees.honest {m' : Reading β} (h : J.Agrees b p n g m m') : Honest n m :=
  fun c hc hn => (h c.kind).honest c hc hn rfl

/-- From the end of the text nothing leads away. -/
theorem kind_of_eof (h : Reading.Faithful Y c r) (hc : c.Ended) (hk : c.kind = .eof)
    (hquiet : r.2.log.total = c.log.total) : r.2.kind = .eof := by
  obtain ⟨x, ks, -, -, hks⟩ := h.read hquiet
  rw [hc.kinds_of_eof hk] at hks
  cases ks with
  | nil => exact (List.cons.inj hks).1.symm
  | cons k ks => exact absurd (List.cons.inj hks).2.symm (List.append_ne_nil_of_right_ne_nil _ nofun)

/-- A reading that complains is clear of the junction only where there is none. -/
theorem Clear.seamless (h : J.Clear b c r) (hlogged : c.log.total < r.2.log.total) :
    J.Seamless := by
  rcases h with hJ | ⟨hquiet, -⟩
  · exact hJ
  · exact absurd hquiet (Nat.ne_of_gt hlogged)

/-- What ends before the junction has begun before it. -/
theorem Clear.before (h : J.Clear False c r) (hread : Reading.Faithful Y c r) (hc : c.Ended) :
    J.Seamless ∨ c.kind ≠ .eof := by
  rcases h with hJ | ⟨hquiet, hend⟩
  · exact .inl hJ
  · exact .inr fun hk => hend.elim id fun hne => hne (kind_of_eof hread hc hk hquiet)

/-- A reader that is stuck at the end of a text has begun before the junction. -/
theorem Clear.before_of_stuck (h : J.Clear b c (m c)) (hm : Stuck n m) (hc : c.Ended)
    (hn : c.depth = n) : J.Seamless ∨ c.kind ≠ .eof := by
  by_cases hk : c.kind = .eof
  · exact .inl (h.seamless (hm c hc hn hk))
  · exact .inr hk

/-- Both readers take a token and go on. -/
theorem meets_advance (hb : J.Beside p c c') (hgo : J.Seamless ∨ c.kind ≠ .eof) (hg : g x = y) :
    J.Meets p g (some x, c.advance) (some y, c'.advance) :=
  ⟨congrArg some hg.symm, hb.advance hgo⟩

/-- Both complain and give up. -/
theorem meets_complain (hb : J.Beside p c c') (code : Code) (message : String) (span : Span)
    (suggestion : Option String) : J.Meets p g (none, c.complain code message span suggestion)
      (none, c'.complain code message span suggestion) :=
  ⟨rfl, (hb.complain _ _ _ _).mono (Or.resolve_right · nofun)⟩

theorem meets_complainHere (hb : J.Beside p c c') (hcurrent : c'.current = c.current) (code : Code)
    (message : String) :
    J.Meets p g (none, c.complainHere code message) (none, c'.complainHere code message) :=
  ⟨rfl, (hb.complainHere hcurrent _ _).mono (Or.resolve_right · nofun)⟩

end Outcomes

/-! ## Ways of building -/

section Build

variable {g : α → β} {h : γ → δ} {m : Reading α} {m' : Reading β} {f : α → Reading γ}
  {f' : β → Reading δ}

/-- A reader whose first part is sound and whose second is honest is honest. -/
theorem honest_bind (hm : Reading.SoundAt k n (fun _ _ => True) m) (hf : ∀ x, Honest n (f x)) :
    Reading.SoundAt k n (fun _ _ => True) (m >>= f) :=
  hm.bind fun x _ => (hf x).mono fun _ _ _ _ => trivial

/-- What follows a reading goes on beside, if the reading was clear of the junction whenever what
follows it is. -/
theorem AgreesAt.bind_of {e : Prop} (hm : J.AgreesAt b p k n g m m')
    (hf : ∀ x, J.Agrees e True n h (f x) (f' (g x)))
    (hclear : ∀ x (d : Cursor), d.Ended → d.depth = n → J.Clear e d (f x d) →
      J.Seamless ∨ b ∨ d.kind ≠ .eof) :
    J.AgreesAt e p k n h (m >>= f) (m' >>= f') := by
  refine ⟨honest_bind hm.honest fun x => (hf x).honest, fun c c' hc hn hk hb hall => ?_⟩
  have hread := hm.honest c hc hn hk
  have hmeets := hm.meets c c' hc hn hk hb
  change J.Clear e c (Reading.bind m f c) at hall
  change J.Meets p h (Reading.bind m f c) (Reading.bind m' f' c')
  unfold Reading.bind at hall ⊢
  rcases hr : m c with ⟨_ | x, d⟩
  · -- The reading has given up and logged why, so there is no junction.
    rw [hr] at hread hmeets hall
    obtain ⟨d', hr', hd⟩ := (hmeets (.inl (hall.seamless (hread.logged rfl)))).of_none
    rw [hr']
    exact ⟨rfl, hd.mono (Or.resolve_right · nofun)⟩
  · rw [hr] at hread hmeets hall
    dsimp only at hall
    have hdn : d.depth = n := hread.depth.trans hn
    have hrest := (hf x).honest d hread.ended hdn
    have hle : c.log.total ≤ d.log.total := hread.total_le
    have hrest' : J.Clear e d (f x d) := by
      refine hall.imp id fun hquiet => ⟨?_, hquiet.2⟩
      have hle' := hrest.total_le
      omega
    have hfirst : J.Clear b c (some x, d) := by
      rcases hall with hJ | ⟨hquiet, -⟩
      · exact .inl hJ
      · have hle' := hrest.total_le
        refine (hclear x d hread.ended hdn hrest').imp id fun hend => ⟨?_, hend⟩
        show d.log.total = c.log.total
        omega
    obtain ⟨d', hr', hd⟩ := (hmeets hfirst).of_some
    rw [hr']
    have hgo := (hf x d.kind).meets d d' hread.ended hdn rfl (hd True) hrest'
    exact ⟨hgo.result, hgo.beside.mono fun _ => .inl trivial⟩

/-- The second parts begin behind tokens that were read, so the tokens read last agree. -/
theorem AgreesAt.bind (hm : J.AgreesAt b p k n g m m')
    (hf : ∀ x, J.Agrees b True n h (f x) (f' (g x))) :
    J.AgreesAt b p k n h (m >>= f) (m' >>= f') := by
  refine hm.bind_of hf fun x d hd hdn hrest => ?_
  rcases hrest with hJ | ⟨hquiet, hb | hend⟩
  · exact .inl hJ
  · exact .inr (.inl hb)
  · exact .inr (.inr fun hk => hend (kind_of_eof ((hf x).honest d hd hdn) hd hk hquiet))

theorem Agrees.bind (hm : J.Agrees b p n g m m')
    (hf : ∀ x, J.Agrees b True n h (f x) (f' (g x))) : J.Agrees b p n h (m >>= f) (m' >>= f') :=
  fun k => (hm k).bind hf

/-- What can only be read before the end of the text may follow any reading. -/
theorem Agrees.bindTight (hm : J.Agrees False p n g m m')
    (hf : ∀ x, J.Tight True n h (f x) (f' (g x))) : J.Tight p n h (m >>= f) (m' >>= f') := by
  refine ⟨fun k => (hm k).bind_of (fun x => (hf x).agrees) fun x d hd hdn hrest => ?_,
    fun c hc hn hk => ?_⟩
  · exact (hrest.before_of_stuck (hf x).stuck hd hdn).imp id .inr
  · have hread := hm.honest c hc hn
    change c.log.total < (Reading.bind m f c).2.log.total
    unfold Reading.bind
    rcases hr : m c with ⟨_ | x, d⟩
    · rw [hr] at hread
      exact hread.logged rfl
    · rw [hr] at hread
      have hdn : d.depth = n := hread.depth.trans hn
      have hle := ((hf x).agrees.honest d hread.ended hdn).total_le
      rcases Nat.lt_or_eq_of_le hread.total_le with hlt | heq
      · exact Nat.lt_of_lt_of_le hlt hle
      · -- The end has not been left, and there what follows complains.
        have hkd : d.kind = .eof := kind_of_eof hread hc hk heq.symm
        exact Nat.lt_of_le_of_lt hread.total_le ((hf x).stuck d hread.ended hdn hkd)

/-- If the first part has to move on, the second may end at the junction. -/
theorem Tight.bind (hm : J.Tight p n g m m') (hf : ∀ x, J.Agrees True True n h (f x) (f' (g x))) :
    J.Tight p n h (m >>= f) (m' >>= f') := by
  refine ⟨hm.agrees.bind hf, fun c hc hn hk => ?_⟩
  have hlt := hm.stuck c hc hn hk
  have hread := hm.agrees.honest c hc hn
  change c.log.total < (Reading.bind m f c).2.log.total
  unfold Reading.bind
  rcases hr : m c with ⟨_ | x, d⟩
  · rw [hr] at hlt
    exact hlt
  · rw [hr] at hlt hread
    exact Nat.lt_of_lt_of_le hlt ((hf x).honest d hread.ended (hread.depth.trans hn)).total_le

/-- Up to the junction includes before the junction. -/
theorem Agrees.loosen (hm : J.Agrees True p n g m m') : J.Agrees b p n g m m' := by
  refine fun k => ⟨(hm k).honest, fun c c' hc hn hk hb hall => ?_⟩
  exact (hm k).meets c c' hc hn hk hb (hall.imp id fun hquiet => ⟨hquiet.1, .inl trivial⟩)

/-- Two readers that read nothing agree if their values are related. -/
theorem agrees_pure {x : α} {y : β} (hg : g x = y) : J.Agrees b True n g (pure x) (pure y) := by
  refine fun k => ⟨(Reading.sound_pure trivial).at k, fun c c' _ _ _ hb _ => ⟨?_, ?_⟩⟩
  · exact congrArg some hg.symm
  · exact hb.mono fun _ => trivial

/-- What is made of the values may be related in another way. -/
theorem Agrees.map {x : γ → δ} {f : α → γ} {f' : β → δ} (hm : J.Agrees b p n g m m')
    (hg : ∀ y, x (f y) = f' (g y)) : J.Agrees b p n x (f <$> m) (f' <$> m') :=
  hm.bind fun y => agrees_pure (hg y)

/-- At the limit both give up with the same complaint, below it one level is entered by both. -/
theorem Agrees.nested (hm : n < Cursor.maxDepth → J.Agrees b p (n + 1) g m m') :
    J.Agrees b p n g (Reading.nested m) (Reading.nested m') := by
  intro k
  refine ⟨(Reading.Sound.nested fun hn => (hm hn).honest).at k, fun c c' hc hn hk hb hall => ?_⟩
  have hdepth := hb.depth
  unfold Reading.nested at hall ⊢
  by_cases hlimit : c.depth < Cursor.maxDepth
  · have hlimit' : c'.depth < Cursor.maxDepth := by rwa [hdepth]
    rw [if_pos hlimit] at hall ⊢
    rw [if_pos hlimit']
    have hin : J.Beside p { c with depth := c.depth + 1 } { c' with depth := c'.depth + 1 } :=
      ⟨hb.doc, hb.tokens, hb.previous, hb.log, hb.nextId, congrArg (· + 1) hdepth⟩
    have hsame := (hm (hn ▸ hlimit) k).meets { c with depth := c.depth + 1 }
      { c' with depth := c'.depth + 1 } hc (congrArg (· + 1) hn) hk hin hall
    obtain ⟨hdoc, htokens, hprevious, hlog, hnextId, hdepth'⟩ := hsame.beside
    exact ⟨hsame.result, hdoc, htokens, hprevious, hlog, hnextId, congrArg (· - 1) hdepth'⟩
  · have hlimit' : ¬ c'.depth < Cursor.maxDepth := by rwa [hdepth]
    rw [if_neg hlimit] at hall ⊢
    rw [if_neg hlimit']
    have hJ : J.Seamless := hall.seamless (Nat.lt_succ_self _)
    exact meets_complainHere hb (hb.current (.inl hJ)) _ _

/-- Turns that are not needed make no difference, so both readers may be given as many. -/
theorem Agrees.turns {m : Nat → Reading α} {m' : Nat → Reading β}
    (hm : ∀ turns, J.Agrees b p n g (m turns) (m' turns))
    (henough : ∀ c, c.Ended → ∀ turns, c.turns ≤ turns → m turns c = m c.turns c) :
    J.Agrees b p n g (Reading.look Cursor.turns >>= m) (Reading.look Cursor.turns >>= m') := by
  intro k
  refine ⟨fun c hc hn hk => (hm c.turns k).honest c hc hn hk, fun c c' hc hn hk hb hall => ?_⟩
  change J.Clear b c (m c.turns c) at hall
  change J.Meets p g (m c.turns c) (m' c'.turns c')
  rw [← henough c hc _ hb.turns_le] at hall ⊢
  exact (hm c'.turns k).meets c c' hc hn hk hb hall

/-- A bound on the turns may differ, as long as both are enough. -/
theorem Tight.turns {m : Nat → Reading α} {m' : Nat → Reading β}
    (hm : ∀ turns, J.Tight p n g (m turns) (m' turns))
    (henough : ∀ c, c.Ended → ∀ turns, c.turns ≤ turns → m turns c = m c.turns c) :
    J.Tight p n g (Reading.look Cursor.turns >>= m) (Reading.look Cursor.turns >>= m') :=
  ⟨Agrees.turns (fun turns => (hm turns).agrees) henough,
    fun c hc hn hk => (hm c.turns).stuck c hc hn hk⟩

/-- The same for readers that stop before the junction. -/
theorem Tight.nested (hm : n < Cursor.maxDepth → J.Tight p (n + 1) g m m') :
    J.Tight p n g (Reading.nested m) (Reading.nested m') := by
  refine ⟨Agrees.nested fun hn => (hm hn).agrees, fun c hc hn hk => ?_⟩
  unfold Reading.nested
  split
  · rename_i hlimit
    exact (hm (hn ▸ hlimit)).stuck { c with depth := c.depth + 1 } hc (congrArg (· + 1) hn) hk
  · exact Nat.lt_succ_self _

end Build

/-! ## Steps -/

section Steps

open Reading

variable {g : α → β} {c c' : Cursor} {x : α} {y : β}

theorem honest_of {Y : α → List Kind → Prop} {m : Reading α} (h : Sound n Y m) :
    Honest n m := h.mono fun _ _ _ => trivial

/-- Reading a word is honest at the end as well, where it stays. -/
theorem honest_advance (hc : c.Ended) (x : α) :
    Faithful (fun _ _ => True) c (some x, c.advance) := by
  by_cases hk : c.kind = .eof
  · have hlater : c.later = [] := by
      have hkinds := hc.kinds_of_eof hk
      injection hkinds with _ hrest
      exact List.map_eq_nil_iff.1 hrest
    have hsame : c.advance.kinds = c.kinds := by
      rw [Cursor.kinds_eq_map, Cursor.tokens_advance_of_nil hlater, ← Cursor.kinds_eq_map]
    refine ⟨?_, depth_advance c, Nat.le_of_eq (congrArg Log.total c.log_advance.symm),
      fun _ => ⟨x, [], rfl, trivial, hsame.symm⟩⟩
    show ∃ ks, c.advance.kinds = _ ∧ _
    rw [hsame]
    exact hc
  · exact (faithful_advance hc rfl hk).mono fun _ _ _ => trivial

/-- Looking at what is the same before the junction. -/
theorem agrees_look {f : Cursor → α} {f' : Cursor → β}
    (hf : ∀ c c', J.Beside True c c' → J.Seamless ∨ c.kind ≠ .eof → g (f c) = f' c') :
    J.Agrees False True n g (look f) (look f') := by
  refine fun k => ⟨(honest_of (sound_look f)).at k, fun c c' hc _ _ hb hall => ?_⟩
  have hgo := hall.before (honest_of (sound_look (n := c.depth) f) c hc rfl) hc
  exact ⟨congrArg some (hf c c' hb hgo).symm, hb.mono fun _ => trivial⟩

/-- Before the junction both see whether a symbol is next. -/
theorem agrees_at? (s : Symbol) :
    J.Agrees False True n id (at? s) (at? s) := by
  refine agrees_look fun c c' hb hgo => ?_
  show decide (c.kind = _) = decide (c'.kind = _)
  rw [hb.kind hgo]

/-- Once a token has been read, both know the same last one. -/
theorem agrees_previous : J.Agrees b True n id previous previous := by
  refine fun k => ⟨(honest_of sound_previous).at k, fun c c' _ _ _ hb _ => ⟨?_, ?_⟩⟩
  · exact congrArg some (hb.previous trivial)
  · exact hb.mono fun _ => trivial

/-- A new node is numbered higher in the second text. -/
theorem agrees_freshId : J.Agrees b True n (· + J.shift) freshId freshId := by
  refine fun k => ⟨(honest_of sound_freshId).at k, fun c c' _ _ _ hb _ => ⟨?_, ?_⟩⟩
  · exact congrArg some hb.nextId
  · refine ⟨hb.doc, hb.tokens, fun _ => hb.previous trivial, hb.log, ?_, hb.depth⟩
    show c'.nextId + 1 = c.nextId + 1 + J.shift
    rw [hb.nextId, Nat.add_right_comm]

/-- Before the junction both take the same token. -/
theorem agrees_token : J.Agrees False p n id token token := by
  refine fun k => ⟨fun c hc _ _ => honest_advance hc c.current, fun c c' hc _ _ hb hall => ?_⟩
  have hgo := hall.before (honest_advance hc c.current) hc
  exact meets_advance hb hgo (hb.current hgo).symm

theorem agrees_tokenSpan : J.Agrees False p n id tokenSpan tokenSpan := by
  refine fun k => ⟨fun c hc _ _ => honest_advance hc c.current.span,
    fun c c' hc _ _ hb hall => ?_⟩
  have hgo := hall.before (honest_advance hc c.current.span) hc
  exact meets_advance hb hgo (congrArg Token.span (hb.current hgo).symm)

/-- A word is no end, so a reader that begins with it may end at the junction. -/
theorem agreesAt_tokenSpan {f : Span → Reading α} {f' : Span → Reading β} (hne : k ≠ .eof)
    (hf : ∀ s, J.Agrees b True n g (f s) (f' s)) :
    J.AgreesAt b p k n g (tokenSpan >>= f) (tokenSpan >>= f') := by
  have hword : J.AgreesAt b p k n id tokenSpan tokenSpan := by
    refine ⟨fun c hc _ _ => honest_advance hc c.current.span, fun c c' _ _ hk hb _ => ?_⟩
    have hgo : J.Seamless ∨ c.kind ≠ .eof := .inr (hk ▸ hne)
    exact meets_advance hb hgo (congrArg Token.span (hb.current hgo).symm)
  exact hword.bind hf

/-- What reads one symbol, or else complains, stops right where another word stands. -/
theorem tight_symbol {s : Symbol} {m : Reading Unit} {otherwise : Cursor → Cursor}
    (hm : ∀ c, m c = if c.kind = .symbol s then (some (), c.advance) else (none, otherwise c))
    (hhonest : ∀ n, Honest n m) (hlogged : ∀ c : Cursor, c.log.total < (otherwise c).log.total)
    (hother : ∀ c c', J.Beside p c c' → c'.current = c.current →
      J.Meets p id ((none, otherwise c) : Option Unit × Cursor) (none, otherwise c')) :
    J.Tight p n id m m := by
  refine ⟨fun k => ⟨(hhonest n).at k, fun c c' _ _ _ hb hall => ?_⟩, fun c _ _ hk => ?_⟩
  · rw [hm] at hall
    rw [hm, hm]
    by_cases hs : c.kind = .symbol s
    · have hgo : J.Seamless ∨ c.kind ≠ .eof := .inr (hs ▸ nofun)
      rw [if_pos hs, if_pos ((hb.kind hgo).trans hs)]
      exact meets_advance hb hgo rfl
    · rw [if_neg hs] at hall ⊢
      have hgo : J.Seamless ∨ c.kind ≠ .eof := .inl (hall.seamless (hlogged c))
      rw [hb.kind hgo, if_neg hs]
      exact hother c c' hb (hb.current hgo)
  · rw [hm, if_neg (hk ▸ nofun)]
    exact hlogged c

/-- A symbol that is there is taken by both; without it, both complain. -/
theorem tight_expect (s : Symbol) : J.Tight p n id (expect s) (expect s) := by
  refine tight_symbol (fun _ => rfl) (fun _ => honest_of (sound_expect s))
    (fun c => Nat.lt_succ_self _) fun c c' hb hcurrent => ?_
  have hkind : c'.kind = c.kind := congrArg Token.kind hcurrent
  rw [hkind]
  exact meets_complainHere hb hcurrent _ _

/-- The same for the semicolon behind a statement. -/
theorem tight_endStatement :
    J.Tight p n id endStatement endStatement := by
  refine tight_symbol (fun _ => rfl) (fun _ => honest_of sound_endStatement)
    (fun c => Nat.lt_succ_self _) fun c c' hb hcurrent => ?_
  have hkind : c'.kind = c.kind := congrArg Token.kind hcurrent
  rw [hkind, hcurrent]
  exact meets_complain hb _ _ _ _

/-- The same for a name. -/
theorem tight_identifier : J.Tight p n id identifier identifier := by
  refine ⟨fun k => ⟨(honest_of sound_identifier).at k, fun c c' _ _ _ hb hall => ?_⟩,
    fun c _ _ hk => ?_⟩
  · by_cases hgo : J.Seamless ∨ c.kind ≠ .eof
    · have hcurrent := hb.current hgo
      unfold identifier
      rw [hb.kind hgo]
      split
      · rw [hcurrent]
        exact meets_advance hb hgo rfl
      · exact meets_complainHere hb hcurrent _ _
      · exact meets_complainHere hb hcurrent _ _
    · obtain ⟨hJ, hk⟩ := not_or.1 hgo
      refine absurd (hall.seamless ?_) hJ
      unfold identifier
      rw [not_not.1 hk]
      exact Nat.lt_succ_self _
  · unfold identifier
    rw [hk]
    exact Nat.lt_succ_self _

/-- A symbol that may be missing must be looked for before the junction. -/
theorem agrees_eat (s : Symbol) : J.Agrees False True n id (eat s) (eat s) := by
  refine fun k => ⟨(honest_of (sound_eat s)).at k, fun c c' hc _ _ hb hall => ?_⟩
  have hgo := hall.before (honest_of (sound_eat (n := c.depth) s) c hc rfl) hc
  unfold eat
  rw [hb.kind hgo]
  split
  · exact meets_advance hb hgo rfl
  · exact ⟨rfl, hb.mono fun _ => trivial⟩

/-- Where the first text has come to its end, the second one is at the junction. -/
theorem Beside.at_junction (hb : J.Beside p c c') (hc : c.Ended) (hk : c.kind = .eof)
    (hJ : ¬ J.Seamless) : c'.tokens = J.rest' := by
  obtain ⟨ls, hls, hls'⟩ := hb.tokens
  obtain ⟨⟨e, -, hrest⟩, -⟩ := J.parts.resolve_left hJ
  have hone : c.tokens.length = 1 := by
    have hlength := congrArg List.length (hc.kinds_of_eof hk)
    rwa [Cursor.kinds_eq_map, List.length_map] at hlength
  rw [hls, List.length_append, hrest, List.length_singleton] at hone
  rw [hls', List.eq_nil_of_length_eq_zero (Nat.succ.inj hone), List.nil_append]

/-- An `else` behind the junction would belong to the statement before it. -/
theorem agrees_eatElse :
    J.Agrees True True n id (eatKeyword .else) (eatKeyword .else) := by
  refine fun k => ⟨fun c hc _ _ => (faithful_eatKeyword hc _).mono fun _ _ _ => trivial,
    fun c c' hc _ _ hb _ => ?_⟩
  have hstay : J.Meets True id (some false, c) (some false, c') := ⟨rfl, hb.mono fun _ => trivial⟩
  unfold eatKeyword
  by_cases hgo : J.Seamless ∨ c.kind ≠ .eof
  · rw [hb.kind hgo]
    split
    · exact meets_advance hb hgo rfl
    · exact hstay
  · obtain ⟨hJ, hk⟩ := not_or.1 hgo
    have hend : c.kind = .eof := not_not.1 hk
    obtain ⟨-, t, ts, hrest', ht⟩ := J.parts.resolve_left hJ
    have htokens := (hb.at_junction hc hend hJ).trans hrest'
    injection htokens with hcurrent
    have hno : c'.kind ≠ .keyword .else := fun hk' => ht (hcurrent ▸ hk')
    rw [if_neg (hend ▸ nofun), if_neg hno]
    exact hstay

/-- Both complain about the token that they see. -/
theorem agrees_refuse (code : Code) (message : Kind → String) :
    J.Agrees False p n g (refuse code message) (refuse code message) := by
  refine fun k => ⟨(sound_refuse code message).at k, fun c c' hc _ _ hb hall => ?_⟩
  have hread : Honest c.depth (refuse (α := α) code message) := sound_refuse _ _
  have hgo := hall.before (hread c hc rfl) hc
  unfold refuse
  rw [hb.kind hgo]
  exact meets_complainHere hb (hb.current hgo) _ _

/-- A complaint about a span does not depend on what follows. -/
theorem agrees_complain (code : Code) (message : String) (span : Span)
    (suggestion : Option String) : J.Agrees b p n g
      (fun c => (none, c.complain code message span suggestion))
      (fun c => (none, c.complain code message span suggestion)) :=
  fun _ => ⟨fun _ hc _ _ => faithful_complain hc _ _ _ _,
    fun _ _ _ _ _ hb _ => meets_complain hb _ _ _ _⟩

/-- Complaining in some cases, which the current token tells, and reading on. -/
theorem agrees_complainIf (P : Token → Bool) (code : Code) (message : String)
    (span : Token → Span) : J.Agrees False True n id
      (move fun c =>
        if P c.current then c.complain code message (span c.current) none else c)
      (move fun c =>
        if P c.current then c.complain code message (span c.current) none else c) := by
  have hhonest : ∀ c, c.Ended → Faithful (fun _ _ => True) c (move (fun c =>
      if P c.current then c.complain code message (span c.current) none else c) c) := fun c hc =>
    (faithful_complainIf hc (fun c => P c.current) code message
      fun c => span c.current).mono fun _ _ _ => trivial
  refine fun k => ⟨fun c hc _ _ => hhonest c hc, fun c c' hc _ _ hb hall => ?_⟩
  have hgo := hall.before (hhonest c hc) hc
  refine ⟨rfl, ?_⟩
  show J.Beside _ (if P c.current then _ else c) (if P c'.current then _ else c')
  rw [hb.current hgo]
  split
  · exact (hb.complain _ _ _ _).mono fun _ => trivial
  · exact hb.mono fun _ => trivial

/-- A reader that looks at the next word agrees if it does so at every word. -/
theorem agrees_byKind {f : Kind → Reading α} {f' : Kind → Reading β}
    (h : ∀ k, J.Agrees False p n g (f k) (f' k)) :
    J.Agrees False p n g (look Cursor.kind >>= f) (look Cursor.kind >>= f') := by
  refine fun k => ⟨fun c hc hn hk => (h c.kind k).honest c hc hn hk, fun c c' hc hn hk hb hall => ?_⟩
  change J.Clear False c (f c.kind c) at hall
  change J.Meets p g (f c.kind c) (f' c'.kind c')
  rw [hb.kind (hall.before ((h c.kind k).honest c hc hn hk) hc)]
  exact (h c.kind k).meets c c' hc hn hk hb hall

/-- The span of a symbol may be looked at before the symbol is read. -/
theorem tight_expectSpan {s : Symbol} {f : Span → Reading α} {f' : Span → Reading β}
    (hf : ∀ span, J.Agrees True True n g (f span) (f' span)) :
    J.Tight p n g (do let start ← look (·.current.span); expect s; f start)
      (do let start ← look (·.current.span); expect s; f' start) := by
  have hall : ∀ span, J.Tight p n g (expect s >>= fun _ => f span)
      (expect s >>= fun _ => f' span) :=
    fun span => (tight_expect s).bind fun _ => hf span
  refine ⟨fun k => ⟨fun c hc hn hk => ((hall c.current.span).agrees k).honest c hc hn hk,
    fun c c' hc hn hk hb hclear => ?_⟩, fun c hc hn hk => (hall c.current.span).stuck c hc hn hk⟩
  have hgo := Clear.before_of_stuck (m := expect s >>= fun _ => f c.current.span) hclear
    (hall c.current.span).stuck hc hn
  show J.Meets p g _ ((expect s >>= fun _ => f' c'.current.span) c')
  rw [hb.current hgo]
  exact ((hall c.current.span).agrees k).meets c c' hc hn hk hb hclear

end Steps

end Junction

end SmallScript
