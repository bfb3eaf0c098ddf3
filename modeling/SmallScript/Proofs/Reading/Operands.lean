/-
  Readers of expressions take the words that are written for an expression.

  The reader of one level of operators reads as many operands as there are operators between them,
  so the words of a left operand are no closed part of what it reads.  What can be said of them is
  that the reader comes to stand behind them with that operand, where it may go on with another
  operator: this is `Resumes`.  Where no operator of the level follows it cannot, and then it takes
  those words and no more (`Resumes.takes`).

  There is one lemma for each rule of the grammar.  What is read is compared under `Expr.plain`,
  since its spans and node numbers are those of the text.
-/
import SmallScript.Proofs.Reading.Rendering
import SmallScript.Proofs.Reading.Takes

namespace SmallScript

namespace Reading

/-! ## The readers of the levels -/

/-- The level at which a word joins what stands in front of it. -/
def joinLevel : Kind → Option Nat
  | .keyword .or => some 0
  | .keyword .and => some 1
  | .symbol .question => some 2
  | .symbol .eqEq | .symbol .bangEq | .symbol .less | .symbol .lessEq | .symbol .greater
  | .symbol .greaterEq => some 3
  | .symbol .plus | .symbol .minus => some 4
  | .symbol .star | .symbol .slash | .symbol .percent => some 5
  | .symbol .lparen | .symbol .dot => some 7
  | _ => none

/-- The word cannot join an operand of level `l` or tighter: what it joins is looser. -/
def Stops (l : Nat) (k : Kind) : Prop := ∀ i, joinLevel k = some i → i < l

/-- What ends a level ends those that bind tighter. -/
theorem Stops.mono {l m : Nat} {k : Kind} (hk : Stops l k) (hlm : l ≤ m) : Stops m k :=
  fun i hi => Nat.lt_of_lt_of_le (hk i hi) hlm

/-- How the words that join at level `l` join. -/
def joinAt : Nat → Kind → Option (Expr → Expr → Expr)
  | 0 => fun k => if k = .keyword .or then some (joined (.logical · .or)) else none
  | 1 => fun k => if k = .keyword .and then some (joined (.logical · .and)) else none
  | 2 => fun k => if k = .symbol .question then some (joined .coalesce) else none
  | 4 => fun k => (additiveOp? k).map fun op => joined (.binary · op)
  | 5 => fun k => (multiplicativeOp? k).map fun op => joined (.binary · op)
  | _ => fun _ => none

/-- The reader of operands of level `l`. -/
def levelReader : Nat → Reading Expr
  | 0 => disjunction prefixed
  | 1 => conjunction prefixed
  | 2 => coalescing prefixed
  | 3 => comparison prefixed
  | 4 => additive prefixed
  | 5 => multiplicative prefixed
  | 6 => prefixed
  | 7 => suffixed expression (block statement)
  | _ => primary expression (block statement)

/-- What the reader of level `l` does behind the operand `e`. -/
def resume (l : Nat) (turns : Nat) (e : Expr) : Reading Expr :=
  if l = 7 then suffixes expression turns e
  else chainFrom (joinAt l) (levelReader (l + 1)) turns e

/-- The levels whose readers go on as long as there are operators. -/
abbrev Chained (l : Nat) : Prop := l = 0 ∨ l = 1 ∨ l = 2 ∨ l = 4 ∨ l = 5

/-- The reader of a level of operators is a chain over the next level. -/
theorem levelReader_chained {l : Nat} (hl : Chained l) :
    levelReader l = chain (joinAt l) (levelReader (l + 1)) := by
  rcases hl with rfl | rfl | rfl | rfl | rfl <;> rfl

theorem resume_chained {l : Nat} (hl : Chained l) (turns : Nat) (e : Expr) :
    resume l turns e = chainFrom (joinAt l) (levelReader (l + 1)) turns e := by
  unfold resume
  rw [if_neg (by omega)]

/-- The symbol of an operator goes on with its level. -/
theorem joinLevel_symbol (op : BinaryOp) : joinLevel (.symbol op.symbol) = some op.level := by
  cases op with
  | arith op => cases op <;> rfl
  | order op => cases op <;> rfl
  | _ => rfl

/-- A word that joins at a level is of that level. -/
theorem joinLevel_of_joinAt {l : Nat} {k : Kind} {join : Expr → Expr → Expr}
    (h : joinAt l k = some join) : joinLevel k = some l := by
  have single : ∀ {i : Nat} {k' : Kind} {join' : Expr → Expr → Expr}, joinLevel k' = some i →
      (if k = k' then some join' else none) = some join → joinLevel k = some i := by
    intro i k' join' hi hjoin
    split at hjoin
    · rename_i hk
      rw [hk]
      exact hi
    · cases hjoin
  unfold joinAt at h
  split at h
  · exact single rfl h
  · exact single rfl h
  · exact single rfl h
  · obtain ⟨op, hop, -⟩ := Option.map_eq_some_iff.mp h
    obtain ⟨rfl, hlevel⟩ := additiveOp?_eq_some hop
    rw [joinLevel_symbol, hlevel]
  · obtain ⟨op, hop, -⟩ := Option.map_eq_some_iff.mp h
    obtain ⟨rfl, hlevel⟩ := multiplicativeOp?_eq_some hop
    rw [joinLevel_symbol, hlevel]
  · cases h

/-- What ends comparisons is no operator of theirs. -/
theorem comparisonOp?_eq_none {k : Kind} (hk : Stops 3 k) : comparisonOp? k = none := by
  unfold comparisonOp?
  split <;> first | rfl | exact absurd (hk 3 rfl) (Nat.lt_irrefl 3)

/-- Before a word of another level a chain is at its end. -/
theorem chainFrom_done {l turns : Nat} {e : Expr} {operand : Reading Expr} {c : Cursor}
    (hc : joinAt l c.kind = none) : chainFrom (joinAt l) operand turns e c = (some e, c) := by
  cases turns with
  | zero => rfl
  | succ turns =>
    rw [chainFrom, look_bind, hc]
    rfl

/-- Before a word that cannot join it, an operand is at its end. -/
theorem resume_done {l turns : Nat} {e : Expr} {c : Cursor} (hc : Stops l c.kind) :
    resume l turns e c = (some e, c) := by
  unfold resume
  split
  · rename_i hl
    cases turns with
    | zero => rfl
    | succ turns =>
      rw [suffixes, look_bind]
      rw [hl] at hc
      generalize c.kind = k at hc
      split
      · exact absurd (hc 7 rfl) (Nat.lt_irrefl 7)
      · exact absurd (hc 7 rfl) (Nat.lt_irrefl 7)
      · rfl
  · refine chainFrom_done ?_
    cases hjoin : joinAt l c.kind with
    | none => rfl
    | some join => exact absurd (hc l (joinLevel_of_joinAt hjoin)) (Nat.lt_irrefl l)

/-! ## Operands -/

/-- What may stand behind an operand of level `l` for its reader to come to the end of it.  An
operator of the level may, except that a second comparison would be a complaint. -/
def Behind (l : Nat) : Kind → Prop := Stops (if l = 3 then 3 else l + 1)

/-- The reader of level `l`, begun before the words `ks`, comes to stand behind them with an operand
that looks like `e`, where it may go on. -/
def Resumes (l h : Nat) (e : Expr) (ks : List Kind) : Prop :=
  ∀ c rest, c.kinds = ks ++ rest → Follows (Behind l) rest → c.Ready h →
    ∃ e' d turns, levelReader l c = resume l turns e' d ∧ e'.plain = e.plain ∧
      d.kinds.length ≤ turns ∧ c.Reached rest d

/-- The reader of level `l` takes the words `ks` for the operand `e`. -/
abbrev TakesOperand (l h : Nat) (e : Expr) (ks : List Kind) : Prop :=
  Takes (levelReader l) h (fun e' => e'.plain = e.plain) (Stops l) ks

section Operands

variable {l h : Nat} {e : Expr} {ks js : List Kind}

/-- What ends a level may stand behind its operands. -/
theorem behind_of_stops {k : Kind} (hk : Stops l k) : Behind l k := by
  unfold Behind
  split
  · rename_i hl
    exact hl ▸ hk
  · exact hk.mono (Nat.le_succ l)

/-- What stands behind an operand ends all that binds tighter. -/
theorem stops_of_behind {k : Kind} (hk : Behind l k) : Stops (l + 1) k := by
  unfold Behind at hk
  split at hk
  · rename_i hl
    exact hk.mono (by omega)
  · exact hk

/-- Where no operator of the level follows, the reader does not go on. -/
theorem Resumes.takes (hw : Resumes l h e ks) : TakesOperand l h e ks := by
  intro c rest hc hrest hready
  obtain ⟨e', d, turns, hread, he, -, hd⟩ := hw c rest hc (hrest.mono fun _ => behind_of_stops) hready
  obtain ⟨k, is, rfl, hk⟩ := hrest
  rw [resume_done (Cursor.kind_of_kinds hd.kinds ▸ hk)] at hread
  exact ⟨e', d, hread, he, hd⟩

/-- An operand of the next level is one of a level whose reader begins with one. -/
theorem Resumes.of_chained (hl : Chained l) (hw : TakesOperand (l + 1) h e ks) :
    Resumes l h e ks := by
  intro c rest hc hrest hready
  obtain ⟨e', d, hread, he, hd⟩ := hw c rest hc (hrest.mono fun _ => stops_of_behind) hready
  refine ⟨e', d, d.turns, ?_, he, Nat.le_of_eq d.turns_eq.symm, hd⟩
  rw [levelReader_chained hl, resume_chained hl, chain, bind_of_some hread]
  rfl

/-- A reader that joins operands goes on with the next one. -/
theorem Resumes.join {a b : Expr} {k : Kind} {join : Expr → Expr → Expr} (hl : Chained l)
    (hjoin : joinAt l k = some join) (ha : Resumes l h a ks) (hb : TakesOperand (l + 1) h b js)
    (he : ∀ a' b', a'.plain = a.plain → b'.plain = b.plain → (join a' b').plain = e.plain) :
    Resumes l h e (ks ++ k :: js) := by
  intro c rest hc hrest hready
  rw [List.append_assoc] at hc
  have hk : Behind l k := by
    unfold Behind
    rw [if_neg (by omega)]
    intro i hi
    rw [joinLevel_of_joinAt hjoin] at hi
    cases hi
    exact Nat.lt_succ_self l
  obtain ⟨a', d, turns, hread, ha', hturns, hd⟩ := ha c _ hc (follows_cons hk) hready
  -- One turn is taken for the operator, which is one word less to come.
  obtain ⟨turns, rfl⟩ := Cursor.exists_turn hturns
  rw [hd.kinds] at hturns
  have hd' : d.Reached (js ++ rest) d.advance := Cursor.reached_advance hd.kinds
    (List.append_ne_nil_of_right_ne_nil js hrest.ne_nil)
  obtain ⟨b', e', hb', hbplain, he'⟩ := hb d.advance rest hd'.kinds
    (hrest.mono fun _ => stops_of_behind) (hd'.ready (hd.ready hready))
  refine ⟨join a' b', e', turns, ?_, he a' b' ha' hbplain, ?_, (hd.trans hd').trans he'⟩
  · rw [hread, resume_chained hl, resume_chained hl, chainFrom, look_bind,
      Cursor.kind_of_kinds hd.kinds, hjoin]
    show (token >>= _) d = _
    have htoken : token d = (some d.current, d.advance) := rfl
    rw [bind_of_some htoken, bind_of_some hb']
  · rw [he'.kinds]
    simp only [List.cons_append, List.length_cons, List.length_append] at hturns
    omega

/-- A level that is not read on takes its words as a whole. -/
theorem Resumes.of_takes (hl : ¬ Chained l) (hl7 : l ≠ 7)
    (hw : Takes (levelReader l) h (fun e' => e'.plain = e.plain) (Behind l) ks) :
    Resumes l h e ks := by
  intro c rest hc hrest hready
  obtain ⟨e', d, hread, he, hd⟩ := hw c rest hc hrest hready
  refine ⟨e', d, d.kinds.length, ?_, he, Nat.le_refl _, hd⟩
  have hnone : joinAt l d.kind = none := by
    unfold joinAt
    split <;> first | rfl | exact absurd (by decide) hl
  rw [hread, resume, if_neg hl7, chainFrom_done hnone]

/-! ## Comparisons -/

/-- A comparison without an operator is its operand. -/
theorem takes_additive (hw : TakesOperand 4 h e ks) :
    Takes (comparison prefixed) h (fun e' => e'.plain = e.plain) (Behind 3) ks := by
  refine hw.bind_nil (fun _ => stops_of_behind) fun left hleft => takes_byKindBehind fun k hk => ?_
  rw [comparisonOp?_eq_none hk]
  exact takes_pure hleft

/-- With an operator it takes one more operand, and no other comparison. -/
theorem takes_comparison {a b : Expr} {op : BinaryOp} {s : Span} (hop : op.level = 3)
    (ha : TakesOperand 4 h a ks) (hb : TakesOperand 4 h b js) :
    Takes (comparison prefixed) h (fun e' => e'.plain = (Expr.binary s op a b).plain) (Behind 3)
      (ks ++ .symbol op.symbol :: js) := by
  have hstop : Stops 4 (.symbol op.symbol) := by
    intro i hi
    rw [joinLevel_symbol, hop] at hi
    cases hi
    decide
  refine ha.bind (heads_cons hstop) fun left hleft => takes_byKind ?_
  rw [comparisonOp?_symbol hop]
  refine takes_token fun _ => hb.bind_nil (fun _ => stops_of_behind) fun right hright => ?_
  refine takes_move (S := Stops 3) (fun c hc => ?_) (heads_nil fun _ hk => hk) (takes_pure ?_)
  · rw [comparisonOp?_eq_none hc]
    rfl
  · show Expr.binary default op left.plain right.plain = Expr.binary default op a.plain b.plain
    rw [hleft, hright]

/-! ## Prefix operators -/

/-- What begins with no prefix is an expression with suffixes. -/
theorem takes_suffixed {k : Kind} (hk : ∀ op : UnaryOp, k ≠ op.kind)
    (hw : TakesOperand 7 h e (k :: ks)) :
    Takes prefixed h (fun e' => e'.plain = e.plain) (Behind 6) (k :: ks) := by
  rw [prefixed_eq]
  refine takes_byKind ?_
  have hnone : unaryOp? k = none := by
    cases hop : unaryOp? k with
    | none => rfl
    | some op => exact absurd (unaryOp?_eq_some hop) (hk op)
  rw [hnone]
  exact hw.mono (fun _ => id) fun _ => stops_of_behind

/-- A prefix takes one level of nesting for its operand. -/
theorem takes_unary {op : UnaryOp} {s : Span} (hw : TakesOperand 6 h e ks) :
    Takes prefixed (h + 1) (fun e' => e'.plain = (Expr.unary s op e).plain) (Behind 6)
      (op.kind :: ks) := by
  -- No word joins at level 6, so what may stand behind an operand with a prefix operator stops it.
  have hbehind : ∀ k, Behind 6 k → Stops 6 k := by
    intro k hk i hi
    have hlt := stops_of_behind hk i hi
    unfold joinLevel at hi
    split at hi <;> cases hi <;> omega
  rw [prefixed_eq]
  refine takes_byKind ?_
  rw [unaryOp?_kind]
  refine takes_tokenSpan fun start => hw.nested.bind_nil hbehind fun inner hinner => ?_
  refine takes_pure ?_
  show Expr.unary default op inner.plain = Expr.unary default op e.plain
  rw [hinner]

end Operands

/-! ## Items -/

/-- The word is no part of an expression and begins none. -/
def Ends (k : Kind) : Prop := joinLevel k = none ∧ k.startsExpr = false

/-- What ends an expression ends every level. -/
theorem Ends.stops {k : Kind} (hk : Ends k) (l : Nat) : Stops l k := by
  intro i hi
  rw [hk.1] at hi
  cases hi

/-- The reader of expressions takes the words `ks` for `e`. -/
abbrev TakesExpr (h : Nat) (e : Expr) (ks : List Kind) : Prop :=
  Takes expression h (fun e' => e'.plain = e.plain) (Stops 0) ks

/-- The words `ks` are one item, which begins as an expression does. -/
def ItemWords (h : Nat) (_ : List Expr) (e : Expr) (ks : List Kind) : Prop :=
  (∃ k js, ks = k :: js ∧ k.startsExpr = true) ∧ TakesExpr h e ks

def MemberWords (h : Nat) (_ : List Member) (m : Member) (ks : List Kind) : Prop :=
  ∃ js, ks = .identifier m.name.name :: .symbol .colon :: js ∧ TakesExpr h m.value js

def ParamWords (before : List String) (x : String) (ks : List Kind) : Prop :=
  ks = [.identifier x] ∧ x ∉ before

section Items

variable {h : Nat} {ks : List Kind} {T : Kind → Prop}

/-- Expressions with commas are read as items. -/
theorem takes_expressions {close : Symbol} {es : List Expr} (hclose : close ≠ .comma)
    (hends : Ends (.symbol close)) (hes : Separated (ItemWords h) [] es ks) :
    Takes (items close fun _ => expression) h
      (fun es' => es'.map Expr.plain = es.map Expr.plain) T (ks ++ [.symbol close]) := by
  refine takes_items (S := Stops 0) hclose nofun (hends.stops 0) (fun _ _ e ks _ he => ?_) hes
  obtain ⟨⟨k, js, rfl, hk⟩, htakes⟩ := he
  refine ⟨⟨k, js, rfl, fun hkclose => ?_⟩, htakes⟩
  rw [hkclose, hends.2] at hk
  cases hk

/-- A member is a name, a colon and an expression. -/
theorem takes_member {m : Member} {js : List Kind} (hvalue : TakesExpr h m.value js) :
    Takes (member expression) h (fun m' => m'.plain = m.plain) (Stops 0)
      (.identifier m.name.name :: .symbol .colon :: js) := by
  refine takes_identifier fun x hx => takes_expect ?_
  refine hvalue.bind_nil (fun _ => id) fun value hvalue' => takes_pure ?_
  obtain ⟨y, e⟩ := m
  show Member.mk ⟨x.name, default⟩ value.plain = Member.mk ⟨y.name, default⟩ e.plain
  rw [hx, hvalue']

/-- Members with commas are read as items. -/
theorem takes_members {ms : List Member} (hms : Separated (MemberWords h) [] ms ks) :
    Takes (items .rbrace fun _ => member expression) h
      (fun ms' => ms'.map Member.plain = ms.map Member.plain) T (ks ++ [.symbol .rbrace]) := by
  refine takes_items (S := Stops 0) (by decide) nofun (Ends.stops ⟨rfl, rfl⟩ 0)
    (fun _ _ m ks _ hm => ?_) hms
  obtain ⟨js, rfl, hvalue⟩ := hm
  exact ⟨⟨_, _, rfl, nofun⟩, takes_member hvalue⟩

/-- A parameter that is not there already is read without a complaint. -/
theorem takes_parameter {before : List String} {x : String} (hx : x ∉ before) :
    Takes (parameter before) h (fun y => id y = id x) T [.identifier x] := by
  refine takes_identifier fun y hy => ?_
  refine takes_move (S := Any) (fun c _ => ?_) (heads_nil fun _ _ => trivial) (takes_pure hy)
  have hnew : before.contains y.name = false := by
    rw [hy, ← Bool.not_eq_true, List.contains_iff_mem]
    exact hx
  rw [hnew]
  rfl

/-- So are parameters that are all different. -/
theorem takes_params {xs : List String} (hxs : Separated ParamWords [] xs ks) :
    Takes (items .rparen parameter) h (fun ys => ys = xs) T (ks ++ [.symbol .rparen]) := by
  have htakes : Takes (items .rparen parameter) h (fun ys => ys.map id = xs.map id) T
      (ks ++ [.symbol .rparen]) := by
    refine takes_items (S := Any) (by decide) trivial trivial
      (fun before before' x ks heq hx => ?_) hxs
    obtain ⟨rfl, hnew⟩ := hx
    rw [List.map_id, List.map_id] at heq
    exact ⟨⟨_, _, rfl, nofun⟩, takes_parameter (heq ▸ hnew)⟩
  refine htakes.mono (fun ys hys => ?_) fun _ => id
  rw [List.map_id, List.map_id] at hys
  exact hys

end Items

/-! ## Calls and properties -/

section Suffixes

variable {h : Nat} {e : Expr} {ks js : List Kind}

/-- What stands alone may be followed by anything that joins it. -/
theorem Resumes.of_primary
    (hw : Takes (primary expression (block statement)) h (fun e' => e'.plain = e.plain) Any ks) :
    Resumes 8 h e ks :=
  .of_takes (by decide) (by decide) (hw.mono (fun _ => id) fun _ _ => trivial)

/-- An expression that stands alone is resumed with its suffixes. -/
theorem Resumes.suffixed (hw : TakesOperand 8 h e ks) : Resumes 7 h e ks := by
  intro c rest hc hrest hready
  obtain ⟨e', d, hread, he, hd⟩ := hw c rest hc (hrest.mono fun _ => stops_of_behind) hready
  refine ⟨e', d, d.turns, ?_, he, Nat.le_of_eq d.turns_eq.symm, hd⟩
  show (primary expression (block statement) >>= _) c = _
  have hread : primary expression (block statement) c = (some e', d) := hread
  rw [bind_of_some hread]
  rfl

/-- The reader of calls and properties goes on with one more of them. -/
theorem Resumes.suffix {a : Expr} {k : Kind} (hk : joinLevel k = some 7) (ha : Resumes 7 h a ks)
    (hstep : ∀ a' : Expr, a'.plain = a.plain → ∀ turns, ∀ d rest, d.kinds = k :: js ++ rest →
      rest ≠ [] → d.Ready h → ∃ e' d', suffixes expression (turns + 1) a' d =
        suffixes expression turns e' d' ∧ e'.plain = e.plain ∧ d.Reached rest d') :
    Resumes 7 h e (ks ++ k :: js) := by
  intro c rest hc hrest hready
  rw [List.append_assoc] at hc
  have hbehind : Behind 7 k := by
    intro i hi
    rw [hk] at hi
    cases hi
    decide
  obtain ⟨a', d, turns, hread, ha', hturns, hd⟩ := ha c _ hc (follows_cons hbehind) hready
  -- One turn is taken for the word that joins.
  obtain ⟨turns, rfl⟩ := Cursor.exists_turn hturns
  rw [hd.kinds, List.cons_append, List.length_cons, List.length_append] at hturns
  obtain ⟨e', d', hstep, he, hd'⟩ :=
    hstep a' ha' turns d rest hd.kinds hrest.ne_nil (hd.ready hready)
  refine ⟨e', d', turns, ?_, he, ?_, hd.trans hd'⟩
  · rw [hread]
    exact hstep
  · rw [hd'.kinds]
    omega

/-- A property goes on behind a point. -/
theorem Resumes.property {s : Span} {x : Ident} (he : Resumes 7 h e ks) :
    Resumes 7 h (.property s e x) (ks ++ [.symbol .dot, .identifier x.name]) := by
  refine he.suffix rfl fun a' ha' turns d rest hd hrest hready => ?_
  have hdot : d.Reached (.identifier x.name :: rest) d.advance :=
    Cursor.reached_advance hd (List.cons_ne_nil _ _)
  have hname : d.advance.Reached rest d.advance.advance := Cursor.reached_advance hdot.kinds hrest
  have htoken : token d = (some d.current, d.advance) := rfl
  have hread := identifier_of_kind (Cursor.kind_of_kinds hdot.kinds)
  refine ⟨.property (a'.span.cover d.advance.current.span) a' ⟨x.name, d.advance.current.span⟩,
    d.advance.advance, ?_, ?_, hdot.trans hname⟩
  · rw [suffixes, look_bind, Cursor.kind_of_kinds hd]
    show (token >>= _) d = _
    rw [bind_of_some htoken, bind_of_some hread]
  · show Expr.property default a'.plain ⟨x.name, default⟩ = Expr.property default e.plain _
    rw [ha']

/-- A call goes on behind a parenthesis. -/
theorem Resumes.call {s : Span} {es : List Expr} (he : Resumes 7 h e ks)
    (hes : Separated (ItemWords h) [] es js) :
    Resumes 7 h (.call s e es) (ks ++ .symbol .lparen :: js ++ [.symbol .rparen]) := by
  rw [List.append_assoc]
  refine Resumes.suffix (k := .symbol .lparen) rfl he fun a' ha' turns d rest hd hrest hready => ?_
  have hparen : d.Reached (js ++ [.symbol .rparen] ++ rest) d.advance :=
    Cursor.reached_advance hd (List.append_ne_nil_of_right_ne_nil _ hrest)
  have htoken : token d = (some d.current, d.advance) := rfl
  obtain ⟨k, is, rfl⟩ := List.exists_cons_of_ne_nil hrest
  obtain ⟨es', d', hread, hes', hd'⟩ := takes_expressions (T := Any) (by decide) ⟨rfl, rfl⟩ hes
    d.advance _ hparen.kinds (follows_cons trivial) (hparen.ready hready)
  have hlast : Reading.previous d' = (some d'.previous, d') := rfl
  refine ⟨.call (a'.span.cover d'.previous) a' es', d', ?_, ?_, hparen.trans hd'⟩
  · rw [suffixes, look_bind, Cursor.kind_of_kinds hd]
    show (token >>= _) d = _
    rw [bind_of_some htoken, bind_of_some hread, bind_of_some hlast]
  · simp only [Expr.plain, plainItems_eq, ha', hes']

end Suffixes

/-! ## Expressions that stand alone -/

abbrev TakesDecl (h : Nat) (d : FnDecl) (ks : List Kind) : Prop :=
  Takes (declaration (block statement)) h (fun d' => d'.plain = d.plain) Any ks

abbrev TakesBlock (h : Nat) (b : Block) (ks : List Kind) : Prop :=
  Takes (block statement) h (fun b' => b'.plain = b.plain) Any ks

/-- The words `ks` are read as `e` where an expression stands alone. -/
abbrev TakesPrimary (h : Nat) (e : Expr) (ks : List Kind) : Prop :=
  Takes (primary expression (block statement)) h (fun e' => e'.plain = e.plain) Any ks

section Primary

variable {h : Nat} {e : Expr} {ks js : List Kind} {s : Span} {id : NodeId}

/-- Parameters and a body. -/
theorem takes_declaration {xs : List String} {b : Block} (hxs : Separated ParamWords [] xs ks)
    (hb : TakesBlock h b js) : TakesDecl h ⟨xs, b⟩ (.symbol .lparen :: ks ++ .symbol .rparen :: js) := by
  rw [List.append_cons]
  refine takes_expect ((takes_params hxs).bind heads_any fun xs' hxs' => ?_)
  refine hb.bind_nil (fun _ _ => trivial) fun b' hb' => takes_pure ?_
  show FnDecl.mk xs' b'.plain = FnDecl.mk xs b.plain
  rw [hxs', hb']

/-- A literal is one word. -/
theorem takes_literal {make : Span → NodeId → String → Expr} {raw : String} {k : Kind}
    (hmake : ∀ s id, (make s id raw).plain = e.plain) :
    Takes (literal make raw) h (fun e' => e'.plain = e.plain) Any [k] :=
  takes_tokenSpan fun s => takes_freshId fun id => takes_pure (hmake s id)

theorem takes_atom {make : Span → Expr} {k : Kind} (hmake : ∀ s, (make s).plain = e.plain) :
    Takes (atom make) h (fun e' => e'.plain = e.plain) Any [k] :=
  takes_tokenSpan fun s => takes_pure (hmake s)

/-- The span of an expression is forgotten when it is compared. -/
theorem plain_withSpan (s : Span) (e : Expr) : (e.withSpan s).plain = e.plain := by
  cases e <;> rfl

/-- Any expression stands in parentheses. -/
theorem takes_parenthesized (he : TakesExpr h e ks) :
    TakesPrimary h (e.withSpan s) (.symbol .lparen :: ks ++ [.symbol .rparen]) := by
  refine takes_byKind (takes_tokenSpan fun start => he.bind (heads_cons nofun) fun inner hinner => ?_)
  refine takes_expect (takes_look fun last => takes_pure ?_)
  rw [plain_withSpan, plain_withSpan, hinner]

/-- Items stand in brackets. -/
theorem takes_listLiteral {es : List Expr} (hes : Separated (ItemWords h) [] es ks) :
    TakesPrimary h (.list s id es) (.symbol .lbracket :: ks ++ [.symbol .rbracket]) := by
  refine takes_byKind (takes_tokenSpan fun start => takes_freshId fun id' => ?_)
  refine (takes_expressions (by decide) ⟨rfl, rfl⟩ hes).bind_nil (fun _ hk => hk) fun es' hes' => ?_
  refine takes_look fun last => takes_pure ?_
  simp only [Expr.plain, plainItems_eq, hes']

/-- Members stand in braces. -/
theorem takes_objectLiteral {ms : List Member} (hms : Separated (MemberWords h) [] ms ks) :
    TakesPrimary h (.object s ms)
      (.keyword .new :: .symbol .lbrace :: ks ++ [.symbol .rbrace]) := by
  refine takes_byKind (takes_tokenSpan fun start => takes_expect ?_)
  refine (takes_members hms).bind_nil (fun _ hk => hk) fun ms' hms' => ?_
  refine takes_look fun last => takes_pure ?_
  simp only [Expr.plain, plainMembers_eq, hms']

theorem takes_lambda {d : FnDecl} (hd : TakesDecl h d ks) :
    TakesPrimary h (.lambda s d) (.keyword .fn :: ks) := by
  refine takes_byKind (takes_tokenSpan fun start => ?_)
  refine hd.bind_nil (fun _ hk => hk) fun d' hd' => takes_look fun last => takes_pure ?_
  simp only [Expr.plain, hd']

end Primary

end Reading

end SmallScript
