/-
  How nodes are numbered.

  Numbers are handed out in the order of the text, and each of them once.  A statement that is given
  up takes its numbers with it; so the numbers of a program are some of those that were handed out, in
  their order (`numbers_ascend`), and if nothing was complained about they are all of them.

  As for the words of a text there is one lemma for each step and each way of building a reader, and
  then an induction on the levels of nesting that are left.
-/
import Mathlib.Data.List.Range
import SmallScript.Proofs.Evaluation.Restoration
import SmallScript.Proofs.Reading.Faithful

namespace SmallScript

/-! ## The parts of a program -/

mutual

/-- The expressions and statements in an expression, in the order of the text. -/
def Expr.inner : Expr → List Part
  | .list _ _ items => itemsParts items
  | .object _ members => membersParts members
  | .property _ target _ => .expr target :: target.inner
  | .call _ callee args => .expr callee :: (callee.inner ++ itemsParts args)
  | .lambda _ decl => decl.inner
  | .binary _ _ left right => .expr left :: (left.inner ++ .expr right :: right.inner)
  | .unary _ _ operand => .expr operand :: operand.inner
  | .logical _ _ left right => .expr left :: (left.inner ++ .expr right :: right.inner)
  | .coalesce _ left right => .expr left :: (left.inner ++ .expr right :: right.inner)
  | .int _ _ _ | .float _ _ _ | .string _ _ _ | .bool _ _ | .null _ | .name _ _ => []

def itemsParts : List Expr → List Part
  | [] => []
  | e :: es => .expr e :: (e.inner ++ itemsParts es)

def Member.inner : Member → List Part
  | ⟨_, value⟩ => .expr value :: value.inner

def membersParts : List Member → List Part
  | [] => []
  | m :: ms => m.inner ++ membersParts ms

def FnDecl.inner : FnDecl → List Part
  | ⟨_, body⟩ => body.inner

def Block.inner : Block → List Part
  | ⟨stmts, _⟩ => stmtsParts stmts

def stmtsParts : List Stmt → List Part
  | [] => []
  | t :: ts => .stmt t :: (t.inner ++ stmtsParts ts)

/-- The expressions and statements in a statement, in the order of the text. -/
def Stmt.inner : Stmt → List Part
  | .expr e => .expr e :: e.inner
  | .assign _ _ value => .expr value :: value.inner
  | .assignProperty _ target _ value =>
    .expr target :: (target.inner ++ .expr value :: value.inner)
  | .define _ _ _ decl => decl.inner
  | .cond _ test yes none => .expr test :: (test.inner ++ .stmt yes :: yes.inner)
  | .cond _ test yes (some no) =>
    .expr test :: (test.inner ++ .stmt yes :: (yes.inner ++ .stmt no :: no.inner))
  | .while _ test body => .expr test :: (test.inner ++ .stmt body :: body.inner)
  | .for _ init test step body =>
    .stmt init :: (init.inner ++ .expr test :: (test.inner ++
      .stmt step :: (step.inner ++ .stmt body :: body.inner)))
  | .return _ (some value) => .expr value :: value.inner
  | .write _ value => .expr value :: value.inner
  | .block b => b.inner
  | .break _ | .continue _ | .return _ none => []

end

/-- All expressions and statements of a program, in the order of the text. -/
def Program.parts (p : Program) : List Part := stmtsParts p.stmts

/-- The number of a node, if it has one. -/
def Part.id? : Part → Option NodeId
  | .expr (.int _ id _) | .expr (.float _ id _) | .expr (.string _ id _)
  | .expr (.list _ id _) => some id
  | .stmt (.define _ id _ _) => some id
  | _ => none

/-- The numbers of some nodes. -/
def numbers (ps : List Part) : List NodeId := ps.filterMap Part.id?

/-- The numbers of an expression and of what is in it. -/
def Expr.numbers (e : Expr) : List NodeId := SmallScript.numbers (.expr e :: e.inner)

def Stmt.numbers (t : Stmt) : List NodeId := SmallScript.numbers (.stmt t :: t.inner)

def FnDecl.numbers (d : FnDecl) : List NodeId := SmallScript.numbers d.inner

def Block.numbers (b : Block) : List NodeId := SmallScript.numbers b.inner

/-- The numbers of a program. -/
def Program.numbers (p : Program) : List NodeId := SmallScript.numbers p.parts

@[simp] theorem numbers_nil : numbers [] = [] := rfl

/-- The numbers of parts in a row are those of the parts, in their order. -/
@[simp] theorem numbers_append (ps qs : List Part) : numbers (ps ++ qs) = numbers ps ++ numbers qs :=
  List.filterMap_append

/-- An expression and the parts inside it hold the numbers of the expression. -/
@[simp] theorem numbers_expr_cons (e : Expr) (ps : List Part) :
    numbers (.expr e :: (e.inner ++ ps)) = e.numbers ++ numbers ps :=
  numbers_append (.expr e :: e.inner) ps

@[simp] theorem numbers_stmt_cons (t : Stmt) (ps : List Part) :
    numbers (.stmt t :: (t.inner ++ ps)) = t.numbers ++ numbers ps :=
  numbers_append (.stmt t :: t.inner) ps

theorem numbers_stmt (t : Stmt) : numbers (.stmt t :: t.inner) = t.numbers := rfl

/-- The items of a list literal hold their numbers one after the other. -/
theorem numbers_itemsParts (es : List Expr) :
    numbers (itemsParts es) = (es.map Expr.numbers).flatten := by
  induction es with
  | nil => rfl
  | cons e es ih =>
    rw [itemsParts, numbers_expr_cons, ih]
    rfl

/-- So do the members of an object literal. -/
theorem numbers_membersParts (ms : List Member) :
    numbers (membersParts ms) = (ms.map fun m => m.value.numbers).flatten := by
  induction ms with
  | nil => rfl
  | cons m ms ih =>
    obtain ⟨x, e⟩ := m
    rw [membersParts, numbers_append, ih]
    rfl

/-- So do the statements of a block. -/
theorem numbers_stmtsParts (ts : List Stmt) :
    numbers (stmtsParts ts) = (ts.map Stmt.numbers).flatten := by
  induction ts with
  | nil => rfl
  | cons t ts ih =>
    rw [stmtsParts, numbers_stmt_cons, ih]
    rfl

/-- A number belongs to a node whatever the span of the node. -/
@[simp] theorem Expr.numbers_withSpan (s : Span) (e : Expr) : (e.withSpan s).numbers = e.numbers := by
  cases e <;> rfl

/-! ## Handing out numbers -/

namespace Cursor

/-- The numbers that were handed out between two cursors. -/
def handed (c d : Cursor) : List NodeId := List.range' c.nextId (d.nextId - c.nextId)

/-- Numbers and complaints are only added. -/
structure Onward (c d : Cursor) : Prop where
  depth : d.depth = c.depth
  nextId : c.nextId ≤ d.nextId
  total : c.log.total ≤ d.log.total

variable {c d e : Cursor}

theorem Onward.refl (c : Cursor) : c.Onward c := ⟨rfl, Nat.le_refl _, Nat.le_refl _⟩

/-- A cursor only moves on: numbers and complaints become more. -/
theorem Onward.trans (hd : c.Onward d) (he : d.Onward e) : c.Onward e :=
  ⟨he.depth.trans hd.depth, Nat.le_trans hd.nextId he.nextId, Nat.le_trans hd.total he.total⟩

/-- What is handed out on the way is what is handed out on each part of it. -/
theorem handed_append (hd : c.Onward d) (he : d.Onward e) : c.handed d ++ d.handed e = c.handed e := by
  have hc : c.nextId + (d.nextId - c.nextId) = d.nextId := Nat.add_sub_of_le hd.nextId
  have happend := @List.range'_append_1 c.nextId (d.nextId - c.nextId) (e.nextId - d.nextId)
  rw [hc, Nat.add_comm, Nat.sub_add_sub_cancel he.nextId hd.nextId] at happend
  exact happend

/-- Nothing is handed out where the next number is the same. -/
theorem handed_eq_nil (h : d.nextId = c.nextId) : c.handed d = [] := by
  unfold handed
  rw [h, Nat.sub_self]
  rfl

/-- Going on to the next token hands out no number. -/
theorem nextId_advance (c : Cursor) : c.advance.nextId = c.nextId := by
  unfold advance
  split <;> rfl

/-- Going on logs nothing. -/
theorem total_advance (c : Cursor) : c.advance.log.total = c.log.total := by
  unfold advance
  split <;> rfl

theorem onward_advance (c : Cursor) : c.Onward c.advance :=
  ⟨Reading.depth_advance c, Nat.le_of_eq c.nextId_advance.symm, Nat.le_of_eq c.total_advance.symm⟩

end Cursor

/-- The numbers `is` are some of those that were handed out between two cursors, in their order; if
nothing was logged, they are all of them. -/
structure Handed (c d : Cursor) (is : List NodeId) : Prop where
  some : is.Sublist (c.handed d)
  all : d.log.total = c.log.total → is = c.handed d

/-- Two readings hold, one after the other, the numbers that were handed out to them. -/
theorem Handed.append {c d e : Cursor} {is js : List NodeId} (hd : c.Onward d) (he : d.Onward e)
    (his : Handed c d is) (hjs : Handed d e js) : Handed c e (is ++ js) := by
  have happend := Cursor.handed_append hd he
  refine ⟨happend ▸ his.some.append hjs.some, fun hquiet => ?_⟩
  have := hd.total
  have := he.total
  rw [his.all (by omega), hjs.all (by omega), happend]

/-- A reading that has handed out nothing holds nothing. -/
theorem Handed.none {c d : Cursor} (h : d.nextId = c.nextId) : Handed c d [] :=
  ⟨List.nil_sublist _, fun _ => (Cursor.handed_eq_nil h).symm⟩

/-- Numbers that are lost were lost behind a complaint. -/
theorem Handed.lost {c d : Cursor} (h : c.log.total < d.log.total) : Handed c d [] :=
  ⟨List.nil_sublist _, fun hquiet => absurd hquiet (by omega)⟩

namespace Reading

variable {α β : Type} {n : Nat}

/-- The outcome `r` of a reading that began at `c`: what is read has numbers that were handed out on
the way, as `Y` tells them.  A reading that gives up has logged something. -/
structure Numbered (Y : α → List NodeId → Prop) (c : Cursor) (r : Option α × Cursor) : Prop where
  onward : c.Onward r.2
  lost : r.1 = none → c.log.total < r.2.log.total
  read : ∀ x, r.1 = some x → ∃ is, Y x is ∧ Handed c r.2 is

/-- At depth `n` a reader numbers what it reads. -/
def Numbers (n : Nat) (Y : α → List NodeId → Prop) (m : Reading α) : Prop :=
  ∀ c, c.depth = n → Numbered Y c (m c)

variable {Y : α → List NodeId → Prop} {Z : β → List NodeId → Prop} {m : Reading α}

/-- Less may be said of what a reading holds. -/
theorem Numbers.mono {Z : α → List NodeId → Prop} (h : Numbers n Y m)
    (hYZ : ∀ x is, Y x is → Z x is) : Numbers n Z m := by
  intro c hc
  obtain ⟨honward, hlost, hread⟩ := h c hc
  refine ⟨honward, hlost, fun x hx => ?_⟩
  obtain ⟨is, his, hhanded⟩ := hread x hx
  exact ⟨is, hYZ x is his, hhanded⟩

/-- What follows a reading is numbered behind it. -/
theorem Numbers.bind {f : α → Reading β} (hm : Numbers n Y m)
    (hf : ∀ x is, Y x is → Numbers n (fun y js => Z y (is ++ js)) (f x)) : Numbers n Z (m >>= f) := by
  intro c hc
  have hfirst := hm c hc
  change Numbered Z c (Reading.bind m f c)
  unfold Reading.bind
  rcases hr : m c with ⟨_ | x, d⟩
  · rw [hr] at hfirst
    exact ⟨hfirst.onward, fun _ => hfirst.lost rfl, fun x hx => nomatch hx⟩
  · rw [hr] at hfirst
    obtain ⟨is, hY, his⟩ := hfirst.read x rfl
    have hcd : c.Onward d := hfirst.onward
    have hrest := hf x is hY d (hcd.depth.trans hc)
    refine ⟨hcd.trans hrest.onward, fun hnone => ?_, fun y hy => ?_⟩
    · exact Nat.lt_of_le_of_lt hcd.total (hrest.lost hnone)
    · obtain ⟨js, hZ, hjs⟩ := hrest.read y hy
      exact ⟨is ++ js, hZ, his.append hcd hrest.onward hjs⟩

/-- What is read one level deeper is numbered one level deeper; at the limit it is refused. -/
theorem Numbers.nested (h : n < Cursor.maxDepth → Numbers (n + 1) Y m) : Numbers n Y (nested m) := by
  intro c hc
  unfold Reading.nested
  split
  · rename_i hlimit
    have hm := h (hc ▸ hlimit) { c with depth := c.depth + 1 } (congrArg (· + 1) hc)
    refine ⟨⟨?_, hm.onward.nextId, hm.onward.total⟩, hm.lost, fun x hx => ?_⟩
    · show (m _).2.depth - 1 = c.depth
      rw [hm.onward.depth]
      rfl
    · obtain ⟨is, hY, his⟩ := hm.read x hx
      exact ⟨is, hY, his.some, his.all⟩
  · exact ⟨⟨rfl, Nat.le_refl _, Nat.le_succ _⟩, fun _ => Nat.lt_succ_self _, fun x hx => nomatch hx⟩

/-! ## Steps -/

/-- The outcome `r` of a step that began at `c` and handed out no number. -/
structure Plain (c : Cursor) (r : Option α × Cursor) : Prop where
  onward : c.Onward r.2
  nextId : r.2.nextId = c.nextId
  lost : r.1 = none → c.log.total < r.2.log.total

/-- What does not move the cursor is plain. -/
theorem plain_same (c : Cursor) (x : α) : Plain c (some x, c) :=
  ⟨.refl c, rfl, fun h => nomatch h⟩

/-- A token is read without a number. -/
theorem plain_advance (c : Cursor) (x : α) : Plain c (some x, c.advance) :=
  ⟨c.onward_advance, c.nextId_advance, fun h => nomatch h⟩

/-- A complaint is made without a number. -/
theorem plain_complain (c : Cursor) (x : Option α) (code : Code) (message : String) (span : Span)
    (suggestion : Option String) : Plain c (x, c.complain code message span suggestion) :=
  ⟨⟨rfl, Nat.le_refl _, Nat.le_succ _⟩, rfl, fun _ => Nat.lt_succ_self _⟩

/-- A plain reading holds no number. -/
theorem Plain.numbered {c : Cursor} {r : Option α × Cursor} (h : Plain c r)
    (hY : ∀ x, r.1 = some x → Y x []) : Numbered Y c r :=
  ⟨h.onward, h.lost, fun x hx => ⟨[], hY x hx, .none h.nextId⟩⟩

theorem numbers_pure {x : α} (h : Y x []) : Numbers n Y (pure x : Reading α) := by
  refine fun c _ => (plain_same c x).numbered ?_
  rintro y ⟨⟩
  exact h

/-- Behind a step that hands out no number. -/
theorem numbers_behind {f : α → Reading β} (hm : ∀ c, Plain c (m c)) (hf : ∀ x, Numbers n Z (f x)) :
    Numbers n Z (m >>= f) := by
  have hnone : Numbers n (fun _ is => is = []) m := fun c _ => (hm c).numbered fun _ _ => rfl
  refine hnone.bind fun x is his => ?_
  subst his
  exact hf x

/-- A reading with a result that has the same numbers. -/
theorem Numbers.map {f : α → β} (hm : Numbers n Y m) (hYZ : ∀ x is, Y x is → Z (f x) is) :
    Numbers n Z (f <$> m) :=
  hm.bind fun x is hY => numbers_pure (by rw [List.append_nil]; exact hYZ x is hY)

theorem plain_look (f : Cursor → α) (c : Cursor) : Plain c (look f c) := plain_same c (f c)

theorem plain_token (c : Cursor) : Plain c (token c) := plain_advance c c.current

theorem plain_tokenSpan (c : Cursor) : Plain c (tokenSpan c) := plain_advance c c.current.span

theorem plain_refuse (code : Code) (message : Kind → String) (c : Cursor) :
    Plain c (refuse code message c : Option α × Cursor) := plain_complain c none _ _ _ _

/-- Whether the symbol is there or not, no number is handed out. -/
theorem plain_eat (s : Symbol) (c : Cursor) : Plain c (eat s c) := by
  unfold eat
  split
  · exact plain_advance c true
  · exact plain_same c false

theorem plain_eatKeyword (k : Keyword) (c : Cursor) : Plain c (eatKeyword k c) := by
  unfold eatKeyword
  split
  · exact plain_advance c true
  · exact plain_same c false

/-- A missing symbol is logged. -/
theorem plain_expect (s : Symbol) (c : Cursor) : Plain c (expect s c) := by
  unfold expect
  split
  · exact plain_advance c ()
  · exact plain_complain c none _ _ _ _

/-- So is a missing semicolon. -/
theorem plain_endStatement (c : Cursor) : Plain c (endStatement c) := by
  unfold endStatement
  split
  · exact plain_advance c ()
  · exact plain_complain c none _ _ _ _

/-- A name has no number. -/
theorem plain_identifier (c : Cursor) : Plain c (identifier c) := by
  unfold identifier
  split
  · exact plain_advance c _
  · exact plain_complain c none _ _ _ _
  · exact plain_complain c none _ _ _ _

theorem plain_at? (s : Symbol) (c : Cursor) : Plain c (at? s c) := plain_look _ c

theorem plain_previous (c : Cursor) : Plain c (previous c) := plain_look _ c

/-- Complaining in some cases and reading on. -/
theorem plain_complainIf (p : Cursor → Prop) [DecidablePred p] (code : Code) (message : String)
    (span : Cursor → Span) (c : Cursor) :
    Plain c (move (fun c => if p c then c.complain code message (span c) none else c) c) := by
  show Plain c (some (), if p c then _ else c)
  split
  · exact plain_complain c (some ()) _ _ _ _
  · exact plain_same c ()

/-- The one step that hands out a number hands out one. -/
theorem numbers_freshId : Numbers n (fun id is => is = [id]) freshId := by
  intro c _
  have hhanded : c.handed { c with nextId := c.nextId + 1 } = [c.nextId] := by
    unfold Cursor.handed
    rw [Nat.add_sub_cancel_left]
    rfl
  refine ⟨⟨rfl, Nat.le_succ _, Nat.le_refl _⟩, fun h => (nomatch h), ?_⟩
  rintro id ⟨⟩
  exact ⟨[c.nextId], rfl, hhanded ▸ .refl _, fun _ => hhanded.symm⟩

/-! ## Chains and items -/

/-- By induction on the turns: the numbers of the left side, then those of each operand. -/
theorem numbers_chainFrom {join? : Kind → Option (α → α → α)} {ids : α → List NodeId}
    (hm : Numbers n (fun x is => is = ids x) m)
    (hjoin : ∀ k join, join? k = some join → ∀ x y, ids (join x y) = ids x ++ ids y)
    (turns : Nat) :
    ∀ left, Numbers n (fun z is => ids left ++ is = ids z) (chainFrom join? m turns left) := by
  induction turns with
  | zero => exact fun left => numbers_pure (List.append_nil _)
  | succ turns ih =>
    intro left
    refine numbers_behind (plain_look _) fun k => ?_
    cases hk : join? k with
    | none => exact numbers_pure (List.append_nil _)
    | some join =>
      refine numbers_behind plain_token fun _ => hm.bind fun right is his => ?_
      refine (ih (join left right)).mono fun z js hz => ?_
      rw [← hz, hjoin k join hk, his, List.append_assoc]

/-- So a chain holds the numbers of its operands in order. -/
theorem numbers_chain {join? : Kind → Option (α → α → α)} {ids : α → List NodeId}
    (hm : Numbers n (fun x is => is = ids x) m)
    (hjoin : ∀ k join, join? k = some join → ∀ x y, ids (join x y) = ids x ++ ids y) :
    Numbers n (fun x is => is = ids x) (chain join? m) := by
  refine hm.bind fun first is his => numbers_behind (plain_look _) fun turns => ?_
  refine (numbers_chainFrom hm hjoin turns first).mono fun z js hz => ?_
  rw [his, hz]

/-- The same for items, which are collected from the back. -/
theorem numbers_itemsFrom {close : Symbol} {item : List α → Reading α} {ids : α → List NodeId}
    (hitem : ∀ before, Numbers n (fun x is => is = ids x) (item before)) (turns : Nat) :
    ∀ before, Numbers n (fun xs is => (before.reverse.map ids).flatten ++ is =
      (xs.reverse.map ids).flatten) (itemsFrom close item turns before) := by
  induction turns with
  | zero => exact fun before => numbers_pure (List.append_nil _)
  | succ turns ih =>
    intro before
    refine numbers_behind (plain_at? close) fun closing => ?_
    split
    · exact numbers_pure (List.append_nil _)
    · refine (hitem before).bind fun x is his => numbers_behind (plain_eat .comma) fun more => ?_
      have hcons : ((x :: before).reverse.map ids).flatten = (before.reverse.map ids).flatten ++ is := by
        simp [his]
      split
      · refine (ih (x :: before)).mono fun xs js hxs => ?_
        rw [← hxs, hcons, List.append_assoc]
      · refine numbers_pure ?_
        rw [hcons, List.append_nil]

/-- So a list of items holds the numbers of its items in order. -/
theorem numbers_items {close : Symbol} {item : List α → Reading α} {ids : α → List NodeId}
    (hitem : ∀ before, Numbers n (fun x is => is = ids x) (item before)) :
    Numbers n (fun xs is => is = (xs.map ids).flatten) (items close item) := by
  refine numbers_behind (plain_look _) fun turns => ?_
  refine (numbers_itemsFrom hitem turns []).bind fun read is his => ?_
  refine numbers_behind (plain_expect close) fun _ => numbers_pure ?_
  rw [List.append_nil, ← his]
  rfl

/-! ## Expressions -/

section Expressions

variable {expr operand : Reading Expr} {block : Reading Block}

/-- At depth `n` a reader numbers the expressions that it reads. -/
abbrev NumbersExpr (n : Nat) (m : Reading Expr) : Prop := Numbers n (fun e is => is = e.numbers) m

abbrev NumbersBlock (n : Nat) (m : Reading Block) : Prop := Numbers n (fun b is => is = b.numbers) m

abbrev NumbersStmt (n : Nat) (m : Reading Stmt) : Prop := Numbers n (fun t is => is = t.numbers) m

/-- An operator has no number; those of its operands stay in order. -/
theorem numbers_binary {op? : Kind → Option BinaryOp} (ho : NumbersExpr n operand) :
    NumbersExpr n (chain (fun k => (op? k).map fun op => joined (.binary · op)) operand) := by
  refine numbers_chain ho fun k join hjoin left right => ?_
  obtain ⟨op, -, rfl⟩ := Option.map_eq_some_iff.1 hjoin
  exact numbers_expr_cons left _

/-- A single word that joins. -/
theorem numbers_word {w : Kind} {make : Span → Expr → Expr → Expr} (ho : NumbersExpr n operand)
    (hmake : ∀ s left right, (make s left right).numbers = left.numbers ++ right.numbers) :
    NumbersExpr n (chain (fun k => if k = w then some (joined make) else none) operand) := by
  refine numbers_chain ho fun k join hjoin left right => ?_
  by_cases hk : k = w
  · rw [if_pos hk] at hjoin
    cases hjoin
    exact hmake _ left right
  · rw [if_neg hk] at hjoin
    cases hjoin

theorem numbers_comparison (ho : NumbersExpr n operand) : NumbersExpr n (comparison operand) := by
  have hadd : NumbersExpr n (additive operand) := numbers_binary (numbers_binary ho)
  refine hadd.bind fun left is his => numbers_behind (plain_look _) fun k => ?_
  cases comparisonOp? k with
  | none =>
    refine numbers_pure ?_
    rw [List.append_nil, his]
  | some op =>
    refine numbers_behind plain_token fun _ => hadd.bind fun right js hjs => ?_
    refine numbers_behind (plain_complainIf (fun c => (comparisonOp? c.kind).isSome = true) _ _
      fun c => c.current.span) fun _ => numbers_pure ?_
    rw [List.append_nil, his, hjs]
    exact (numbers_expr_cons left _).symm

/-- Every precedence is a chain over the next. -/
theorem numbers_disjunction (ho : NumbersExpr n operand) : NumbersExpr n (disjunction operand) := by
  have hcoalescing : NumbersExpr n (coalescing operand) :=
    numbers_word (numbers_comparison ho) fun _ left _ => numbers_expr_cons left _
  have hconjunction : NumbersExpr n (conjunction operand) :=
    numbers_word hcoalescing fun _ left _ => numbers_expr_cons left _
  exact numbers_word hconjunction fun _ left _ => numbers_expr_cons left _

/-- The numbers of a declaration are those of its body. -/
theorem numbers_declaration (hb : NumbersBlock n block) :
    Numbers n (fun d is => is = d.numbers) (declaration block) := by
  refine numbers_behind (plain_expect .lparen) fun _ => ?_
  have hparameter : ∀ before, Numbers n (fun _ is => is = []) (parameter before) := by
    intro before
    refine numbers_behind plain_identifier fun x => ?_
    exact numbers_behind (plain_complainIf (fun _ => before.contains x.name = true) _ _
      fun _ => x.span) fun _ => numbers_pure rfl
  have hparams : Numbers n (fun xs is => is = (xs.map fun _ => []).flatten)
      (items .rparen parameter) := numbers_items hparameter
  refine hparams.bind fun params is his => ?_
  have hnone : is = [] := by
    rw [his]
    simp
  subst hnone
  exact hb.bind fun body js hjs => numbers_pure (by rw [List.append_nil, hjs]; rfl)

/-- A literal has one number. -/
theorem numbers_literal {make : Span → NodeId → String → Expr} {raw : String}
    (hmake : ∀ s id, (make s id raw).numbers = [id]) : NumbersExpr n (literal make raw) := by
  refine numbers_behind plain_tokenSpan fun s => numbers_freshId.bind fun id is his => ?_
  refine numbers_pure ?_
  rw [List.append_nil, his, hmake]

/-- A word that stands for a value has none. -/
theorem numbers_atom {make : Span → Expr} (hmake : ∀ s, (make s).numbers = []) :
    NumbersExpr n (atom make) :=
  numbers_behind plain_tokenSpan fun s => numbers_pure (hmake s).symm

/-- Parentheses change the span of an expression and none of its numbers. -/
theorem numbers_parenthesized (he : NumbersExpr n expr) : NumbersExpr n (parenthesized expr) := by
  refine numbers_behind plain_tokenSpan fun start => he.bind fun inner is his => ?_
  refine numbers_behind (plain_expect _) fun _ => numbers_behind plain_previous fun last => ?_
  refine numbers_pure ?_
  rw [List.append_nil, his, Expr.numbers_withSpan]

/-- A list literal is numbered before its items. -/
theorem numbers_listLiteral (he : NumbersExpr n expr) : NumbersExpr n (listLiteral expr) := by
  refine numbers_behind plain_tokenSpan fun start => numbers_freshId.bind fun id is his => ?_
  refine (numbers_items fun _ => he).bind fun es js hjs => ?_
  refine numbers_behind plain_previous fun last => numbers_pure ?_
  rw [List.append_nil, his, hjs, ← numbers_itemsParts]
  rfl

/-- An object has no number, but its members may. -/
theorem numbers_objectLiteral (he : NumbersExpr n expr) : NumbersExpr n (objectLiteral expr) := by
  have hmember : Numbers n (fun m is => is = m.value.numbers) (member expr) := by
    refine numbers_behind plain_identifier fun x => numbers_behind (plain_expect _) fun _ => ?_
    refine he.bind fun value is his => numbers_pure ?_
    rw [List.append_nil, his]
  refine numbers_behind plain_tokenSpan fun start => numbers_behind (plain_expect _) fun _ => ?_
  refine (numbers_items fun _ => hmember).bind fun ms is his => ?_
  refine numbers_behind plain_previous fun last => numbers_pure ?_
  rw [List.append_nil, his, ← numbers_membersParts]
  rfl

theorem numbers_lambda (hb : NumbersBlock n block) : NumbersExpr n (lambda block) := by
  refine numbers_behind plain_tokenSpan fun start => (numbers_declaration hb).bind fun d is his => ?_
  refine numbers_behind plain_previous fun last => numbers_pure ?_
  rw [List.append_nil, his]
  rfl

/-- By the first token: each kind of head is one of those above. -/
theorem numbers_primary (he : NumbersExpr n expr) (hb : NumbersBlock n block) :
    NumbersExpr n (primary expr block) := by
  refine numbers_behind (plain_look _) fun k => ?_
  split
  · exact numbers_literal fun _ _ => rfl
  · exact numbers_literal fun _ _ => rfl
  · exact numbers_literal fun _ _ => rfl
  · exact numbers_atom fun _ => rfl
  · exact numbers_atom fun _ => rfl
  · exact numbers_atom fun _ => rfl
  · exact numbers_atom fun _ => rfl
  · exact numbers_parenthesized he
  · exact numbers_listLiteral he
  · exact numbers_objectLiteral he
  · exact numbers_lambda hb
  · exact fun c _ => (plain_refuse _ _ c).numbered fun x hx => nomatch hx

/-- Each turn puts the numbers of arguments behind those of the target. -/
theorem numbers_suffixes (he : NumbersExpr n expr) (turns : Nat) :
    ∀ target, Numbers n (fun e is => target.numbers ++ is = e.numbers) (suffixes expr turns target) := by
  induction turns with
  | zero => exact fun target => numbers_pure (List.append_nil _)
  | succ turns ih =>
    intro target
    refine numbers_behind (plain_look _) fun k => ?_
    split
    · refine numbers_behind plain_token fun _ => (numbers_items fun _ => he).bind fun es is his => ?_
      refine numbers_behind plain_previous fun last => ?_
      refine (ih _).mono fun e js hjs => ?_
      rw [← hjs, ← List.append_assoc, his, ← numbers_itemsParts]
      exact congrArg (· ++ js) (numbers_expr_cons target _).symm
    · refine numbers_behind plain_token fun _ => numbers_behind plain_identifier fun x => ?_
      exact ih (.property _ target x)
    · exact numbers_pure (List.append_nil _)

/-- A prefix has the numbers of its operand. -/
theorem numbers_operand (ho : n < Cursor.maxDepth → NumbersExpr (n + 1) operand)
    (he : NumbersExpr n expr) (hb : NumbersBlock n block) :
    NumbersExpr n (Reading.operand operand expr block) := by
  refine numbers_behind (plain_look _) fun k => ?_
  cases unaryOp? k with
  | some op =>
    refine numbers_behind plain_tokenSpan fun start => ?_
    refine (Numbers.nested ho).bind fun inner is his => numbers_pure ?_
    rw [List.append_nil, his]
    rfl
  | none =>
    refine (numbers_primary he hb).bind fun first is his => numbers_behind (plain_look _) fun turns => ?_
    refine (numbers_suffixes he turns first).mono fun e js hjs => ?_
    rw [his, hjs]

end Expressions

/-! ## Statements -/

/-- Skipping hands out no number and logs nothing. -/
theorem resync_still (turns : Nat) (c : Cursor) :
    (resync turns c).nextId = c.nextId ∧ (resync turns c).log.total = c.log.total := by
  induction turns generalizing c with
  | zero => exact ⟨rfl, rfl⟩
  | succ turns ih =>
    unfold resync
    split
    · exact ⟨rfl, rfl⟩
    · split
      · exact ⟨c.nextId_advance, c.total_advance⟩
      · split
        · exact ⟨rfl, rfl⟩
        · obtain ⟨hid, htotal⟩ := ih c.advance
          exact ⟨hid.trans c.nextId_advance, htotal.trans c.total_advance⟩

section Statements

variable {expr : Reading Expr} {statement : Reading Stmt}

/-- The outcome of a reader of statements, those read before in front. -/
structure NumberedList (before : List Stmt) (c : Cursor) (r : List Stmt × Cursor) : Prop where
  onward : c.Onward r.2
  read : ∃ ts, r.1 = ts.reverse ++ before ∧ Handed c r.2 (numbers (stmtsParts ts))

theorem numberedList_nil (before : List Stmt) (c : Cursor) : NumberedList before c (before, c) :=
  ⟨.refl c, [], rfl, .none rfl⟩

/-- Statements that are read on from those that were read before. -/
theorem NumberedList.trans {before : List Stmt} {c : Cursor} {q r : List Stmt × Cursor}
    (hq : NumberedList before c q) (hr : NumberedList q.1 q.2 r) : NumberedList before c r := by
  obtain ⟨ts, hts, hhanded⟩ := hq.read
  obtain ⟨us, hus, hbehind⟩ := hr.read
  refine ⟨hq.onward.trans hr.onward, ts ++ us, ?_, ?_⟩
  · rw [hus, hts, List.reverse_append, List.append_assoc]
  · have happend : numbers (stmtsParts (ts ++ us)) =
        numbers (stmtsParts ts) ++ numbers (stmtsParts us) := by
      simp only [numbers_stmtsParts, List.map_append, List.flatten_append]
    rw [happend]
    exact hhanded.append hq.onward hr.onward hbehind

/-- A statement that is given up may take numbers with it, but then something has been logged. -/
theorem numbered_statementOrSkip (hs : NumbersStmt n statement) (before : List Stmt) {c : Cursor}
    (hc : c.depth = n) : NumberedList before c (statementOrSkip statement before c) := by
  have hread := hs c hc
  unfold statementOrSkip
  rcases hr : statement c with ⟨_ | t, d⟩
  · rw [hr] at hread
    have hlost : c.log.total < d.log.total := hread.lost rfl
    have honward : c.Onward d := hread.onward
    -- The numbers of a statement that was given up are lost, but then that was complained about.
    obtain ⟨hid, htotal⟩ := resync_still d.turns d
    have hskip : d.Onward (resync d.turns d) :=
      ⟨depth_resync _ _, Nat.le_of_eq hid.symm, Nat.le_of_eq htotal.symm⟩
    dsimp only
    split
    · have hbehind := honward.trans (hskip.trans (Cursor.onward_advance _))
      refine ⟨hbehind, [], rfl, .lost ?_⟩
      rw [Cursor.total_advance, htotal]
      exact hlost
    · exact ⟨honward.trans hskip, [], rfl, .lost (htotal ▸ hlost)⟩
  · rw [hr] at hread
    obtain ⟨is, his, hhanded⟩ := hread.read t rfl
    refine ⟨hread.onward, [t], rfl, ?_⟩
    rw [numbers_stmtsParts]
    simpa [← his] using hhanded

/-- By induction on the turns, until a brace or the end of the file. -/
theorem numbered_blockBody (hs : NumbersStmt n statement) (turns : Nat) : ∀ before c, c.depth = n →
    NumberedList before c (blockBody statement turns before c) := by
  induction turns with
  | zero => exact fun before c _ => numberedList_nil before c
  | succ turns ih =>
    intro before c hc
    unfold blockBody
    split
    · exact numberedList_nil before c
    · have hfirst := numbered_statementOrSkip hs before hc
      exact hfirst.trans (ih _ _ (hfirst.onward.depth.trans hc))

/-- The same for the statements of a document. -/
theorem numbered_programBody (hs : NumbersStmt n statement) (turns : Nat) : ∀ before c, c.depth = n →
    NumberedList before c (programBody statement turns before c) := by
  induction turns with
  | zero => exact fun before c _ => numberedList_nil before c
  | succ turns ih =>
    intro before c hc
    unfold programBody
    split
    · exact numberedList_nil before c
    · split
      · -- A closing brace that closes nothing has no number.
        have hpassed : NumberedList before c
            (before, (c.complainHere .unexpectedToken "unmatched '\x7d'").advance) := by
          have hcomplain : c.Onward (c.complainHere .unexpectedToken "unmatched '\x7d'") :=
            ⟨rfl, Nat.le_refl _, Nat.le_succ _⟩
          exact ⟨hcomplain.trans (Cursor.onward_advance _), [], rfl, .none (Cursor.nextId_advance _)⟩
        exact hpassed.trans (ih _ _ (hpassed.onward.depth.trans hc))
      · have hfirst := numbered_statementOrSkip hs before hc
        exact hfirst.trans (ih _ _ (hfirst.onward.depth.trans hc))

/-- So a block holds the numbers of its statements. -/
theorem numbers_block (hs : NumbersStmt n statement) : NumbersBlock n (block statement) := by
  refine numbers_behind (plain_look _) fun start => numbers_behind (plain_expect _) fun _ => ?_
  have hbody : Numbers n (fun ts is => is = numbers (stmtsParts ts)) fun c =>
      (some (blockBody statement c.turns [] c).1.reverse, (blockBody statement c.turns [] c).2) := by
    intro c hc
    obtain ⟨honward, ts, hts, hhanded⟩ := numbered_blockBody hs c.turns [] c hc
    refine ⟨honward, fun h => absurd h (Option.some_ne_none _), ?_⟩
    intro us hus
    refine ⟨_, rfl, ?_⟩
    have hsame : us = ts := by
      rw [← Option.some.inj hus, hts, List.append_nil, List.reverse_reverse]
    exact hsame ▸ hhanded
  refine hbody.bind fun ts is his => numbers_behind (plain_expect _) fun _ => ?_
  refine numbers_behind plain_previous fun last => numbers_pure ?_
  rw [List.append_nil, his]
  rfl

/-- The target of an assignment is taken apart, and what is left of it has the numbers that it had. -/
theorem numbers_simple (he : NumbersExpr n expr) : NumbersStmt n (simple expr) := by
  refine he.bind fun target is his => numbers_behind (plain_at? _) fun assigned => ?_
  split
  · refine numbers_behind plain_tokenSpan fun eq => he.bind fun value js hjs => ?_
    subst his
    subst hjs
    cases target with
    | name s x => exact numbers_pure (List.append_nil _)
    | property s owner x =>
      refine numbers_pure ?_
      rw [List.append_nil]
      exact (numbers_expr_cons owner _).symm
    | _ => exact fun c _ => (plain_complain c none _ _ _ _).numbered fun x hx => nomatch hx
  · exact numbers_pure (by rw [List.append_nil, his]; rfl)

/-- A definition is numbered before its body. -/
theorem numbers_definition {block : Reading Block} (hb : NumbersBlock n block) :
    NumbersStmt n (definition block) := by
  refine numbers_behind plain_tokenSpan fun start => numbers_freshId.bind fun id is his => ?_
  refine numbers_behind plain_identifier fun x => (numbers_declaration hb).bind fun d js hjs => ?_
  refine numbers_behind plain_previous fun last => numbers_pure ?_
  rw [List.append_nil, his, hjs]
  rfl

theorem numbers_condition (he : NumbersExpr n expr) : NumbersExpr n (condition expr) := by
  refine numbers_behind (plain_expect _) fun _ => he.bind fun test is his => ?_
  exact numbers_behind (plain_expect _) fun _ => numbers_pure (by rw [List.append_nil, his])

/-- A test, a branch and perhaps one more, in the order in which they are read. -/
theorem numbers_conditional (he : NumbersExpr n expr) (hs : NumbersStmt n statement) :
    NumbersStmt n (conditional expr statement) := by
  refine numbers_behind plain_tokenSpan fun start => (numbers_condition he).bind fun test is his => ?_
  refine hs.bind fun yes js hjs => numbers_behind (plain_eatKeyword _) fun more => ?_
  subst his hjs
  split
  · have hno : Numbers n (fun no ks => ∃ t, no = some t ∧ ks = t.numbers) (some <$> statement) :=
      hs.map fun t ks hks => ⟨t, rfl, hks⟩
    refine hno.bind fun no ks hks => numbers_behind plain_previous fun last => numbers_pure ?_
    obtain ⟨t, rfl, rfl⟩ := hks
    rw [List.append_nil, ← numbers_stmt t, ← numbers_stmt_cons, ← numbers_expr_cons]
    rfl
  · have hno : Numbers n (fun no ks => no = none ∧ ks = []) (pure none : Reading (Option Stmt)) :=
      numbers_pure ⟨rfl, rfl⟩
    refine hno.bind fun no ks hks => numbers_behind plain_previous fun last => numbers_pure ?_
    obtain ⟨rfl, rfl⟩ := hks
    rw [List.append_nil, List.append_nil, ← numbers_stmt yes, ← numbers_expr_cons]
    rfl

theorem numbers_whileLoop (he : NumbersExpr n expr) (hs : NumbersStmt n statement) :
    NumbersStmt n (whileLoop expr statement) := by
  refine numbers_behind plain_tokenSpan fun start => (numbers_condition he).bind fun test is his => ?_
  refine hs.bind fun body js hjs => numbers_behind plain_previous fun last => numbers_pure ?_
  rw [List.append_nil, his, hjs, ← numbers_stmt body, ← numbers_expr_cons]
  rfl

/-- A loop reads its step before its body, and numbers it before. -/
theorem numbers_forLoop (he : NumbersExpr n expr) (hs : NumbersStmt n statement) :
    NumbersStmt n (forLoop expr statement) := by
  refine numbers_behind plain_tokenSpan fun start => numbers_behind (plain_expect _) fun _ => ?_
  refine (numbers_simple he).bind fun init is his => numbers_behind (plain_expect _) fun _ => ?_
  refine he.bind fun test js hjs => numbers_behind (plain_expect _) fun _ => ?_
  refine (numbers_simple he).bind fun step ks hks => numbers_behind (plain_expect _) fun _ => ?_
  refine hs.bind fun body ls hls => numbers_behind plain_previous fun last => numbers_pure ?_
  rw [List.append_nil, his, hjs, hks, hls, ← numbers_stmt body, ← numbers_stmt_cons step,
    ← numbers_expr_cons, ← numbers_stmt_cons]
  rfl

theorem numbers_returning (he : NumbersExpr n expr) : NumbersStmt n (returning expr) := by
  refine numbers_behind plain_tokenSpan fun start => numbers_behind (plain_at? _) fun bare => ?_
  have hend : ∀ value is, (∀ s, is = (Stmt.return s value).numbers) →
      Numbers n (fun t js => is ++ js = t.numbers)
        (do endStatement; pure (Stmt.return (start.cover (← previous)) value)) := by
    intro value is his
    refine numbers_behind plain_endStatement fun _ => numbers_behind plain_previous fun last => ?_
    exact numbers_pure (by rw [List.append_nil, his])
  split
  · exact hend none [] fun _ => rfl
  · have hvalue : Numbers n (fun value is => ∀ s, is = (Stmt.return s value).numbers)
        (some <$> expr) := he.map fun e is his s => his
    exact hvalue.bind hend

theorem numbers_jump {make : Span → Stmt} (hmake : ∀ s, (make s).numbers = []) :
    NumbersStmt n (jump make) := by
  refine numbers_behind plain_tokenSpan fun start => numbers_behind plain_endStatement fun _ => ?_
  exact numbers_behind plain_previous fun last => numbers_pure (hmake _).symm

theorem numbers_writing (he : NumbersExpr n expr) : NumbersStmt n (writing expr) := by
  refine numbers_behind plain_tokenSpan fun start => he.bind fun value is his => ?_
  refine numbers_behind plain_endStatement fun _ => numbers_behind plain_previous fun last => ?_
  exact numbers_pure (by rw [List.append_nil, his]; rfl)

/-- The first token of a statement tells its kind, and each is one of those above. -/
theorem numbers_statementBody (he : NumbersExpr n expr) (hs : NumbersStmt n statement) :
    NumbersStmt n (statementBody expr statement) := by
  refine numbers_behind (plain_look _) fun kinds => ?_
  split
  · exact (numbers_block hs).map fun b is his => his
  · exact numbers_definition (numbers_block hs)
  · exact numbers_conditional he hs
  · exact numbers_whileLoop he hs
  · exact numbers_forLoop he hs
  · exact numbers_returning he
  · exact numbers_jump fun _ => rfl
  · exact numbers_jump fun _ => rfl
  · exact numbers_writing he
  · refine (numbers_simple he).bind fun t is his => numbers_behind plain_endStatement fun _ => ?_
    exact numbers_pure (by rw [List.append_nil, his])

end Statements

/-- At every depth the readers number what they read. -/
theorem numbers_tree (n : Nat) :
    NumbersExpr n expression ∧ NumbersStmt n statement ∧ NumbersExpr n prefixed := by
  -- The recursion is on the levels that are left.  An operand opens none itself, but the readers
  -- that it rests on do.
  have deeper : n < Cursor.maxDepth → NumbersExpr (n + 1) expression ∧
      NumbersStmt (n + 1) statement ∧ NumbersExpr (n + 1) prefixed :=
    fun _ => numbers_tree (n + 1)
  have hexpr : NumbersExpr n expression := by
    rw [expression_eq]
    exact Numbers.nested fun hn => numbers_disjunction (deeper hn).2.2
  have hstmt : NumbersStmt n statement := by
    rw [statement_eq]
    exact Numbers.nested fun hn => numbers_statementBody (deeper hn).1 (deeper hn).2.1
  refine ⟨hexpr, hstmt, ?_⟩
  rw [prefixed_eq]
  exact numbers_operand (fun hn => (deeper hn).2.2) hexpr (numbers_block hstmt)
termination_by Cursor.maxDepth - n

end Reading

/-! ## Whole texts -/

/-- **The numbers of a program** are some of those that were handed out when it was read, in their
order; if nothing was complained about they are all of them. -/
theorem handed_atStop (doc : Document) (tokens : List Token) :
    (Parse.ofTokens doc tokens).program.numbers.Sublist
        (List.range (Cursor.atStop doc tokens).nextId) ∧
      ((Parse.ofTokens doc tokens).log.total = 0 →
        (Parse.ofTokens doc tokens).program.numbers =
          List.range (Cursor.atStop doc tokens).nextId) := by
  obtain ⟨-, ts, hts, hsome, hall⟩ :=
    Reading.numbered_programBody (Reading.numbers_tree 0).2.1 (Cursor.ofTokens doc tokens).turns []
      (Cursor.ofTokens doc tokens) (Cursor.depth_ofTokens doc tokens)
  have hnumbers : (Parse.ofTokens doc tokens).program.numbers = numbers (stmtsParts ts) := by
    unfold Program.numbers Program.parts
    rw [Parse.stmts_ofTokens, hts, List.append_nil, List.reverse_reverse]
  have hstart : (Cursor.ofTokens doc tokens).nextId = 0 := by cases tokens <;> rfl
  unfold Cursor.handed at hsome hall
  rw [hstart, ← List.range_eq_range'] at hsome hall
  rw [hnumbers, Parse.log_ofTokens]
  refine ⟨hsome, fun hquiet => hall (hquiet.trans ?_)⟩
  rw [Cursor.log_ofTokens]
  rfl

/-- The numbers of a program ascend. -/
theorem numbers_ascend (doc : Document) (tokens : List Token) :
    (Parse.ofTokens doc tokens).program.numbers.Pairwise (· < ·) :=
  List.pairwise_lt_range.sublist (handed_atStop doc tokens).1

section Nodes

variable {doc : Document} {tokens : List Token} {x y : Part} {i j : NodeId}

/-- Of two nodes the one that stands first has the smaller number. -/
theorem number_lt (h : [x, y].Sublist (Parse.ofTokens doc tokens).program.parts)
    (hx : x.id? = some i) (hy : y.id? = some j) : i < j := by
  have hsub : [i, j].Sublist (Parse.ofTokens doc tokens).program.numbers := by
    have hboth := h.filterMap Part.id?
    rwa [List.filterMap_cons_some hx, List.filterMap_cons_some hy] at hboth
  exact List.rel_of_pairwise_cons ((numbers_ascend doc tokens).sublist hsub) List.mem_cons_self

/-- A number tells one node from all others. -/
theorem eq_of_number (hx : x ∈ (Parse.ofTokens doc tokens).program.parts)
    (hy : y ∈ (Parse.ofTokens doc tokens).program.parts) (hi : x.id? = some i) (hj : y.id? = some i) :
    x = y := by
  have hpairs := List.pairwise_filterMap.1 (numbers_ascend doc tokens)
  have hsame : (Parse.ofTokens doc tokens).program.parts.Pairwise fun x y =>
      ∀ i, x.id? = some i → y.id? = some i → x = y :=
    hpairs.imp fun h i hi hj => absurd (h i hi i hj) (Nat.lt_irrefl i)
  exact hsame.forall_of_forall_of_flip (fun _ _ _ _ _ => rfl)
    (hsame.imp fun h i hi hj => (h i hj hi).symm) hx hy i hi hj

end Nodes

end SmallScript
