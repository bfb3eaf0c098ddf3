/-
  What a list literal leaves in its list.

  The node of a list literal has one list.  An evaluation empties the list first, and then pushes the
  value of each element as soon as it has it (`Walker.fill`).  If the elements leave the list alone,
  it holds their values, in order, when the literal is done.

  That is not always so.  An element may evaluate the same node again, by calling the function that
  the literal is in.  Then the list is emptied and filled under way, and what the inner evaluation
  has pushed is still there when the outer one goes on (`list_literal_disturbed`).
-/
import SmallScript.Proofs.Evaluation.Reliance

namespace SmallScript

namespace Walker

open Eval

/-- The list of a list literal, emptied. -/
def emptied (id : NodeId) : Eval ListRef := do
  let r ← listOf id
  onHeap fun h => ((), h.modifyItems r fun _ => #[])
  pure r

/-- Evaluate expressions one after the other, and push each value at once; all the values. -/
def fill (w : Walker) (r : ListRef) : List Expr → Eval (List Value)
  | [] => pure []
  | e :: es => do
    let v ← w.eval e
    onHeap fun h => ((), h.modifyItems r (·.push v))
    let vs ← fill w r es
    pure (v :: vs)

variable {w : Walker} {config : Config} {r : ListRef} {s t : State} {vs : List Value}

theorem pushAll_eq_fill (w : Walker) (r : ListRef) (es : List Expr) :
    w.pushAll r es = w.fill r es >>= fun _ => pure () := by
  induction es with
  | nil => rfl
  | cons e es ih => simp only [pushAll, fill, ih, bind_assoc, pure_bind]

theorem evaluate_list (w : Walker) (config : Config) (span : Span) (id : NodeId) (es : List Expr) :
    w.evaluate config (.list span id es) =
      emptied id >>= fun r => w.fill r es >>= fun _ => pure (.list r) := by
  simp only [evaluate, emptied, pushAll_eq_fill, bind_assoc, pure_bind]

/-- The evaluations of the elements, one after the other, leave the list as it is. -/
def Undisturbed (w : Walker) (r : ListRef) (es : List Expr) (s : State) : Prop :=
  ∀ before e behind, es = before ++ e :: behind → ∀ vs t v u,
    w.fill r before s = .done vs t → w.eval e t = .done v u →
    u.world.heap.items r = t.world.heap.items r

/-- The state in which a value was pushed. -/
def pushed (r : ListRef) (v : Value) (s : State) : State :=
  s.inWorld (s.world.withHeap (s.world.heap.modifyItems r (·.push v)))

theorem items_pushed (hr : r.index < s.world.heap.lists.size) (v : Value) :
    (pushed r v s).world.heap.items r = (s.world.heap.items r).push v := by
  show (s.world.heap.modifyItems r _).items r = _
  rw [Heap.items_modifyItems, if_pos ⟨rfl, hr⟩]

theorem fill_cons_eq_done {e : Expr} {es : List Expr} {vs : List Value} :
    w.fill r (e :: es) s = .done vs t ↔ ∃ v u vs', w.eval e s = .done v u ∧
      w.fill r es (pushed r v u) = .done vs' t ∧ vs = v :: vs' := by
  have hfill : w.fill r (e :: es) = w.eval e >>= fun v =>
      onHeap (fun h => ((), h.modifyItems r (·.push v))) >>= fun _ =>
      w.fill r es >>= fun vs => pure (v :: vs) := rfl
  rw [hfill]
  simp only [bind_eq_done]
  constructor
  · rintro ⟨v, u, hv, _, _, hpush, vs', u', hvs', hdone⟩
    cases hpush
    cases hdone
    exact ⟨v, u, vs', hv, hvs', rfl⟩
  · rintro ⟨v, u, vs', hv, hvs', rfl⟩
    exact ⟨v, u, hv, (), _, rfl, vs', t, hvs', rfl⟩

theorem length_fill (es : List Expr) : ∀ s vs, w.fill r es s = .done vs t → vs.length = es.length := by
  induction es with
  | nil =>
    intro s vs h
    cases h
    rfl
  | cons e es ih =>
    intro s vs h
    obtain ⟨v, u, vs', hv, hvs', rfl⟩ := fill_cons_eq_done.1 h
    rw [List.length_cons, List.length_cons, ih _ _ hvs']

/-- What elements push that leave the list alone is behind what was there. -/
theorem items_fill {n : Nat} (es : List Expr) : ∀ s vs, r.index < s.world.heap.lists.size →
    (walker config n).Undisturbed r es s → (walker config n).fill r es s = .done vs t →
    t.world.heap.items r = s.world.heap.items r ++ vs.toArray := by
  induction es with
  | nil =>
    intro s vs _ _ h
    cases h
    simp
  | cons e es ih =>
    intro s vs hr hsame h
    obtain ⟨v, u, vs', hv, hvs', rfl⟩ := fill_cons_eq_done.1 h
    have hgrows : s.world.heap.Grows u.world.heap :=
      ((Heap.growth_sound.kept_walker (Heap.growth_covers config.host) n).eval e trivial).state
        (congrArg Outcome.state? hv) |>.related
    have hsize : r.index < u.world.heap.lists.size := Nat.lt_of_lt_of_le hr hgrows.lists
    have helement : u.world.heap.items r = s.world.heap.items r :=
      hsame [] e es rfl [] s v u rfl hv
    -- An element of the rest, with the elements before it, is one of the whole list.
    have hbehind : (walker config n).Undisturbed r es (pushed r v u) := by
      rintro before e' behind rfl vs₁ t₁ v₁ u₁ hfill heval
      exact hsame (e :: before) e' behind rfl (v :: vs₁) t₁ v₁ u₁
        (fill_cons_eq_done.2 ⟨v, u, vs₁, hv, hfill, rfl⟩) heval
    have hpushed : r.index < (pushed r v u).world.heap.lists.size := by
      simpa [pushed, State.inWorld, World.withHeap, Heap.modifyItems] using hsize
    rw [ih _ _ hpushed hbehind hvs', items_pushed hsize, helement]
    simp

/-- A list that was emptied is empty. -/
theorem items_emptied {id : NodeId} (h : emptied id s = .done r t) :
    t.world.heap.items r = #[] := by
  unfold emptied at h
  simp only [bind_eq_done] at h
  obtain ⟨r', u, hr, _, _, hempty, hdone⟩ := h
  cases hempty
  cases hdone
  show (u.world.heap.modifyItems r _).items r = #[]
  rw [Heap.items_modifyItems]
  split
  · rfl
  · rename_i hout
    exact Heap.items_of_size_le (Nat.le_of_not_lt fun hr => hout ⟨rfl, hr⟩)

end Walker

open Walker

/-- **A list literal fills its list with its elements, if they leave it alone.**  An evaluation that
succeeds yields the list of the node; it was emptied first, then the elements were evaluated, and if
their evaluations did not touch it, then it holds their values, each in its place. -/
theorem list_literal_refilled {config : Config} {n : Nat} {span : Span} {id : NodeId}
    {es : List Expr} {s t : State} {a : Value}
    (h : (walker config (n + 1)).eval (.list span id es) s = .done a t) :
    ∃ r s₀ vs, emptied id s = .done r s₀ ∧ a = .list r ∧
      (walker config n).fill r es s₀ = .done vs t ∧ vs.length = es.length ∧
      (r.index < s₀.world.heap.lists.size → (walker config n).Undisturbed r es s₀ →
        t.world.heap.items r = vs.toArray) := by
  change (walker config n).evaluate config (.list span id es) s = .done a t at h
  rw [evaluate_list] at h
  simp only [Eval.bind_eq_done] at h
  obtain ⟨r, s₀, hempty, vs, u, hfill, hdone⟩ := h
  cases hdone
  refine ⟨r, s₀, vs, hempty, rfl, hfill, length_fill es s₀ vs hfill, fun hr hsame => ?_⟩
  rw [items_fill es s₀ vs hr hsame hfill, items_emptied hempty]
  simp

/-- Constants leave every list alone, so `[true, null]` yields a list of the two. -/
theorem refilled_with_constants : ∃ r t,
    (walker {} 5).eval (.list default 1 [.bool default true, .null default]) default =
      .done (.list r) t ∧
    t.world.heap.items r = #[.bool true, .null] := by
  obtain ⟨r, t, h⟩ : ∃ r t,
      (walker {} 5).eval (.list default 1 [.bool default true, .null default]) default =
        .done (.list r) t :=
    ⟨_, _, rfl⟩
  obtain ⟨r', s₀, vs, hempty, heq, hfill, -, hitems⟩ := list_literal_refilled h
  cases heq
  refine ⟨r, t, h, ?_⟩
  have hthere : r.index < s₀.world.heap.lists.size := by
    cases hempty
    decide
  have hsame : (walker {} 4).Undisturbed r [.bool default true, .null default] s₀ := by
    intro before e behind hsplit _ u v o _ heval
    have hconstant : e = .bool default true ∨ e = .null default := by
      have hmem : e ∈ before ++ e :: behind := List.mem_append_right _ List.mem_cons_self
      rw [← hsplit] at hmem
      simpa using hmem
    rcases hconstant with rfl | rfl
    · cases heval
      rfl
    · cases heval
      rfl
  rw [hitems hthere hsame]
  cases hempty
  cases hfill
  rfl

/-- The literal `[10, h(n)]`. -/
def reentrantList : Expr :=
  .list default 1 [.int default 0 "10", .call default (.name default "h") [.name default "n"]]

/-- The program `fn h(n) { if (n) { g(false); } return 5; } fn g(n) { return [10, h(n)]; }`. -/
def reentrant : Program where
  stmts :=
    [.define default 2 ⟨"h", default⟩ ⟨["n"], ⟨[
        .cond default (.name default "n")
          (.block ⟨[.expr (.call default (.name default "g") [.bool default false])], default⟩) none,
        .return default (some (.int default 3 "5"))], default⟩⟩,
      .define default 4 ⟨"g", default⟩ ⟨["n"], ⟨[.return default (some reentrantList)], default⟩⟩]
  span := default

/-- The state in which the body of `g` is executed in the call `g(true)`. -/
def insideReentrant : State :=
  match (walker {} 5).execAll reentrant.stmts (State.start [] {} {}).ready with
  | .done _ s => s.entered s.globals [("n", .bool true)] 1
  | _ => default

/-- **A list literal whose elements evaluate it again holds more than its elements.**  In the call
`g(true)` the elements of `[10, h(n)]` have the values 10 and 5, but the list holds three items: the
first 5 was pushed by the evaluation inside `h`, after the list had been emptied once more. -/
theorem list_literal_disturbed : ∃ r s₀ t,
    (walker {} 13).eval reentrantList insideReentrant = .done (.list r) t ∧
    emptied 1 insideReentrant = .done r s₀ ∧
    (walker {} 12).fill r [.int default 0 "10", .call default (.name default "h") [.name default "n"]]
      s₀ = .done [.int 10, .int 5] t ∧
    t.world.heap.items r = #[.int 10, .int 5, .int 5] :=
  ⟨_, _, _, rfl, rfl, rfl, rfl⟩

end SmallScript
