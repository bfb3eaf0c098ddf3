/-
  Object literals.

  An object literal makes its object and gives it the members one after the other: the expression of a
  member is evaluated, and then the property is added.  The first obstacle ends the literal: an
  expression that does not succeed, or one that does but has the name of an earlier member
  (`Walker.Obstacle`).  A name is looked at behind its expression, so the expression of a name that is
  there already is evaluated all the same, and what it did stays done.

  Whether a name is new is seen in the object itself, as it is behind the expression.  So it has to be
  known that the expressions leave the object alone, whatever functions they call and whatever these
  build and change.  They do, for no value that is held is this object (`State.Secludes`): at each
  moment it has just the members before, and behind the last one it has them all.
-/
import Mathlib.Data.List.Induction
import SmallScript.Proofs.Evaluation.Seclusion
import SmallScript.Proofs.Evaluation.Shape

namespace SmallScript

/-! ## Members -/

/-- The names of members, in order. -/
def memberNames (ms : List Member) : List String := ms.map fun m => m.name.name

theorem memberNames_concat (ms : List Member) (m : Member) :
    memberNames (ms ++ [m]) = memberNames ms ++ [m.name.name] :=
  List.map_append

/-- The properties that members with some values give, the last in front. -/
def Bag.ofMembers (ms : List Member) (vs : List Value) : Bag := ⟨((memberNames ms).zip vs).reverse⟩

namespace Bag

variable {ms : List Member} {vs : List Value}

/-- The properties have the names of the members. -/
theorem keys_ofMembers (hlength : vs.length = ms.length) :
    (ofMembers ms vs).keys = (memberNames ms).reverse := by
  have hle : (memberNames ms).length ≤ vs.length :=
    Nat.le_of_eq ((List.length_map _).trans hlength.symm)
  unfold ofMembers Assoc.keys
  rw [List.map_reverse, List.map_fst_zip hle]

theorem contains_ofMembers (hlength : vs.length = ms.length) (x : String) :
    (ofMembers ms vs).contains x ↔ x ∈ memberNames ms := by
  rw [Assoc.contains_iff, keys_ofMembers hlength, List.mem_reverse]

/-- One member more. -/
theorem ofMembers_concat (hlength : vs.length = ms.length) (m : Member) (v : Value) :
    ofMembers (ms ++ [m]) (vs ++ [v]) = ⟨(m.name.name, v) :: (ofMembers ms vs).entries⟩ := by
  have hnames : (memberNames ms).length = vs.length := (List.length_map _).trans hlength.symm
  unfold ofMembers
  rw [memberNames_concat, List.zip_append hnames, List.reverse_append]
  rfl

/-- Each property has the value of its member. -/
theorem get?_ofMembers (hlength : vs.length = ms.length) (hdistinct : (memberNames ms).Nodup)
    {p : Member × Value} (hp : p ∈ ms.zip vs) :
    (ofMembers ms vs).get? p.1.name.name = some p.2 := by
  refine Assoc.get?_of_mem ?_ ?_
  · rw [keys_ofMembers hlength]
    exact List.pairwise_reverse.2 (hdistinct.imp Ne.symm)
  · unfold ofMembers memberNames
    rw [List.zip_map_left]
    exact List.mem_reverse.2 (List.mem_map.2 ⟨p, hp, rfl⟩)

end Bag

namespace Walker

/-- From `s` the expressions of members succeed one after the other with the values `vs`, their names
differ, and in `t` the object `o` has been given them all. -/
inductive Clear (w : Walker) (o : ObjectRef) (s : State) :
    List Member → List Value → State → Prop where
  | nil : Clear w o s [] [] s
  | concat {ms : List Member} {m : Member} {vs : List Value} {v : Value} {t u : State} :
      Clear w o s ms vs t → w.eval m.value t = .done v u → m.name.name ∉ memberNames ms →
      Clear w o s (ms ++ [m]) (vs ++ [v]) (u.adding o m.name.name v)

/-- The first member that ends an object literal, behind the members `before`, and the outcome with
which it does.  Its expression does not succeed, or it does and its name is that of one before. -/
inductive Obstacle (w : Walker) (o : ObjectRef) (s : State) (ms : List Member) :
    List Member → Member → Outcome Value → Prop where
  | failing {before behind : List Member} {m : Member} {vs : List Value} {t : State}
      {r : Outcome Value} : ms = before ++ m :: behind → w.Clear o s before vs t →
      w.eval m.value t = r → (∀ v u, r ≠ .done v u) → Obstacle w o s ms before m r
  | again {before behind : List Member} {m : Member} {vs : List Value} {t : State} {v : Value}
      {u : State} : ms = before ++ m :: behind → w.Clear o s before vs t →
      w.eval m.value t = .done v u → m.name.name ∈ memberNames before →
      Obstacle w o s ms before m (.unwound (.fault (.duplicateProperty m.name.name)) u)

section Clear

variable {w : Walker} {o : ObjectRef} {ms : List Member} {s t : State} {vs : List Value}

theorem Clear.length (h : w.Clear o s ms vs t) : vs.length = ms.length := by
  induction h with
  | nil => rfl
  | concat _ _ _ ih => rw [List.length_append, List.length_append, ih]; rfl

theorem Clear.distinct (h : w.Clear o s ms vs t) : (memberNames ms).Nodup := by
  induction h with
  | nil => exact List.nodup_nil
  | @concat ms m vs v t u _ _ hnew ih =>
    rw [memberNames_concat, List.nodup_append]
    refine ⟨ih, List.pairwise_singleton _ _, fun x hx y hy heq => ?_⟩
    rw [heq, List.mem_singleton.1 hy] at hx
    exact hnew hx

theorem Clear.single {m : Member} {v : Value} (heval : w.eval m.value s = .done v t) :
    w.Clear o s [m] [v] (t.adding o m.name.name v) :=
  @Clear.concat w o s [] m [] v s t .nil heval List.not_mem_nil

theorem obstacle_or_clear (w : Walker) (o : ObjectRef) (ms : List Member) (s : State) :
    (∃ before m r, w.Obstacle o s ms before m r) ∨ ∃ vs t, w.Clear o s ms vs t := by
  induction ms using List.reverseRecOn with
  | nil => exact Or.inr ⟨[], s, .nil⟩
  | append_singleton ms m ih =>
    rcases ih with ⟨before, m', r, hobstacle⟩ | ⟨vs, t, hclear⟩
    · left
      cases hobstacle with
      | failing hsplit hclear heval hr =>
        exact ⟨before, m', r, .failing (by rw [hsplit, List.append_assoc]; rfl) hclear heval hr⟩
      | again hsplit hclear heval hname =>
        exact ⟨before, m', _, .again (by rw [hsplit, List.append_assoc]; rfl) hclear heval hname⟩
    · cases heval : w.eval m.value t with
      | done v u =>
        by_cases hname : m.name.name ∈ memberNames ms
        · exact Or.inl ⟨ms, m, _, .again rfl hclear heval hname⟩
        · exact Or.inr ⟨_, _, .concat hclear heval hname⟩
      | unwound e u => exact Or.inl ⟨ms, m, _, .failing rfl hclear heval fun v u h => by cases h⟩
      | exhausted => exact Or.inl ⟨ms, m, _, .failing rfl hclear heval fun v u h => by cases h⟩

/-- Behind members that are clear the object has them, and is still out of sight. -/
theorem Clear.secludes {config : Config} (hhost : config.host.Modest) {n : Nat}
    (h : (walker config n).Clear o s ms vs t) (hs : s.Secludes o {}) :
    t.Secludes o (Bag.ofMembers ms vs) := by
  induction h with
  | nil => exact hs
  | @concat ms m vs v t u hclear heval hnew ih =>
    obtain ⟨hu, hv⟩ := ih.eval hhost heval
    have hfree : ¬ (Bag.ofMembers ms vs).contains m.name.name :=
      fun h => hnew ((Bag.contains_ofMembers hclear.length _).1 h)
    rw [Bag.ofMembers_concat hclear.length]
    exact (hu.add hfree hv).2

end Clear

/-! ## What is asked -/

open Outcome

/-- In a step from `s` a walker is asked about some parts, in order; there are no others. -/
def AsksInTurn {α : Type} (m : Walker → Eval α) (w : Walker) (s : State) (ps : List Part) : Prop :=
  ∃ τ : Script α, τ.Fair Untold (fun _ _ => True) s ∧ (∀ v, m v s = τ.run v) ∧
    (τ.asked w).map Prod.fst = ps

/-- What the members of an object literal ask. -/
def memberScript (o : ObjectRef) : List Member → State → Script Unit
  | [], s => .closed (.done () s)
  | m :: ms, s => (Script.ask (.expr m.value) s .closed).bind fun v t =>
    (Script.closed (Eval.tryHeap (Heap.addProperty (.object o) m.name.name v) t)).bind fun _ u =>
      memberScript o ms u

/-- What an object literal asks. -/
def objectScript (ms : List Member) (s : State) : Script Value :=
  (memberScript s.nextObject ms s.withObject).bind fun _ t =>
    .closed (.done (.object s.nextObject) t)

variable {w : Walker} {config : Config} {n : Nat} {span : Span} {o : ObjectRef}
  {ms before : List Member} {m : Member} {s t : State} {vs : List Value} {r : Outcome Value}

theorem run_memberScript (w : Walker) (o : ObjectRef) (ms : List Member) (s : State) :
    (memberScript o ms s).run w = w.addAll o ms s := by
  induction ms generalizing s with
  | nil => rfl
  | cons m ms ih =>
    have hask : (Script.ask (.expr m.value) s .closed).run w = w.eval m.value s := rfl
    rw [memberScript, Script.run_bind, hask]
    change _ = Eval.bind (w.eval m.value) _ s
    unfold Eval.bind
    cases w.eval m.value s with
    | done v t =>
      dsimp only
      have hadd : ∀ r : Outcome Unit, (Script.closed r).run w = r := fun r => rfl
      rw [Script.run_bind, hadd]
      change _ = Eval.bind (Eval.tryHeap _) _ t
      unfold Eval.bind
      cases Eval.tryHeap (Heap.addProperty (.object o) m.name.name v) t with
      | done _ u => exact ih u
      | unwound e u => rfl
      | exhausted => rfl
    | unwound e t => rfl
    | exhausted => rfl

theorem run_objectScript (config : Config) (span : Span) (w : Walker) (ms : List Member)
    (s : State) :
    w.evaluate config (.object span ms) s = (objectScript ms s).run w := by
  rw [objectScript, Script.run_bind, run_memberScript]
  change Eval.bind (w.addAll s.nextObject ms) _ s.withObject = _
  unfold Eval.bind
  cases w.addAll s.nextObject ms s.withObject <;> rfl

theorem fair_memberScript (o : ObjectRef) (ms : List Member) (s : State) :
    (memberScript o ms s).Fair Untold (fun _ _ => True) s := by
  induction ms generalizing s with
  | nil => exact .closed fun _ _ => trivial
  | cons m ms ih =>
    have hask : (Script.ask (.expr m.value) s .closed).Fair Untold (fun _ _ => True) s :=
      .ask trivial rfl (fun a t => ⟨_, rfl, rfl⟩) fun o t _ => .closed fun _ _ => trivial
    refine hask.bind (fun _ _ _ _ _ => trivial) fun v t => ?_
    have hadd : (Script.closed (Eval.tryHeap (Heap.addProperty (.object o) m.name.name v) t)).Fair
        Untold (fun _ _ => True) t := .closed fun _ _ => trivial
    exact hadd.bind (fun _ _ _ _ _ => trivial) fun _ u => ih u

theorem fair_objectScript (ms : List Member) (s : State) :
    (objectScript ms s).Fair Untold (fun _ _ => True) s := by
  have hmembers : (memberScript s.nextObject ms s.withObject).Fair Untold (fun _ _ => True) s :=
    (fair_memberScript _ ms _).after (fun _ _ _ _ _ => trivial) trivial
  exact hmembers.bind (fun _ _ _ _ _ => trivial) fun _ _ => .closed fun _ _ => trivial

theorem memberScript_append (before behind : List Member) (s : State) :
    memberScript o (before ++ behind) s =
      (memberScript o before s).bind fun _ t => memberScript o behind t := by
  induction before generalizing s with
  | nil => rfl
  | cons m before ih =>
    rw [List.cons_append, memberScript, memberScript, Script.bind_assoc]
    refine congrArg (Script.bind · _) (funext₂ fun v t => ?_)
    rw [Script.bind_assoc]
    exact congrArg (Script.bind · _) (funext₂ fun _ u => ih u)

/-- How the first of some members goes, in a script. -/
theorem asked_memberScript_cons (w : Walker) (o : ObjectRef) (m : Member) (ms : List Member)
    (s : State) : (memberScript o (m :: ms) s).asked w = (.expr m.value, s) ::
      match w.eval m.value s with
      | .done v t =>
        match Eval.tryHeap (Heap.addProperty (.object o) m.name.name v) t with
        | .done _ u => (memberScript o ms u).asked w
        | _ => []
      | _ => [] := by
  have hask : (Script.ask (.expr m.value) s .closed).run w = w.eval m.value s := rfl
  rw [memberScript, Script.asked_bind, hask]
  refine congrArg ((Part.expr m.value, s) :: ·) ?_
  cases w.eval m.value s with
  | done v t =>
    dsimp only
    have hclosed : ∀ r : Outcome Unit, (Script.closed r).run w = r := fun _ => rfl
    change (Script.bind _ (.closed _)).asked w = _
    rw [Script.asked_bind, hclosed]
    cases Eval.tryHeap (Heap.addProperty (.object o) m.name.name v) t <;> rfl
  | _ => rfl

theorem addAll_cons (w : Walker) (o : ObjectRef) (m : Member) (ms : List Member) (s : State) :
    w.addAll o (m :: ms) s =
      match w.eval m.value s with
      | .done v t =>
        match Eval.tryHeap (Heap.addProperty (.object o) m.name.name v) t with
        | .done _ u => w.addAll o ms u
        | .unwound e u => .unwound e u
        | .exhausted => .exhausted
      | .unwound e t => .unwound e t
      | .exhausted => .exhausted := by
  change Eval.bind (w.eval m.value) _ s = _
  unfold Eval.bind
  cases w.eval m.value s with
  | done v t =>
    dsimp only
    change Eval.bind (Eval.tryHeap _) _ t = _
    unfold Eval.bind
    cases Eval.tryHeap (Heap.addProperty (.object o) m.name.name v) t <;> rfl
  | unwound e t => rfl
  | exhausted => rfl

/-! ### With an obstacle and without one -/

section Ends

variable (hhost : config.host.Modest)

include hhost

/-- An expression that succeeds behind members that are clear leaves the object with them, and its
value is another one. -/
theorem Clear.eval (h : (walker config n).Clear o s before vs t) (hs : s.Secludes o {}) {v : Value}
    {u : State} (heval : (walker config n).eval m.value t = .done v u) :
    u.Secludes o (Bag.ofMembers before vs) ∧ v ≠ .object o :=
  (h.secludes hhost hs).eval hhost heval

/-- Members that are clear are all asked about, and added. -/
theorem Clear.run (h : (walker config n).Clear o s ms vs t) (hs : s.Secludes o {}) :
    (memberScript o ms s).run (walker config n) = .done () t ∧
      ((memberScript o ms s).asked (walker config n)).map Prod.fst =
        ms.map fun m => .expr m.value := by
  induction h with
  | nil => exact ⟨rfl, rfl⟩
  | @concat ms m vs v t u hclear heval hnew ih =>
    obtain ⟨hrun, hasked⟩ := ih
    obtain ⟨hu, hv⟩ := hclear.eval hhost hs heval
    have hfree : ¬ (Bag.ofMembers ms vs).contains m.name.name :=
      fun h => hnew ((Bag.contains_ofMembers hclear.length _).1 h)
    obtain ⟨hadd, -⟩ := hu.add hfree hv
    have hlast : (memberScript o [m] t).run (walker config n) =
        .done () (u.adding o m.name.name v) := by
      rw [run_memberScript, addAll_cons, heval]
      dsimp only
      rw [hadd]
      rfl
    have hasks : (memberScript o [m] t).asked (walker config n) = [(.expr m.value, t)] := by
      rw [asked_memberScript_cons, heval]
      dsimp only
      rw [hadd]
      rfl
    rw [memberScript_append, Script.run_bind, Script.asked_bind, hrun]
    dsimp only
    rw [hlast, hasks, List.map_append, hasked, List.map_append]
    exact ⟨rfl, rfl⟩

/-- Behind members that are clear, an object literal goes on with the others. -/
theorem Clear.goes_on (h : (walker config n).Clear s.nextObject s.withObject before vs t)
    (hs : s.Whole) (behind : List Member) :
    (objectScript (before ++ behind) s).run (walker config n) =
        ((memberScript s.nextObject behind t).bind fun _ u =>
          .closed (.done (.object s.nextObject) u)).run (walker config n) ∧
      ((objectScript (before ++ behind) s).asked (walker config n)).map Prod.fst =
        before.map (fun m => .expr m.value) ++
          ((memberScript s.nextObject behind t).asked (walker config n)).map Prod.fst := by
  obtain ⟨hrun, hasked⟩ := h.run hhost hs.secludes
  have hnothing : ∀ τ : Script Unit, (τ.bind fun _ u =>
      Script.closed (.done (Value.object s.nextObject) u)).asked (walker config n) =
        τ.asked (walker config n) := by
    intro τ
    rw [Script.asked_bind]
    cases τ.run (walker config n) <;> exact List.append_nil _
  constructor
  · rw [objectScript, memberScript_append, Script.bind_assoc, Script.run_bind, hrun]
  · rw [objectScript, hnothing, memberScript_append, Script.asked_bind, hrun]
    dsimp only
    rw [List.map_append, hasked]

/-- An obstacle ends an object literal, and those behind it are not evaluated. -/
theorem Obstacle.ends
    (h : (walker config n).Obstacle s.nextObject s.withObject ms before m r) (hs : s.Whole) :
    (objectScript ms s).run (walker config n) = r ∧
      ((objectScript ms s).asked (walker config n)).map Prod.fst =
        (before ++ [m]).map fun m => .expr m.value := by
  cases h with
  | @failing behind _ _ vs t hsplit hclear heval hr =>
    obtain ⟨hrun, hasked⟩ := hclear.goes_on hhost hs (m :: behind)
    rw [hsplit, hrun, hasked, Script.run_bind, run_memberScript, addAll_cons,
      asked_memberScript_cons, heval, List.map_append]
    cases r with
    | done v u => exact absurd rfl (hr v u)
    | unwound e u => exact ⟨rfl, rfl⟩
    | exhausted => exact ⟨rfl, rfl⟩
  | @again behind _ vs t v u hsplit hclear heval hname =>
    obtain ⟨hrun, hasked⟩ := hclear.goes_on hhost hs (m :: behind)
    have hthere := (Bag.contains_ofMembers hclear.length m.name.name).2 hname
    have hagain := (hclear.eval hhost hs.secludes heval).1.add_again hthere v
    rw [hsplit, hrun, hasked, Script.run_bind, run_memberScript, addAll_cons,
      asked_memberScript_cons, heval, List.map_append]
    dsimp only
    rw [hagain]
    exact ⟨rfl, rfl⟩

/-- Without one the literal yields its object. -/
theorem Clear.ends (h : (walker config n).Clear s.nextObject s.withObject ms vs t) (hs : s.Whole) :
    (objectScript ms s).run (walker config n) = .done (.object s.nextObject) t ∧
      ((objectScript ms s).asked (walker config n)).map Prod.fst =
        ms.map fun m => .expr m.value := by
  obtain ⟨hrun, hasked⟩ := h.goes_on hhost hs []
  rw [List.append_nil] at hrun hasked
  refine ⟨hrun, ?_⟩
  rw [hasked]
  exact List.append_nil _

end Ends

/-- The parts that an object literal asks about are those of its script. -/
theorem asksInTurn_object {ps : List Part} {w : Walker}
    (h : ((objectScript ms s).asked w).map Prod.fst = ps) :
    AsksInTurn (fun w => w.evaluate config (.object span ms)) w s ps :=
  ⟨objectScript ms s, fair_objectScript ms s, fun v => run_objectScript config span v ms s, h⟩

end Walker

/-! ## The object -/

theorem Heap.Has.ne_nextObject {s : State} {v : Value} (hv : s.world.heap.Has v) :
    v ≠ .object s.nextObject := by
  rintro rfl
  cases hv with
  | object hr => exact Nat.lt_irrefl _ hr

open Walker

/-- **Object literals.**  An object literal makes its object `o`, which is none of the values that
are in the heap or held before it, and then gives it the members; they have a first obstacle or none.

With an obstacle the expressions up to it are evaluated, in order, and no others; the literal ends as
the last of them does, or, if that succeeds, with the fault that its name is there already.  With
none, all the expressions are evaluated in order, and the literal yields `o`, which nobody holds yet.
Its properties have the names of the members, and the value of each is that of the member's
expression.

At each moment while the expression of a member is evaluated, whatever is called and changed there,
`o` has just the properties that it was given before, and no value that is held is this object.

That what is held in `s` exists is so in every state that is reached (`objects_exist`).  An embedder
that brings functions has to be modest: they must not conjure up a value that nobody gave them. -/
theorem object_literals (config : Config) (hhost : config.host.Modest) (n : Nat) (span : Span)
    (ms : List Member) (s : State) (hs : s.Whole) :
    ((∃ before m r, (walker config n).Obstacle s.nextObject s.withObject ms before m r) ∨
      ∃ vs t, (walker config n).Clear s.nextObject s.withObject ms vs t) ∧
    (∀ before m r, (walker config n).Obstacle s.nextObject s.withObject ms before m r →
      (walker config (n + 1)).eval (.object span ms) s = r ∧
      AsksInTurn (fun w => w.evaluate config (.object span ms)) (walker config n) s
        ((before ++ [m]).map fun m => .expr m.value)) ∧
    (∀ vs t, (walker config n).Clear s.nextObject s.withObject ms vs t →
      (walker config (n + 1)).eval (.object span ms) s = .done (.object s.nextObject) t ∧
      AsksInTurn (fun w => w.evaluate config (.object span ms)) (walker config n) s
        (ms.map fun m => .expr m.value) ∧
      (∀ x, (t.world.heap.property? (.object s.nextObject) x).isSome ↔ x ∈ memberNames ms) ∧
      vs.length = ms.length ∧
      ∀ p ∈ ms.zip vs,
        t.world.heap.property? (.object s.nextObject) p.1.name.name = some p.2) ∧
    (∀ v, s.world.heap.Has v ∨ s.Holds v → v ≠ .object s.nextObject) ∧
    ∀ before vs t, (walker config n).Clear s.nextObject s.withObject before vs t →
      t.Secludes s.nextObject (Bag.ofMembers before vs) ∧
      ∀ e k u, Passes config n (.part (.expr e)) t k u →
        u.Secludes s.nextObject (Bag.ofMembers before vs) := by
  refine ⟨obstacle_or_clear _ _ ms _, fun before m r h => ?_, fun vs t h => ?_, fun v hv => ?_,
    fun before vs t h => ?_⟩
  · obtain ⟨hrun, hasked⟩ := h.ends hhost hs
    rw [← run_objectScript config span] at hrun
    exact ⟨hrun, asksInTurn_object hasked⟩
  · obtain ⟨hrun, hasked⟩ := h.ends hhost hs
    rw [← run_objectScript config span] at hrun
    have hbag := (h.secludes hhost hs.secludes).bag
    have hprop : ∀ x, t.world.heap.property? (.object s.nextObject) x =
        (Bag.ofMembers ms vs).get? x := by
      intro x
      have hthere : t.world.heap.bag? (.object s.nextObject) = some (Bag.ofMembers ms vs) := by
        rw [Heap.bag?, hbag]
        rfl
      rw [Heap.property?, hthere]
      rfl
    refine ⟨hrun, asksInTurn_object hasked, fun x => ?_, h.length,
      fun p hp => (hprop _).trans (Bag.get?_ofMembers h.length h.distinct hp)⟩
    rw [hprop]
    exact Bag.contains_ofMembers h.length x
  · rcases hv with hv | hv
    · exact hv.ne_nextObject
    · rintro rfl
      exact Nat.lt_irrefl _ (hs _ hv _ rfl)
  · have hsecludes := h.secludes hhost hs.secludes
    exact ⟨hsecludes, fun e k u hu => hsecludes.passes hhost hu⟩

/-- The members of `new { a: true, b: new {} }`. -/
def nestedMembers : List Member :=
  [⟨⟨"a", default⟩, .bool default true⟩, ⟨⟨"b", default⟩, .object default []⟩]

/-- The members of `new { a: true, a: new {}, b: -null }`. -/
def repeatedMembers : List Member :=
  [⟨⟨"a", default⟩, .bool default true⟩, ⟨⟨"a", default⟩, .object default []⟩,
    ⟨⟨"b", default⟩, .unary default .minus (.null default)⟩]

/-- The object of the first literal has the inner object as its property.  In the second literal the
inner object is made before the name is found out, and the last member is not evaluated. -/
theorem objects_of_literals :
    (∃ o u, (walker {} 3).eval (.object default nestedMembers) (State.start [] {} {}) =
        .done (.object o) u ∧ o ≠ ⟨1⟩ ∧
      u.world.heap.property? (.object o) "b" = some (.object ⟨1⟩)) ∧
    ∃ u, (walker {} 3).eval (.object default repeatedMembers) (State.start [] {} {}) =
        .unwound (.fault (.duplicateProperty "a")) u ∧ u.world.heap.objects.size = 2 := by
  have hwhole : (State.start [] {} {}).Whole :=
    whole_start (fun _ h => absurd h List.not_mem_nil) {} {}
  have hfirst : (walker {} 2).Clear ⟨0⟩ (State.start [] {} {}).withObject
      [⟨⟨"a", default⟩, .bool default true⟩] [.bool true] _ := .single rfl
  constructor
  · obtain ⟨-, -, hclear, -⟩ :=
      object_literals {} Host.bare_modest 2 default nestedMembers (State.start [] {} {}) hwhole
    have hboth : (walker {} 2).Clear ⟨0⟩ (State.start [] {} {}).withObject nestedMembers
        [.bool true, .object ⟨1⟩] _ :=
      @Clear.concat _ _ _ [_] _ [_] _ _ _ hfirst rfl (by decide)
    obtain ⟨heval, -, -, -, hvalues⟩ := hclear _ _ hboth
    exact ⟨_, _, heval, by decide, hvalues (_, _) (List.mem_cons_of_mem _ List.mem_cons_self)⟩
  · obtain ⟨-, hobstacle, -⟩ :=
      object_literals {} Host.bare_modest 2 default repeatedMembers (State.start [] {} {}) hwhole
    have hagain : (walker {} 2).Obstacle ⟨0⟩ (State.start [] {} {}).withObject repeatedMembers
        [⟨⟨"a", default⟩, .bool default true⟩] ⟨⟨"a", default⟩, .object default []⟩ _ :=
      .again rfl hfirst rfl List.mem_cons_self
    exact ⟨_, (hobstacle _ _ _ hagain).1, rfl⟩

end SmallScript
