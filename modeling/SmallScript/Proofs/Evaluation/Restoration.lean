/-
  The scope and the call depth are given back.

  However a step ends, the scope and the depth are afterwards what they were before.  While it is
  under way, the depth is its first value and one more for each function body that is open, and
  never more than the limit.

  The second statement is about moments inside an evaluation.  `Walker.Asks` finds them without
  following the evaluator's text: a node is evaluated by asking a walker about its parts, and a
  part is asked about, in some state, just if another answer there could change the outcome.
  `Passes` goes from part to part.  Expressions hold statements only in function bodies, so the
  open bodies are counted where an expression or a call asks about a statement.

  Both come from one relation: `Alike d m m'` says that at depth `d` the steps `m` and `m'` do the
  same and come back to where they began.  With `m` and `m'` equal this is the first statement; with
  walkers that differ in one answer only it is the second.
-/
import SmallScript.Interpreter

namespace SmallScript

/-! ## Coming back -/

/-- The state that an outcome leaves behind, if any. -/
def Outcome.state? {α : Type} : Outcome α → Option State
  | .done _ s => some s
  | .unwound _ s => some s
  | .exhausted => none

/-- A change of the last state is seen where there is a last state. -/
theorem Outcome.state?_onState {α : Type} {f : State → State} {r : Outcome α} {t : State} :
    (r.onState f).state? = some t ↔ ∃ u, r.state? = some u ∧ f u = t := by
  cases r <;> simp [Outcome.onState, Outcome.state?]

/-- In `t` the evaluation stands where it stood in `s`. -/
structure State.Back (s t : State) : Prop where
  scope : t.scope = s.scope
  globals : t.globals = s.globals
  depth : t.depth = s.depth

theorem State.Back.refl (s : State) : s.Back s := ⟨rfl, rfl, rfl⟩

/-- Coming back twice is coming back. -/
theorem State.Back.trans {s t u : State} (h : s.Back t) (h' : t.Back u) : s.Back u :=
  ⟨h'.scope.trans h.scope, h'.globals.trans h.globals, h'.depth.trans h.depth⟩

namespace Eval

variable {α β : Type} {d : Nat}

/-- A step comes back, however it ends. -/
def Steady (m : Eval α) : Prop := ∀ s t, (m s).state? = some t → s.Back t

/-- At depth `d` two steps do the same, and come back. -/
def Alike (d : Nat) (m m' : Eval α) : Prop :=
  ∀ s, s.depth = d → m s = m' s ∧ ∀ t, (m s).state? = some t → s.Back t

/-- What is steady does the same as itself at every depth. -/
theorem Steady.alike {m : Eval α} (h : m.Steady) : Alike d m m := fun s _ => ⟨rfl, h s⟩

/-- A step that leaves its state as it is. -/
theorem Steady.of_same {m : Eval α} (h : ∀ s t, (m s).state? = some t → t = s) : m.Steady :=
  fun s t ht => h s t ht ▸ State.Back.refl s

/-- What does nothing comes back. -/
theorem steady_pure (a : α) : (pure a : Eval α).Steady :=
  .of_same fun _ _ h => (Option.some.inj h).symm

theorem steady_unwind (u : Unwind) : (unwind u : Eval α).Steady :=
  .of_same fun _ _ h => (Option.some.inj h).symm

theorem steady_fail (f : Fault) : (fail f : Eval α).Steady := steady_unwind _

/-- What comes to no end has nowhere to come back from. -/
theorem steady_exhausted : (exhausted : Eval α).Steady := fun _ _ h => nomatch h

theorem steady_look (f : State → α) : (look f).Steady :=
  .of_same fun _ _ h => (Option.some.inj h).symm

/-- A result is passed on where one is. -/
theorem steady_ofExcept (r : Except Fault α) : (ofExcept r).Steady := by
  cases r with
  | ok a => exact steady_pure a
  | error f => exact steady_fail f

/-- Scope and depth are no parts of the world. -/
theorem steady_onWorld (f : World → α × World) : (onWorld f).Steady := by
  intro s t h
  cases h
  exact ⟨rfl, rfl, rfl⟩

theorem steady_onHeap (f : Heap → α × Heap) : (onHeap f).Steady := steady_onWorld _

/-- Nor are they parts of the frames. -/
theorem steady_onFrames (f : Frames → α × Frames) : (onFrames f).Steady := by
  intro s t h
  cases h
  exact ⟨rfl, rfl, rfl⟩

theorem steady_define (f : FrameRef) (name : String) (v : Value) : (define f name v).Steady :=
  steady_onFrames _

/-- Nor are they remembered of nodes. -/
theorem steady_onMemo (f : Memo → Memo) : (onMemo f).Steady := by
  intro s t h
  cases h
  exact ⟨rfl, rfl, rfl⟩

/-- Behind a step that comes back the next one starts at the same depth. -/
theorem Alike.bind {x x' : Eval α} {f f' : α → Eval β} (hx : Alike d x x')
    (hf : ∀ a, Alike d (f a) (f' a)) : Alike d (x >>= f) (x' >>= f') := by
  intro s hs
  obtain ⟨heq, hback⟩ := hx s hs
  change Eval.bind x f s = Eval.bind x' f' s ∧ ∀ t, (Eval.bind x f s).state? = some t → s.Back t
  unfold Eval.bind
  rw [← heq]
  cases hr : x s with
  | done a t =>
    have hst : s.Back t := hback t (by rw [hr]; rfl)
    obtain ⟨heq', hback'⟩ := hf a t (hst.depth.trans hs)
    exact ⟨heq', fun u hu => hst.trans (hback' u hu)⟩
  | unwound u t => exact ⟨rfl, fun v hv => hback v (by rw [hr]; exact hv)⟩
  | exhausted => exact ⟨rfl, fun v hv => nomatch hv⟩

/-- So one may go on with a step that is steady. -/
theorem Steady.bind {x : Eval α} {f f' : α → Eval β} (hx : x.Steady)
    (hf : ∀ a, Alike d (f a) (f' a)) : Alike d (x >>= f) (x >>= f') :=
  Alike.bind hx.alike hf

theorem steady_tryWorld (f : World → Except Fault α × World) : (tryWorld f).Steady :=
  fun s => ((steady_onWorld f).bind fun r => (steady_ofExcept r).alike) s rfl |>.2

theorem steady_tryHeap (f : Heap → Except Fault α × Heap) : (tryHeap f).Steady :=
  steady_tryWorld _

theorem steady_produce (result : Heap → Except Fault Product) : (produce result).Steady :=
  steady_tryWorld _

/-! ### Inside a frame or a call -/

/-- A step without an end has none inside another. -/
theorem within_exhausted {σ : Type} {enter : State → σ × State} {leave : σ → State → State}
    {m : Eval α} {s : State} (h : m (enter s).2 = .exhausted) :
    within enter leave m s = .exhausted :=
  congrArg (Outcome.onState _) h

/-- A step in another scope gives the scope back, and leaves the depth as the step leaves it. -/
theorem inScope_apply (scope : Scope) (m : Eval α) (s : State) :
    inScope scope m s =
      (m { s with scope }).onState fun t => { t with scope := s.scope } := rfl

/-- A call counts one level before its body, and one less behind it. -/
theorem counted_apply (m : Eval α) (s : State) :
    counted m s = (m { s with depth := s.depth + 1 }).onState fun t =>
      { t with depth := t.depth - 1 } := rfl

/-- The old scope is put back; the depth is what the step leaves. -/
theorem Alike.inScope {m m' : Eval α} (h : Alike d m m') (scope : Scope) :
    Alike d (Eval.inScope scope m) (Eval.inScope scope m') := by
  intro s hs
  obtain ⟨heq, hback⟩ := h { s with scope } hs
  rw [inScope_apply, inScope_apply, heq]
  refine ⟨rfl, fun t ht => ?_⟩
  obtain ⟨u, hu, rfl⟩ := Outcome.state?_onState.1 ht
  have hsu := hback u (heq ▸ hu)
  exact ⟨rfl, hsu.globals, hsu.depth⟩

/-- One is counted and taken back, so a step that keeps the greater depth keeps the depth. -/
theorem Alike.counted {m m' : Eval α} (h : Alike (d + 1) m m') :
    Alike d (Eval.counted m) (Eval.counted m') := by
  intro s hs
  have hinside : s.depth + 1 = d + 1 := by rw [hs]
  obtain ⟨heq, hback⟩ := h { s with depth := s.depth + 1 } hinside
  rw [counted_apply, counted_apply, heq]
  refine ⟨rfl, fun t ht => ?_⟩
  obtain ⟨u, hu, rfl⟩ := Outcome.state?_onState.1 ht
  have hsu := hback u (heq ▸ hu)
  have hdepth : u.depth - 1 = s.depth := by
    rw [hsu.depth]
    exact Nat.add_sub_cancel _ _
  exact ⟨hsu.scope, hsu.globals, hdepth⟩

end Eval

/-! ## One level of a walk -/

namespace Walker

open Eval

variable {v w : Walker} {config : Config} {d : Nat}

/-- Statements in a row each come back. -/
theorem alike_execAll (hexec : ∀ t, Alike d (v.exec t) (w.exec t)) (ts : List Stmt) :
    Alike d (v.execAll ts) (w.execAll ts) := by
  induction ts with
  | nil => exact (steady_pure ()).alike
  | cons t ts ih => exact (hexec t).bind fun _ => ih

/-- So do the arguments of a call. -/
theorem alike_evalAll (heval : ∀ e, Alike d (v.eval e) (w.eval e)) (es : List Expr) :
    Alike d (v.evalAll es) (w.evalAll es) := by
  induction es with
  | nil => exact (steady_pure _).alike
  | cons e es ih => exact (heval e).bind fun a => ih.bind fun as => (steady_pure _).alike

/-- So do the members of an object literal. -/
theorem alike_addAll (heval : ∀ e, Alike d (v.eval e) (w.eval e)) (r : ObjectRef)
    (ms : List Member) : Alike d (v.addAll r ms) (w.addAll r ms) := by
  induction ms with
  | nil => exact (steady_pure ()).alike
  | cons m ms ih => exact (heval m.value).bind fun a => (steady_tryHeap _).bind fun _ => ih

/-- So do the items of a list literal. -/
theorem alike_pushAll (heval : ∀ e, Alike d (v.eval e) (w.eval e)) (r : ListRef)
    (es : List Expr) : Alike d (v.pushAll r es) (w.pushAll r es) := by
  induction es with
  | nil => exact (steady_pure ()).alike
  | cons e es ih => exact (heval e).bind fun a => (steady_onHeap _).bind fun _ => ih

/-- A literal asks no walker. -/
theorem alike_literal (id : NodeId) (meaning : Unit → Except Fault Product) :
    Alike d (literal id meaning) (literal id meaning) := by
  refine (steady_look _).bind fun known => ?_
  cases known with
  | some a => exact (steady_pure a).alike
  | none =>
    refine (steady_produce _).bind fun a => (steady_onMemo _).bind fun _ => ?_
    exact (steady_pure a).alike

theorem alike_listOf (id : NodeId) : Alike d (listOf id) (listOf id) := by
  refine (steady_look _).bind fun known => ?_
  cases known with
  | some r => exact (steady_pure r).alike
  | none =>
    refine (steady_onHeap _).bind fun r => (steady_onMemo _).bind fun _ => ?_
    exact (steady_pure r).alike

/-! ### Calls -/

/-- Making null of a fault moves nothing. -/
theorem steady_contain (f : Fault) : (contain config f).Steady := by
  unfold contain
  split
  · exact steady_fail f
  · exact steady_pure _

/-- What a body comes to is taken up where the call was. -/
theorem Alike.finishCall {body body' : Eval Unit} (h : Alike d body body') :
    Alike d (finishCall config body) (finishCall config body') := by
  intro s hs
  obtain ⟨heq, hback⟩ := h s hs
  unfold Walker.finishCall
  rw [← heq]
  cases hr : body s with
  | done _ t => exact ⟨rfl, fun u hu => hback u (by rw [hr]; exact hu)⟩
  | unwound u t =>
    have hst : s.Back t := hback t (by rw [hr]; rfl)
    refine ⟨rfl, fun t' ht' => ?_⟩
    cases u with
    | «return» a => exact hback t' (by rw [hr]; exact ht')
    | jump j => exact hst.trans (steady_contain _ t t' ht')
    | fault f => exact hst.trans (steady_contain _ t t' ht')
  | exhausted => exact ⟨rfl, fun u hu => nomatch hu⟩

/-- A body that comes to no end has no answer. -/
theorem finishCall_exhausted {body : Eval Unit} {s : State} (h : body s = .exhausted) :
    finishCall config body s = .exhausted := by
  unfold finishCall
  rw [h]

/-- A call with the depth put in that is seen when it begins. -/
theorem callClosure_apply (c : Closure) (args : List Value) (s : State) :
    w.callClosure config c args s =
      (if config.maxDepth ≤ s.depth then contain config (.callDepthExceeded config.maxDepth)
      else do
        let scope ← onFrames fun fs =>
          let (scope, fs) := fs.openChild c.scope
          (scope, fs.defineAll scope.frame (c.decl.params.zip args))
        finishCall config (counted (inScope scope (w.execAll c.decl.body.stmts)))) s := rfl

/-- A function is called only below the limit, and its body is executed one level deeper. -/
theorem alike_callClosure
    (hbody : d < config.maxDepth → ∀ t, Alike (d + 1) (v.exec t) (w.exec t)) (c : Closure)
    (args : List Value) : Alike d (v.callClosure config c args) (w.callClosure config c args) := by
  intro s hs
  subst hs
  rw [callClosure_apply, callClosure_apply]
  split
  · exact (steady_contain _).alike s rfl
  · rename_i hlimit
    refine ((steady_onFrames _).bind fun scope => ?_) s rfl
    have halike := alike_execAll (hbody (by omega)) c.decl.body.stmts
    exact Alike.finishCall (halike.inScope scope).counted

/-- Only the body of a closure is one level deeper; a native function asks no walker. -/
theorem alike_call (hbody : d < config.maxDepth → ∀ t, Alike (d + 1) (v.exec t) (w.exec t))
    (f : Callable) (args : List Value) :
    Alike d (v.call config f args) (w.call config f args) := by
  unfold call
  split
  · cases f with
    | native op => exact (steady_tryWorld _).alike
    | host f => exact (steady_tryWorld _).alike
    | closure c => exact alike_callClosure hbody c args
  · exact (steady_fail _).alike

theorem alike_asFunction (a : Value) : Alike d (asFunction a) (asFunction a) := by
  unfold asFunction
  split
  · exact (steady_pure _).alike
  · exact (steady_look _).bind fun f => (steady_fail f).alike

/-! ### Loops -/

/-- A loop that goes on behind a jump goes on where it was. -/
theorem Alike.goesOn {body body' : Eval Unit} (h : Alike d body body') :
    Alike d (goesOn body) (goesOn body') := by
  intro s hs
  obtain ⟨heq, hback⟩ := h s hs
  unfold Walker.goesOn
  rw [← heq]
  cases hr : body s with
  | done _ t => exact ⟨rfl, fun t' ht' => hback t' (by rw [hr]; exact ht')⟩
  | unwound u t =>
    refine ⟨rfl, fun t' ht' => hback t' ?_⟩
    rw [hr]
    cases u with
    | «return» a => exact ht'
    | jump j => cases j <;> exact ht'
    | fault f => exact ht'
  | exhausted => exact ⟨rfl, fun u hu => nomatch hu⟩

/-- By induction on the rounds that are left. -/
theorem Alike.repeated {round round' : Eval Bool} (h : Alike d round round') (n : Nat) :
    Alike d (repeated round n) (repeated round' n) := by
  induction n with
  | zero => exact steady_exhausted.alike
  | succ n ih =>
    rw [repeated_succ, repeated_succ]
    refine h.bind fun more => ?_
    split
    · exact ih
    · exact (steady_pure ()).alike

/-- A round is a test, a body and a step, at one depth. -/
theorem alike_round (heval : ∀ e, Alike d (v.eval e) (w.eval e)) {step step' : Eval Unit}
    (hstep : Alike d step step') {body : Stmt} (hbody : Alike d (v.exec body) (w.exec body))
    (test : Expr) : Alike d (v.round test step body) (w.round test step' body) := by
  refine (heval test).bind fun a => ?_
  split
  · refine (Alike.goesOn hbody).bind fun more => ?_
    split
    · exact hstep.bind fun _ => (steady_pure true).alike
    · exact (steady_pure false).alike
  · exact (steady_pure false).alike

/-! ### Nodes -/

/-- An expression is evaluated by asking about expressions where it stands, and about statements
only in function bodies, one level deeper. -/
theorem alike_evaluate (heval : ∀ e, Alike d (v.eval e) (w.eval e))
    (hbody : d < config.maxDepth → ∀ t, Alike (d + 1) (v.exec t) (w.exec t)) (e : Expr) :
    Alike d (v.evaluate config e) (w.evaluate config e) := by
  unfold evaluate
  cases e with
  | int span id raw => exact alike_literal id _
  | float span id raw => exact alike_literal id _
  | string span id raw => exact alike_literal id _
  | bool span b => exact (steady_pure _).alike
  | null span => exact (steady_pure _).alike
  | list span id items =>
    refine (alike_listOf id).bind fun r => (steady_onHeap _).bind fun _ => ?_
    exact (alike_pushAll heval r items).bind fun _ => (steady_pure _).alike
  | object span members =>
    refine (steady_onHeap _).bind fun r => (alike_addAll heval r members).bind fun _ => ?_
    exact (steady_pure _).alike
  | name span x => exact (steady_look _).bind fun r => (steady_ofExcept r).alike
  | property span target x =>
    refine (heval target).bind fun a => (steady_look _).bind fun p => ?_
    cases p with
    | some p => exact (steady_pure p).alike
    | none => exact (steady_fail _).alike
  | call span callee args =>
    refine (heval callee).bind fun a => (alike_asFunction a).bind fun f => ?_
    exact (alike_evalAll heval args).bind fun values => alike_call hbody f values
  | lambda span decl => exact (steady_look _).bind fun scope => (steady_onHeap _).alike
  | binary span op left right =>
    exact (heval left).bind fun a => (heval right).bind fun b => (steady_produce _).alike
  | unary span op operand => exact (heval operand).bind fun a => (steady_produce _).alike
  | logical span op left right =>
    refine (heval left).bind fun a => ?_
    have choice : ∀ decided : Bool,
        Alike d (if decided then pure a else v.eval right)
          (if decided then pure a else w.eval right) := by
      intro decided
      split
      · exact (steady_pure a).alike
      · exact heval right
    cases op <;> exact choice _
  | coalesce span left right =>
    refine (heval left).bind fun a => ?_
    split
    · exact heval right
    · exact (steady_pure a).alike

theorem alike_noteDefinition (id : NodeId) (name : String) :
    Alike d (noteDefinition id name) (noteDefinition id name) := by
  refine (steady_look _).bind fun known => ?_
  split
  · exact (steady_pure ()).alike
  · refine (steady_look _).bind fun taken => ?_
    split
    · exact (steady_fail _).alike
    · exact (steady_onMemo _).alike

/-- A block is executed at the depth at which it stands. -/
theorem alike_execBlock (hexec : ∀ t, Alike d (v.exec t) (w.exec t)) (b : Block) :
    Alike d (v.execBlock b) (w.execBlock b) := by
  refine (steady_look _).bind fun outer => (steady_onFrames _).bind fun scope => ?_
  exact (alike_execAll hexec b.stmts).inScope scope

/-- A statement is executed by asking about parts at the depth at which it stands. -/
theorem alike_execute (hrounds : v.rounds = w.rounds) (heval : ∀ e, Alike d (v.eval e) (w.eval e))
    (hexec : ∀ t, Alike d (v.exec t) (w.exec t)) (t : Stmt) :
    Alike d (v.execute t) (w.execute t) := by
  unfold execute
  cases t with
  | expr e => exact (heval e).bind fun a => (steady_pure ()).alike
  | assign span x e =>
    exact (steady_look _).bind fun f => (heval e).bind fun a => (steady_define _ _ _).alike
  | assignProperty span target x e =>
    exact (heval target).bind fun o => (heval e).bind fun a => (steady_tryHeap _).alike
  | define span id x decl =>
    refine (alike_noteDefinition id x.name).bind fun _ => (steady_look _).bind fun scope => ?_
    exact (steady_onHeap _).bind fun f => (steady_define _ _ _).alike
  | cond span test yes no =>
    refine (heval test).bind fun a => ?_
    split
    · exact hexec yes
    · cases no with
      | some no => exact hexec no
      | none => exact (steady_pure ()).alike
  | «while» span test body =>
    rw [hrounds]
    exact Alike.repeated (alike_round heval (steady_pure ()).alike (hexec body) test) _
  | «for» span init test step body =>
    rw [hrounds]
    refine (hexec init).bind fun _ => ?_
    exact Alike.repeated (alike_round heval (hexec step) (hexec body) test) _
  | «break» span => exact (steady_unwind _).alike
  | «continue» span => exact (steady_unwind _).alike
  | «return» span value =>
    cases value with
    | none => exact (steady_unwind _).alike
    | some e => exact (heval e).bind fun a => (steady_unwind _).alike
  | write span e => exact (heval e).bind fun a => (steady_onWorld _).alike
  | block b => exact alike_execBlock hexec b

end Walker

/-! ## Parts and tasks -/

/-- What a walker is asked about. -/
inductive Part where
  | expr (e : Expr)
  | stmt (t : Stmt)

/-- What can be under way: a part, or a call from outside. -/
inductive Task where
  | part (p : Part)
  | call (f : Callable) (args : List Value)

abbrev Part.Result : Part → Type
  | .expr _ => Value
  | .stmt _ => Unit

abbrev Task.Result : Task → Type
  | .part p => p.Result
  | .call _ _ => Value

/-- How many function bodies are opened between a task and a part it asks about: an expression, or
a call, has statements only in the body of a function that is called. -/
def Task.opens : Task → Part → Nat
  | .part (.stmt _), _ => 0
  | .part (.expr _), .expr _ => 0
  | .call _ _, .expr _ => 0
  | .part (.expr _), .stmt _ => 1
  | .call _ _, .stmt _ => 1

namespace Walker

open Eval

variable {v w : Walker} {config : Config} {d : Nat}

/-- The answer of a walker about a part. -/
def ask (w : Walker) : (p : Part) → Eval p.Result
  | .expr e => w.eval e
  | .stmt t => w.exec t

open Classical in
/-- The walker that answers like `w`, but with `out` about `p` in `s'`. -/
noncomputable def divert (w : Walker) (p : Part) (s' : State) (out : {α : Type} → Outcome α) :
    Walker where
  eval e s := if .expr e = p ∧ s = s' then out else w.eval e s
  exec t s := if .stmt t = p ∧ s = s' then out else w.exec t s
  rounds := w.rounds

/-- A walker that is diverted at a part gives the answer put there. -/
theorem divert_ask (w : Walker) (p : Part) (s' : State) (out : {α : Type} → Outcome α) :
    (w.divert p s' out).ask p s' = out := by
  cases p with
  | expr e => exact if_pos ⟨rfl, rfl⟩
  | stmt t => exact if_pos ⟨rfl, rfl⟩

/-- Everywhere else it answers as before. -/
theorem divert_ask_of_ne {p r : Part} {s s' : State} {out : {α : Type} → Outcome α}
    (h : ¬ (r = p ∧ s = s')) : (w.divert p s' out).ask r s = w.ask r s := by
  cases r with
  | expr e => exact if_neg h
  | stmt t => exact if_neg h

/-- Do a task, and ask a walker about its parts. -/
def perform (w : Walker) (config : Config) : (q : Task) → Eval q.Result
  | .part (.expr e) => w.evaluate config e
  | .part (.stmt t) => w.execute t
  | .call f args => w.call config f args

/-- In doing a task from `s` the walker is asked about a part in `s'`: were its answer there another
one, the task could end in another way.  No part is overlooked, for an answer could always end the
task at once (`perform_of_asked`). -/
def Asks (w : Walker) (config : Config) (q : Task) (s : State) (p : Part) (s' : State) : Prop :=
  ∃ v : Walker, v.rounds = w.rounds ∧
    (∀ r t, ¬ (r = p ∧ t = s') → v.ask r t = w.ask r t) ∧
    v.perform config q s ≠ w.perform config q s

/-- Walkers that are alike about each part, at the depth at which it is asked about, are alike in
the whole task. -/
theorem alike_perform (hrounds : v.rounds = w.rounds) (q : Task)
    (h : ∀ p, d + q.opens p ≤ max d config.maxDepth →
      Alike (d + q.opens p) (v.ask p) (w.ask p)) :
    Alike d (v.perform config q) (w.perform config q) := by
  have hlow : d ≤ max d config.maxDepth := Nat.le_max_left _ _
  cases q with
  | part p =>
    cases p with
    | expr e =>
      refine alike_evaluate (fun e' => h (.expr e') hlow) (fun hd t => h (.stmt t) ?_) e
      change d + 1 ≤ max d config.maxDepth
      omega
    | stmt t =>
      exact alike_execute hrounds (fun e => h (.expr e) hlow) (fun t' => h (.stmt t') hlow) t
  | call f args =>
    refine alike_call (fun hd t => h (.stmt t) ?_) f args
    change d + 1 ≤ max d config.maxDepth
    omega

/-- All that is asked of a walker comes back. -/
def Steady (w : Walker) : Prop := ∀ p, (w.ask p).Steady

/-- Performing a task is steady if asking is. -/
theorem Steady.perform (hw : w.Steady) (config : Config) (q : Task) :
    (w.perform config q).Steady :=
  fun s => (alike_perform rfl q (fun p _ => (hw p).alike) s rfl).2

theorem steady_execAll (hw : w.Steady) (ts : List Stmt) : (w.execAll ts).Steady :=
  fun s => (alike_execAll (fun t => (hw (.stmt t)).alike) ts s rfl).2

/-- A part is asked about at the depth of the task, or, in a function body, one level deeper but
not beyond the limit. -/
theorem Asks.depth {q : Task} {s s' : State} {p : Part} (hw : w.Steady)
    (h : w.Asks config q s p s') :
    s'.depth = s.depth + q.opens p ∧ s'.depth ≤ max s.depth config.maxDepth := by
  obtain ⟨v, hrounds, hagree, hne⟩ := h
  refine Classical.byContradiction fun hcontra => ?_
  -- The walkers differ only at a depth that the task never comes to.
  have halike : ∀ r, s.depth + q.opens r ≤ max s.depth config.maxDepth →
      Alike (s.depth + q.opens r) (v.ask r) (w.ask r) := by
    intro r hr t ht
    have heq : v.ask r t = w.ask r t := by
      refine hagree r t ?_
      rintro ⟨rfl, rfl⟩
      exact hcontra ⟨ht, by omega⟩
    exact ⟨heq, fun u hu => hw r t u (heq ▸ hu)⟩
  exact hne (alike_perform hrounds q halike s rfl).1

end Walker

/-! ## Every level -/

/-- A walker answers by performing a task with the one below it. -/
theorem walker_ask (config : Config) (n : Nat) (p : Part) :
    (walker config (n + 1)).ask p = (walker config n).perform config (.part p) := by
  cases p <;> rfl

/-- By induction on the levels. -/
theorem steady_walker (config : Config) (n : Nat) : (walker config n).Steady := by
  induction n with
  | zero => intro p; cases p <;> exact Eval.steady_exhausted
  | succ n ih =>
    intro p
    rw [walker_ask]
    exact ih.perform config _

/-- A task that is done from `s`, with parts done `n` levels deep, passes through `t`, and there
`k` function bodies are open that were not open in `s`. -/
inductive Passes (config : Config) : Nat → Task → State → Nat → State → Prop where
  | start {n q s} : Passes config n q s 0 s
  | finish {n q s t} :
      ((walker config n).perform config q s).state? = some t → Passes config n q s 0 t
  | inside {n q s p s' k t} : (walker config (n + 1)).Asks config q s p s' →
      Passes config n (.part p) s' k t → Passes config (n + 1) q s (k + q.opens p) t

/-- The depth counts the open function bodies, and keeps to the limit. -/
theorem Passes.depth {config : Config} {n k : Nat} {q : Task} {s t : State}
    (h : Passes config n q s k t) (hs : s.depth ≤ config.maxDepth) :
    t.depth = s.depth + k ∧ t.depth ≤ config.maxDepth := by
  induction h with
  | start => exact ⟨rfl, hs⟩
  | @finish n q s t ht =>
    have hback := (steady_walker config n).perform config q s t ht
    exact ⟨hback.depth, by rw [hback.depth]; exact hs⟩
  | @inside n q s p s' k t hasks _ ih =>
    have hdepth := hasks.depth (steady_walker config (n + 1))
    have hrest := ih (by omega)
    omega

/-! ## Sessions -/

namespace Interpreter

/-- One use of an interpreter. -/
inductive Use where
  | run (p : Program)
  | exec (t : Stmt)
  | eval (e : Expr)
  | call (f : Callable) (args : List Value)

/-- The state behind one use, whether it failed or not. -/
def Use.state? (config : Config) : Use → State → Option State
  | .run p, s => (Interpreter.run config p s).state?
  | .exec t, s => (Interpreter.exec config t s).state?
  | .eval e, s => (Interpreter.eval config e s).state?
  | .call f args, s => (Interpreter.call config f args s).state?

/-- The state behind several uses. -/
def session (config : Config) : List Use → State → Option State
  | [], s => some s
  | u :: us, s => (u.state? config s).bind (session config us)

end Interpreter

/-- In `s` the evaluation stands at the global scope, and no function body is open. -/
def State.AtRest (s : State) : Prop := s.scope = s.globals ∧ s.depth = 0

/-- A state that has come back to one at rest is at rest. -/
theorem State.Back.atRest {s t : State} (h : s.Back t) (hs : s.AtRest) : t.AtRest :=
  ⟨by rw [h.scope, h.globals]; exact hs.1, h.depth.trans hs.2⟩

/-- So whatever is asked of an interpreter at rest leaves it at rest. -/
theorem atRest_use {config : Config} {u : Interpreter.Use} {s t : State} (hs : s.AtRest)
    (h : u.state? config s = some t) : t.AtRest ∧ t.globals = s.globals := by
  have hw := steady_walker config Interpreter.levels
  cases u with
  | run p =>
    have hback := Walker.steady_execAll hw p.stmts s.ready t h
    exact ⟨hback.atRest ⟨rfl, rfl⟩, hback.globals⟩
  | exec stmt =>
    have hback := hw (.stmt stmt) s t h
    exact ⟨hback.atRest hs, hback.globals⟩
  | eval e =>
    have hback := hw (.expr e) s t h
    exact ⟨hback.atRest hs, hback.globals⟩
  | call f args =>
    have hback := hw.perform config (.call f args) s t h
    exact ⟨hback.atRest hs, hback.globals⟩

/-- By induction on what is asked. -/
theorem atRest_session {config : Config} (us : List Interpreter.Use) {s t : State}
    (hs : s.AtRest) (h : Interpreter.session config us s = some t) :
    t.AtRest ∧ t.globals = s.globals := by
  induction us generalizing s with
  | nil => cases h; exact ⟨hs, rfl⟩
  | cons u us ih =>
    obtain ⟨r, hr, hrest⟩ := Option.bind_eq_some_iff.1 h
    obtain ⟨hrs, hglobals⟩ := atRest_use hs hr
    obtain ⟨hts, hglobals'⟩ := ih hrs hrest
    exact ⟨hts, hglobals'.trans hglobals⟩

/-- An interpreter is at rest when it is made. -/
theorem atRest_start (libraries : List Maker) (console : Console) (clock : Clock) :
    (State.start libraries console clock).AtRest :=
  ⟨rfl, rfl⟩

/-- Scope and depth are restored.  An evaluation, an execution or a call comes back to its scope
and its depth, however it ends; at each moment inside it the depth has grown by the number of
function bodies that were opened and are not closed yet, and is within the limit; and between the
uses of an interpreter that begins at rest, as a new one does, its scope is the global one and its
depth is 0. -/
theorem scope_and_depth_restored (config : Config) :
    (∀ n s t,
      (∀ e, ((walker config n).eval e s).state? = some t →
        t.scope = s.scope ∧ t.depth = s.depth) ∧
      (∀ stmt, ((walker config n).exec stmt s).state? = some t →
        t.scope = s.scope ∧ t.depth = s.depth) ∧
      (∀ f args, ((walker config n).call config f args s).state? = some t →
        t.scope = s.scope ∧ t.depth = s.depth)) ∧
    (∀ n q s k t, s.depth ≤ config.maxDepth → Passes config n q s k t →
      t.depth = s.depth + k ∧ t.depth ≤ config.maxDepth) ∧
    (∀ us s t, s.AtRest → Interpreter.session config us s = some t →
      t.AtRest ∧ t.scope = s.globals ∧ t.depth = 0) ∧
    (∀ libraries console clock, (State.start libraries console clock).AtRest) := by
  refine ⟨fun n s t => ?_, fun n q s k t hs h => h.depth hs, ?_, atRest_start⟩
  · have hw := steady_walker config n
    refine ⟨fun e h => ?_, fun stmt h => ?_, fun f args h => ?_⟩
    · have hback := hw (.expr e) s t h
      exact ⟨hback.scope, hback.depth⟩
    · have hback := hw (.stmt stmt) s t h
      exact ⟨hback.scope, hback.depth⟩
    · have hback := hw.perform config (.call f args) s t h
      exact ⟨hback.scope, hback.depth⟩
  · intro us s t hs h
    obtain ⟨hrest, hglobals⟩ := atRest_session us hs h
    exact ⟨hrest, hrest.1.trans hglobals, hrest.2⟩

/-- The function `fn () { break; }`, made in the global scope. -/
def breaking : Closure := ⟨0, "", default, ⟨[], ⟨[.break default], default⟩⟩⟩

/-- Where the body of `breaking` is executed. -/
def insideBreaking : State where
  world := {}
  frames := ⟨#[{}]⟩
  memo := {}
  scope := ⟨⟨0⟩, [default]⟩
  globals := default
  depth := 1

/-- The call asks about the `break`, for without an answer there would be no end to it. -/
theorem asks_breaking : (walker {} 1).Asks {} (.call (.closure breaking) []) default
    (.stmt (.break default)) insideBreaking := by
  refine ⟨(walker {} 1).divert (.stmt (.break default)) insideBreaking .exhausted, rfl,
    fun r t hrt => Walker.divert_ask_of_ne hrt, ?_⟩
  have hask := (walker {} 1).divert_ask (.stmt (.break default)) insideBreaking .exhausted
  generalize (walker {} 1).divert (.stmt (.break default)) insideBreaking .exhausted = v at hask ⊢
  have hexec : v.exec (.break default) insideBreaking = .exhausted := hask
  have hbody : v.execAll breaking.decl.body.stmts insideBreaking = .exhausted := by
    change Eval.bind (v.exec (.break default)) _ insideBreaking = _
    unfold Eval.bind
    rw [hexec]
  have hne : v.perform {} (.call (.closure breaking) []) default = .exhausted :=
    Walker.finishCall_exhausted (s := { insideBreaking with scope := default, depth := 0 })
      (Eval.within_exhausted (Eval.within_exhausted hbody))
  rw [hne]
  exact fun h => nomatch h

/-- In the body of a call from the global scope the depth is 1. -/
theorem depth_in_breaking :
    (default : State).depth ≤ ({} : Config).maxDepth ∧
      Passes {} 1 (.call (.closure breaking) []) default 1 insideBreaking ∧
      insideBreaking.depth = (default : State).depth + 1 ∧
      insideBreaking.depth ≤ ({} : Config).maxDepth := by
  have hs : (default : State).depth ≤ ({} : Config).maxDepth := Nat.zero_le _
  have hpasses : Passes {} 1 (.call (.closure breaking) []) default 1 insideBreaking :=
    .inside asks_breaking .start
  exact ⟨hs, hpasses, (scope_and_depth_restored {}).2.1 _ _ _ _ _ hs hpasses⟩

end SmallScript
