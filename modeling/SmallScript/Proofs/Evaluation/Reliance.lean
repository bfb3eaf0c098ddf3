/-
  What a task rests on.

  `Walker.Asks` finds the parts that a task asks about by changing one answer at a time.  It finds
  all of them: answers about other parts do not matter, however many are changed at once
  (`perform_of_asked`).  So `Passes` leaves out no moment of an evaluation.

  The reason is that each task follows a script (`scripted_perform`).  What it does by itself between
  the answers is little: the heap grows, frames and the noted definitions change, and it is done in
  another place (`Own`).  Only nodes that are remembered do more, and what that is depends on the
  node (`Permits`).
-/
import SmallScript.Proofs.Evaluation.Leads
import SmallScript.Proofs.Evaluation.Law
import SmallScript.Proofs.Evaluation.Script

namespace SmallScript

/-! ## Growth -/

/-- Nothing in the heap goes away. -/
def Heap.growth : Law where
  holds _ := True
  admits _ _ := True
  inside s t := s.world.heap.Grows t.world.heap
  around s t := s.world.heap.Grows t.world.heap

/-- No function of an embedder takes anything out of the heap. -/
theorem Heap.growth_covers (host : Host) : Heap.growth.Covers host :=
  Law.covers_of_allows (fun _ _ => trivial) fun s f args _ => ⟨trivial, host.grows f args s.world⟩

/-- Whatever is done to a heap makes it grow. -/
theorem Heap.growth_sound : Heap.growth.Sound where
  refl _ := .refl _
  trans := .trans
  widen := id
  chain := .trans
  keep _ _ := trivial
  plain _ := trivial
  name _ _ := trivial
  lead _ _ _ := trivial
  literal _ _ := trivial
  list _ _ := trivial
  act hst hact := ⟨⟨trivial, hst.related.trans hact.grows⟩, trivial, fun _ _ => trivial⟩
  closure {s} name decl _ :=
    ⟨⟨trivial, .newClosure s.world.heap name s.scope decl⟩, trivial⟩
  putLiteral _ _ _ := ⟨trivial, .refl _⟩
  putList _ _ _ := ⟨trivial, .refl _⟩
  putDefined _ _ := ⟨trivial, .refl _⟩
  assign _ _ _ := ⟨trivial, .refl _⟩
  define _ _ _ _ := ⟨trivial, .refl _⟩
  enter _ _ _ _ := trivial
  leave _ _ hst := ⟨⟨trivial, hst.related⟩, fun _ _ => trivial⟩

/-! ## What steps do by themselves -/

/-- What a node does by itself keeps to `R`, unless it is remembered. -/
structure Own (R : State → State → Prop) : Prop where
  refl (s : State) : R s s
  trans ⦃s t u : State⦄ : R s t → R t u → R s u
  world (s : State) {w : World} : s.world.heap.Grows w.heap → R s (s.inWorld w)
  frames (s : State) (fs : Frames) : R s { s with frames := fs }
  place (s : State) (scope : Scope) (depth : Nat) : R s { s with scope, depth }
  defined (s : State) (ids : List NodeId) : R s (s.remembering { s.memo with defined := ids })

/-- Steps may do anything, if nothing is said of them. -/
theorem own_anyhow : Own fun _ _ => True := by constructor <;> intros <;> trivial

/-- A step keeps to a relation, however it ends. -/
def Eval.Keeps (R : State → State → Prop) {α : Type} (m : Eval α) : Prop :=
  ∀ s t, (m s).state? = some t → R s t

/-- A literal and the result that it means. -/
def Expr.literal? : Expr → Option (NodeId × Except Fault Product)
  | .int _ id raw => some (id, (Literal.int raw).map fun n => .value (.int n))
  | .float _ id raw => some (id, (Literal.float raw).map fun x => .value (.float x))
  | .string _ id raw => some (id, (Literal.text raw).map .text)
  | _ => none

/-- A literal is evaluated by itself. -/
theorem Walker.evaluate_literal {e : Expr} {id : NodeId} {meaning : Except Fault Product}
    (h : e.literal? = some (id, meaning)) (w : Walker) (config : Config) :
    w.evaluate config e = literal id fun _ => meaning := by
  cases e with
  | int | float | string =>
    cases h
    rfl
  | _ => cases h

/-- If the task is the evaluation of a node that is remembered, what it does by itself in `s` keeps to
`R`. -/
structure Permits (R : State → State → Prop) (q : Task) (s : State) : Prop where
  literal {e : Expr} {id : NodeId} {meaning : Except Fault Product} :
    q = .part (.expr e) → e.literal? = some (id, meaning) →
    ∀ t, (Walker.literal id (fun _ => meaning) s).state? = some t → R s t
  list {span : Span} {id : NodeId} {items : List Expr} :
    q = .part (.expr (.list span id items)) →
    ∀ t, (Walker.listOf id s).state? = some t → R s t

namespace Own

open Eval

variable {R : State → State → Prop} {α β : Type} (hR : Own R)

include hR

/-- What two steps do by themselves is what they do one after the other. -/
theorem keeps_bind {x : Eval α} {k : α → Eval β} (hx : x.Keeps R) (hk : ∀ a, (k a).Keeps R) :
    (x >>= k).Keeps R := by
  intro s t ht
  change (Eval.bind x k s).state? = some t at ht
  unfold Eval.bind at ht
  have hsx := hx s
  cases hr : x s with
  | done a u =>
    rw [hr] at ht hsx
    exact hR.trans (hsx u rfl) (hk a u t ht)
  | unwound e u =>
    rw [hr] at ht hsx
    exact hsx t ht
  | exhausted =>
    rw [hr] at ht
    cases ht

/-- What does nothing does nothing by itself. -/
theorem keeps_pure (a : α) : (pure a : Eval α).Keeps R := by
  intro s t ht
  cases ht
  exact hR.refl s

theorem keeps_unwind (u : Unwind) : (unwind u : Eval α).Keeps R := by
  intro s t ht
  cases ht
  exact hR.refl s

/-- A result is passed on without any change of the state. -/
theorem keeps_ofExcept (r : Except Fault α) : (ofExcept r).Keeps R := by
  cases r with
  | ok a => exact hR.keeps_pure a
  | error f => exact hR.keeps_unwind _

theorem keeps_look (f : State → α) : (look f).Keeps R := by
  intro s t ht
  cases ht
  exact hR.refl s

/-- Frames may change. -/
theorem keeps_onFrames (f : Frames → α × Frames) : (onFrames f).Keeps R := by
  intro s t ht
  cases ht
  exact hR.frames s _

/-- The world may change as long as its heap grows. -/
theorem keeps_onWorld {f : World → α × World} (h : ∀ w : World, w.heap.Grows (f w).2.heap) :
    (onWorld f).Keeps R := by
  intro s t ht
  cases ht
  exact hR.world s (h s.world)

/-- A function that is made is new in the heap. -/
theorem keeps_newClosure (name : String) (scope : Scope) (decl : FnDecl) :
    (onHeap (Heap.newClosure name scope decl)).Keeps R :=
  hR.keeps_onWorld fun w => .newClosure w.heap name scope decl

/-- Lists may change without being taken away. -/
theorem keeps_modifyItems (r : ListRef) (g : Array Value → Array Value) :
    (onHeap fun h => ((), h.modifyItems r g)).Keeps R :=
  hR.keeps_onWorld fun w => .modifyItems w.heap r g

/-- An object that is made is new in the heap. -/
theorem keeps_newObject (b : Bag) : (onHeap (Heap.newObject b)).Keeps R :=
  hR.keeps_onWorld fun w => .newObject w.heap b

/-- What keeps to the law of growth. -/
theorem keeps_fits {P : State → α → Prop} {m : Eval α} {s t : State} {w : World}
    (hfits : Heap.growth.Fits Heap.growth.inside P s (m s)) (hstate : (m s).state? = some (s.inWorld w))
    (ht : (m s).state? = some t) : R s t := by
  rw [hstate] at ht
  cases ht
  exact hR.world s (hfits.state hstate).related

/-- A step that fails has made the heap grow, too. -/
theorem keeps_tryHeap {f : Heap → Except Fault α × Heap}
    (h : ∀ heap : Heap, heap.Grows (f heap).2) :
    (tryHeap f).Keeps R := by
  intro s t ht
  rw [tryHeap, state?_tryWorld] at ht
  cases ht
  exact hR.world s (h s.world.heap)

/-- So a property may be set. -/
theorem keeps_setProperty (o : Value) (x : String) (v : Value) :
    (tryHeap (Heap.setProperty o x v)).Keeps R :=
  hR.keeps_tryHeap fun h => h.grows_changeBag o _ _

theorem keeps_addProperty (o : Value) (x : String) (v : Value) :
    (tryHeap (Heap.addProperty o x v)).Keeps R :=
  hR.keeps_tryHeap fun h => h.grows_changeBag o _ _

/-- A native function makes the heap grow. -/
theorem keeps_invoke (op : Native) (args : List Value) : (tryWorld (op.invoke args)).Keeps R := by
  intro s t ht
  have hfits : Heap.growth.Fits Heap.growth.inside Heap.growth.admits s
      (tryWorld (op.invoke args) s) :=
    Heap.growth_sound.fits_native trivial trivial fun _ _ => trivial
  exact hR.keeps_fits hfits (state?_tryWorld _ s) ht

/-- So does a function of the host. -/
theorem keeps_hosted (host : Host) (f : HostFunction) (args : List Value) :
    (tryWorld (host.invoke f args)).Keeps R := by
  intro s t ht
  rw [state?_tryWorld] at ht
  cases ht
  exact hR.world s (host.grows f args s.world)

/-- A text that is produced is new in the heap. -/
theorem keeps_produce (result : Heap → Except Fault Product) : (produce result).Keeps R := by
  intro s t ht
  change (tryWorld (fun w : World => w.finish (result w.heap)) s).state? = some t at ht
  rw [state?_tryWorld] at ht
  cases ht
  apply hR.world
  exact s.world.grows_finish _

/-- A definition is noted beside those that were. -/
theorem keeps_noteDefinition (id : NodeId) (name : String) :
    (Walker.noteDefinition id name).Keeps R := by
  refine hR.keeps_bind (hR.keeps_look _) fun known => ?_
  split
  · exact hR.keeps_pure ()
  · refine hR.keeps_bind (hR.keeps_look _) fun taken => ?_
    split
    · exact hR.keeps_unwind _
    · intro s t ht
      cases ht
      exact hR.defined s _

theorem keeps_asFunction (v : Value) : (Walker.asFunction v).Keeps R := by
  unfold Walker.asFunction
  split
  · exact hR.keeps_pure _
  · exact hR.keeps_bind (hR.keeps_look _) fun f => hR.keeps_unwind _

end Own

/-! ## One level of a walk -/

namespace Walker

open Eval Outcome

variable {α : Type} {f : α → Option Value} {R : State → State → Prop} {config : Config}

/-- What a step does by itself, wherever it is taken. -/
theorem scripted_keeps {m : Eval α} (h : m.Keeps R) (s : State) : Scripted f R (fun _ => m) s :=
  scripted_own (h s)

/-- To ask about an expression is a script with one question. -/
theorem scripted_eval (hR : Own R) (e : Expr) (s : State) : Scripted Untold R (fun w => w.eval e) s :=
  scripted_ask hR.refl (.expr e)

theorem scripted_exec (hR : Own R) (t : Stmt) (s : State) : Scripted Untold R (fun w => w.exec t) s :=
  scripted_ask hR.refl (.stmt t)

/-- One question for each statement. -/
theorem scripted_execAll (hR : Own R) (ts : List Stmt) :
    ∀ s, Scripted Untold R (fun w => w.execAll ts) s := by
  induction ts with
  | nil => exact scripted_keeps (hR.keeps_pure ())
  | cons t ts ih => exact fun s => (scripted_exec hR t s).bind hR.trans fun _ => ih

/-- One for each argument. -/
theorem scripted_evalAll (hR : Own R) (es : List Expr) :
    ∀ s, Scripted Untold R (fun w => w.evalAll es) s := by
  induction es with
  | nil => exact scripted_keeps (hR.keeps_pure [])
  | cons e es ih =>
    intro s
    refine (scripted_eval hR e s).bind hR.trans fun a t => ?_
    exact (ih t).bind hR.trans fun as => scripted_keeps (hR.keeps_pure _)

/-- The members are asked about in order, and added between the questions. -/
theorem scripted_addAll (hR : Own R) (r : ObjectRef) (ms : List Member) :
    ∀ s, Scripted Untold R (fun w => w.addAll r ms) s := by
  induction ms with
  | nil => exact scripted_keeps (hR.keeps_pure ())
  | cons m ms ih =>
    intro s
    refine (scripted_eval hR m.value s).bind hR.trans fun a t => ?_
    exact (scripted_keeps (hR.keeps_addProperty _ _ a) t).bind hR.trans fun _ => ih

/-- So are the items of a list. -/
theorem scripted_pushAll (hR : Own R) (r : ListRef) (es : List Expr) :
    ∀ s, Scripted Untold R (fun w => w.pushAll r es) s := by
  induction es with
  | nil => exact scripted_keeps (hR.keeps_pure ())
  | cons e es ih =>
    intro s
    refine (scripted_eval hR e s).bind hR.trans fun a t => ?_
    exact (scripted_keeps (hR.keeps_modifyItems r _) t).bind hR.trans fun _ => ih

/-- What is done between two changes that keep to the relation. -/
theorem scripted_within {σ : Type} (hR : Own R) {enter : State → σ × State}
    {leave : σ → State → State} (henter : ∀ s, R s (enter s).2) (hleave : ∀ x t, R t (leave x t))
    {m : Walker → Eval α} {s : State} (h : Scripted Untold R m (enter s).2) :
    Scripted Untold R (fun w => Eval.within enter leave (m w)) s := by
  refine h.around hR.trans (henter s) (Outcome.onState (leave (enter s).1)) (fun w => rfl) rfl ?_ ?_
  · intro r a hr
    obtain ⟨t, rfl⟩ := given?_untold hr
    rfl
  · intro r t ht
    obtain ⟨u, hu, rfl⟩ := state?_onState.1 ht
    exact ⟨u, hu, hleave _ u⟩

/-- A script may be followed in another scope. -/
theorem scripted_inScope (hR : Own R) {m : Walker → Eval α} {scope : Scope}
    (h : ∀ s, Scripted Untold R m s) (s : State) :
    Scripted Untold R (fun w => Eval.inScope scope (m w)) s :=
  scripted_within hR (fun s => hR.place s scope s.depth) (fun x t => hR.place t x t.depth) (h _)

/-- It may be followed as a call. -/
theorem scripted_counted (hR : Own R) {m : Walker → Eval α} (h : ∀ s, Scripted Untold R m s)
    (s : State) : Scripted Untold R (fun w => Eval.counted (m w)) s :=
  scripted_within hR (fun s => hR.place s s.scope (s.depth + 1))
    (fun _ t => hR.place t t.scope (t.depth - 1)) (h _)

/-- What takes up the outcome of a step and leaves the state as it is. -/
theorem Scripted.taken {β : Type} {f' : β → Option Value} (hR : Own R) {m : Walker → Eval α}
    {take : Eval α → Eval β} {s : State} (h : Scripted f R m s)
    (htake : ∀ body, take body s = take (fun _ => body s) s)
    (hnone : take (fun _ => .exhausted) s = .exhausted)
    (hgiven : ∀ r a, r.given? f = some a → (take (fun _ => r) s).given? f' = some a)
    (hstate : ∀ body, (take body s).state? = (body s).state?) :
    Scripted f' R (fun w => take (m w)) s := by
  refine h.around hR.trans (hR.refl s) (fun r => take (fun _ => r) s) (fun w => htake _) hnone hgiven ?_
  intro r t ht
  exact ⟨t, (hstate fun _ => r).symm.trans ht, hR.refl t⟩

/-- A `return` from the body is the value of the call. -/
theorem scripted_callClosure (hR : Own R) (c : Closure) (args : List Value) (s : State) :
    Scripted some R (fun w => w.callClosure config c args) s := by
  refine Scripted.bind hR.trans (scripted_keeps (hR.keeps_look _) s) fun depth t => ?_
  refine Scripted.ite (scripted_own fun u hu => ?_) ?_
  · rw [state?_contain] at hu
    cases hu
    exact hR.refl t
  · refine Scripted.bind hR.trans (scripted_keeps (hR.keeps_onFrames _) t) fun scope u => ?_
    have hbody : Scripted Untold R
        (fun w => Eval.counted (Eval.inScope scope (w.execAll c.decl.body.stmts))) u :=
      scripted_counted hR (scripted_inScope hR (scripted_execAll hR c.decl.body.stmts)) u
    refine hbody.taken hR (fun _ => rfl) rfl ?_ (fun _ => state?_finishCall _ _ _)
    intro r a hr
    obtain ⟨t, rfl⟩ := given?_untold hr
    rfl

/-- A call asks about the body of a closure, and of native functions nothing. -/
theorem scripted_call (hR : Own R) (f : Callable) (args : List Value) (s : State) :
    Scripted some R (fun w => w.call config f args) s := by
  refine Scripted.ite ?_ (scripted_keeps (hR.keeps_unwind _) s)
  cases f with
  | native op => exact scripted_keeps (hR.keeps_invoke op args) s
  | host f => exact scripted_keeps (hR.keeps_hosted config.host f args) s
  | closure c => exact scripted_callClosure hR c args s

/-- By induction on the rounds, each of which is a script. -/
theorem scripted_repeated (hR : Own R) {round : Walker → Eval Bool}
    (h : ∀ s, Scripted Untold R round s) (n : Nat) :
    ∀ s, Scripted Untold R (fun w => repeated (round w) n) s := by
  induction n with
  | zero => exact fun s => scripted_own fun t ht => nomatch ht
  | succ n ih =>
    intro s
    simp only [repeated_succ]
    refine (h s).bind hR.trans fun more t => ?_
    exact Scripted.ite (ih t) (scripted_keeps (hR.keeps_pure ()) t)

/-- A loop that goes on leaves the state as its body does. -/
theorem state?_goesOn (body : Eval Unit) (s : State) : (goesOn body s).state? = (body s).state? := by
  unfold goesOn
  cases body s with
  | done a t => rfl
  | unwound u t =>
    cases u with
    | «return» a => rfl
    | jump j => cases j <;> rfl
    | fault f => rfl
  | exhausted => rfl

/-- The rounds of a loop ask about its test, its body and its step. -/
theorem scripted_loop (hR : Own R) {step : Walker → Eval Unit}
    (hstep : ∀ s, Scripted Untold R step s) (test : Expr) (body : Stmt) (s : State) :
    Scripted Untold R (fun w => repeated (w.round test (step w) body) w.rounds) s := by
  have hgoesOn : ∀ t, Scripted Untold R (fun w => goesOn (w.exec body)) t := by
    intro t
    refine (scripted_exec hR body t).taken hR (fun _ => rfl) rfl ?_ (fun _ => state?_goesOn _ t)
    intro r a hr
    obtain ⟨t, rfl⟩ := given?_untold hr
    rfl
  have hround : ∀ s, Scripted Untold R (fun w => w.round test (step w) body) s := by
    intro s
    refine (scripted_eval hR test s).bind hR.trans fun a t => ?_
    refine Scripted.ite ?_ (scripted_keeps (hR.keeps_pure false) t)
    refine (hgoesOn t).bind hR.trans fun more u => ?_
    refine Scripted.ite ?_ (scripted_keeps (hR.keeps_pure false) u)
    exact (hstep u).bind hR.trans fun _ => scripted_keeps (hR.keeps_pure true)
  -- The walkers that follow one script may take equally many rounds.
  intro n
  obtain ⟨τ, hτ, hrun⟩ := scripted_repeated hR hround n s n
  refine ⟨τ, hτ, fun w hw => ?_⟩
  show repeated _ w.rounds s = _
  rw [hw]
  exact hrun w hw

/-- By cases on the expression, along the steps that evaluate it. -/
theorem scripted_evaluate (hR : Own R) (e : Expr) (s : State) (hs : Permits R (.part (.expr e)) s) :
    Scripted some R (fun w => w.evaluate config e) s := by
  cases e with
  | int | float | string => exact scripted_own (hs.literal rfl rfl)
  | bool span b => exact scripted_keeps (hR.keeps_pure _) s
  | null span => exact scripted_keeps (hR.keeps_pure _) s
  | list span id items =>
    refine Scripted.bind hR.trans (scripted_own (hs.list rfl)) fun r t => ?_
    refine Scripted.bind hR.trans (scripted_keeps (hR.keeps_modifyItems r _) t) fun _ u => ?_
    exact (scripted_pushAll hR r items u).bind hR.trans fun _ => scripted_keeps (hR.keeps_pure _)
  | object span members =>
    refine Scripted.bind hR.trans (scripted_keeps (hR.keeps_newObject {}) s) fun r t => ?_
    refine (scripted_addAll hR r members t).bind hR.trans fun _ => ?_
    exact scripted_keeps (hR.keeps_pure _)
  | name span x =>
    exact scripted_keeps (hR.keeps_bind (hR.keeps_look _) fun r => hR.keeps_ofExcept r) s
  | property span target x =>
    refine (scripted_eval hR target s).bind hR.trans fun a => scripted_keeps ?_
    refine hR.keeps_bind (hR.keeps_look _) fun p => ?_
    cases p with
    | some p => exact hR.keeps_pure p
    | none => exact hR.keeps_unwind _
  | call span callee args =>
    refine (scripted_eval hR callee s).bind hR.trans fun a t => ?_
    refine Scripted.bind hR.trans (scripted_keeps (hR.keeps_asFunction a) t) fun f u => ?_
    exact (scripted_evalAll hR args u).bind hR.trans fun values => scripted_call hR f values
  | lambda span decl =>
    refine scripted_keeps (hR.keeps_bind (hR.keeps_look _) fun scope => ?_) s
    exact hR.keeps_newClosure _ scope decl
  | binary span op left right =>
    refine (scripted_eval hR left s).bind hR.trans fun a t => ?_
    exact (scripted_eval hR right t).bind hR.trans fun b => scripted_keeps (hR.keeps_produce _)
  | unary span op operand =>
    exact (scripted_eval hR operand s).bind hR.trans fun a => scripted_keeps (hR.keeps_produce _)
  | logical span op left right =>
    refine (scripted_eval hR left s).bind hR.trans fun a t => ?_
    have hright : Scripted some R (fun w => w.eval right) t := (scripted_eval hR right t).told
    cases op <;> exact Scripted.ite (scripted_keeps (hR.keeps_pure a) t) hright
  | coalesce span left right =>
    refine (scripted_eval hR left s).bind hR.trans fun a t => ?_
    exact Scripted.ite (scripted_eval hR right t).told (scripted_keeps (hR.keeps_pure a) t)

/-- The same for statements. -/
theorem scripted_execute (hR : Own R) (t : Stmt) (s : State) :
    Scripted Untold R (fun w => w.execute t) s := by
  cases t with
  | expr e => exact (scripted_eval hR e s).bind hR.trans fun a => scripted_keeps (hR.keeps_pure ())
  | assign span x e =>
    refine Scripted.bind hR.trans (scripted_keeps (hR.keeps_look _) s) fun f u => ?_
    exact (scripted_eval hR e u).bind hR.trans fun a => scripted_keeps (hR.keeps_onFrames _)
  | assignProperty span target x e =>
    refine (scripted_eval hR target s).bind hR.trans fun o u => ?_
    exact (scripted_eval hR e u).bind hR.trans fun a => scripted_keeps (hR.keeps_setProperty _ _ _)
  | define span id x decl =>
    refine scripted_keeps (hR.keeps_bind (hR.keeps_noteDefinition id x.name) fun _ => ?_) s
    refine hR.keeps_bind (hR.keeps_look _) fun scope => ?_
    exact hR.keeps_bind (hR.keeps_newClosure _ scope decl) fun f => hR.keeps_onFrames _
  | cond span test yes no =>
    refine (scripted_eval hR test s).bind hR.trans fun a u => Scripted.ite (scripted_exec hR yes u) ?_
    cases no with
    | some no => exact scripted_exec hR no u
    | none => exact scripted_keeps (hR.keeps_pure ()) u
  | «while» span test body =>
    exact scripted_loop hR (scripted_keeps (hR.keeps_pure ())) test body s
  | «for» span init test step body =>
    refine (scripted_exec hR init s).bind hR.trans fun _ => ?_
    exact scripted_loop hR (scripted_exec hR step) test body
  | «break» span => exact scripted_keeps (hR.keeps_unwind _) s
  | «continue» span => exact scripted_keeps (hR.keeps_unwind _) s
  | «return» span value =>
    cases value with
    | none => exact scripted_keeps (hR.keeps_unwind _) s
    | some e => exact (scripted_eval hR e s).bind hR.trans fun a => scripted_keeps (hR.keeps_unwind _)
  | write span e =>
    refine (scripted_eval hR e s).bind hR.trans fun a => scripted_keeps (hR.keeps_onWorld fun w => ?_)
    exact .refl _
  | block b =>
    refine Scripted.bind hR.trans (scripted_keeps (hR.keeps_look _) s) fun here u => ?_
    refine Scripted.bind hR.trans (scripted_keeps (hR.keeps_onFrames _) u) fun scope o => ?_
    exact scripted_inScope hR (scripted_execAll hR b.stmts) _

end Walker

/-! ## Tasks -/

/-- The value that a task tells by being done: a call has one, a statement has none. -/
def Task.told : (q : Task) → q.Result → Option Value
  | .part (.expr _) => some
  | .part (.stmt _) => Outcome.Untold
  | .call _ _ => some

namespace Walker

variable {R : State → State → Prop} {config : Config} {v w : Walker} {q : Task} {s s' : State} {p : Part}

/-- **Every task follows a script.** -/
theorem scripted_perform (hR : Own R) (config : Config) {q : Task} {s : State} (hs : Permits R q s) :
    Scripted q.told R (fun w => w.perform config q) s := by
  cases q with
  | part p =>
    cases p with
    | expr e => exact scripted_evaluate hR e s hs
    | stmt t => exact scripted_execute hR t s
  | call f args => exact scripted_call hR f args s

/-- So every task follows a script. -/
theorem scripted_anyhow (config : Config) (q : Task) (s : State) :
    Scripted q.told (fun _ _ => True) (fun w => w.perform config q) s :=
  scripted_perform own_anyhow config ⟨fun _ _ _ _ => trivial, fun _ _ _ => trivial⟩

/-- What one changed answer finds is what the script asks about. -/
theorem asks_iff : w.Asks config q s p s' ↔ Asked (fun w => w.perform config q) w s p s' :=
  exists_congr fun _ => and_assoc.symm

/-- What is asked about can end the task, with any value. -/
theorem Asks.given (h : w.Asks config q s p s') (a : Value) :
    ∃ v, w.Varies v p s' ∧ (v.perform config q s).given? q.told = some a :=
  (scripted_anyhow config q s).given (asks_iff.1 h) a

/-- A task has no outcome if it asks about a part that has none. -/
theorem Asks.exhausted (h : w.Asks config q s p s') (hanswer : w.ask p s' = .exhausted) :
    w.perform config q s = .exhausted :=
  (scripted_anyhow config q s).exhausted (asks_iff.1 h) hanswer

/-- A task ends in the same way with all walkers that agree on the parts it asks about. -/
theorem perform_of_asked (hrounds : v.rounds = w.rounds)
    (h : ∀ p s', w.Asks config q s p s' → v.ask p s' = w.ask p s') :
    v.perform config q s = w.perform config q s :=
  (scripted_anyhow config q s).agree hrounds fun p s' hasked => h p s' (asks_iff.2 hasked)

end Walker

end SmallScript
