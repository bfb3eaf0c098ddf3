/-
  Runs that go on where others are broken off.

  Two runs may be held to different rules and be given different numbers of levels.  The second
  extends the first (`Eval.Extends`) if it ends in the same way in the same state, unless the first
  has run out of levels or was broken off: by a fault of a certain kind, which the rules of the second
  do not take so seriously.  Behind such a fault nothing is known of the second run but that the
  world goes on.

  That walkers extend each other is proved once, level by level (`Walker.Extends.evaluate`,
  `Walker.Extends.execute`).  With one set of rules and no fault that breaks off, it says that more
  levels change nothing (`levels_suffice`).  With strict and lenient rules it says that strict rules
  only make a run end earlier.
-/
import SmallScript.Proofs.Evaluation.Change

namespace SmallScript

/-! ## How the world goes on -/

/-- What is true of the world before and behind whatever a script does to it, and the functions of an
embedder that it may call. -/
structure World.Onward (host : Host) (R : World → World → Prop) : Prop where
  refl (w : World) : R w w
  trans {u v w : World} : R u v → R v w → R u w
  heap (w : World) (h : Heap) : R w { w with heap := h }
  print (w : World) (line : String) : R w (w.print line)
  eprint (w : World) (line : String) : R w (w.eprint line)
  read (w : World) : R w { w with console := w.console.read.2 }
  clock (w : World) : R w w.readClock.2
  hosted (f : HostFunction) (args : List Value) (w : World) : R w (host.invoke f args w).2

namespace World.Onward

variable {host : Host} {R : World → World → Prop}

/-- What is done to the heap alone is no step back for the world. -/
theorem onHeap (hR : World.Onward host R) {α : Type} (f : Heap → α × Heap) (w : World) :
    R w (w.onHeap f).2 :=
  hR.heap w (f w.heap).2

/-- Nor is the result of a native function that is put there. -/
theorem finish (hR : World.Onward host R) (r : Except Fault Product) (w : World) :
    R w (w.finish r).2 := by
  cases r with
  | ok p => exact hR.onHeap _ w
  | error f => exact hR.refl w

/-- A global function prints, reads a word or the clock, or makes something new. -/
theorem invoke_global (hR : World.Onward host R) (f : GlobalFunction) (args : List Value) (w : World) :
    R w (f.invoke args w).2 := by
  unfold GlobalFunction.invoke
  split
  · exact hR.print w _
  · exact hR.eprint w _
  · exact hR.trans (hR.read w) (hR.finish _ _)
  · exact hR.clock w
  · exact hR.refl w
  · exact hR.refl w
  · exact hR.finish _ w
  · exact hR.refl w
  · exact hR.onHeap _ w
  · exact hR.refl w

/-- So no native function takes the world back, if those of the host do not. -/
theorem invoke (hR : World.Onward host R) (op : Native) (args : List Value) (w : World) :
    R w (op.invoke args w).2 := by
  cases op with
  | text owner m => exact hR.finish _ w
  | list owner m => exact hR.onHeap _ w
  | map table m => exact hR.onHeap _ w
  | math f => exact hR.refl w
  | global f => exact hR.invoke_global f args w

end World.Onward

/-! ## Steps that go on -/

section Extends

variable {B : Fault → Prop} {host : Host} {R : World → World → Prop} {α β : Type}

/-- `r'` extends `r`.  `B` tells the faults that break a run off, `R` what is then still known. -/
inductive Outcome.Extends (B : Fault → Prop) (R : World → World → Prop) :
    Outcome α → Outcome α → Prop where
  | same (r : Outcome α) : Extends B R r r
  | exhausted (r' : Outcome α) : Extends B R .exhausted r'
  | broken {f : Fault} {t : State} {r' : Outcome α} : B f →
      (∀ t', r'.state? = some t' → R t.world t'.world) → Extends B R (.unwound (.fault f) t) r'

/-- The world goes on through a step. -/
def Eval.Onward (R : World → World → Prop) (m : Eval α) : Prop :=
  ∀ s t, (m s).state? = some t → R s.world t.world

/-- From every state `m'` extends `m`, and the world goes on through `m'`. -/
structure Eval.Extends (B : Fault → Prop) (R : World → World → Prop) (m m' : Eval α) : Prop where
  outcome (s : State) : (m s).Extends B R (m' s)
  onward : m'.Onward R

namespace Eval

/-- What goes on extends itself. -/
theorem Onward.extends {m : Eval α} (h : m.Onward R) : Extends B R m m := ⟨fun s => .same (m s), h⟩

/-- Two steps that go on do so one after the other. -/
theorem Onward.bind (hR : World.Onward host R) {x : Eval α} {f : α → Eval β} (hx : x.Onward R)
    (hf : ∀ a, (f a).Onward R) : (x >>= f).Onward R := by
  intro s t ht
  change (Eval.bind x f s).state? = some t at ht
  unfold Eval.bind at ht
  have hsx := hx s
  cases hr : x s with
  | done a u =>
    rw [hr] at ht hsx
    exact hR.trans (hsx u rfl) (hf a u t ht)
  | unwound e u =>
    rw [hr] at ht hsx
    exact hsx t ht
  | exhausted =>
    rw [hr] at ht
    cases ht

/-- Behind a step that was broken off the second run goes on, and so does the world. -/
theorem Extends.bind (hR : World.Onward host R) {x x' : Eval α} {f f' : α → Eval β}
    (hx : Extends B R x x') (hf : ∀ a, Extends B R (f a) (f' a)) :
    Extends B R (x >>= f) (x' >>= f') := by
  refine ⟨fun s => ?_, hx.onward.bind hR fun a => (hf a).onward⟩
  change (Eval.bind x f s).Extends B R (Eval.bind x' f' s)
  unfold Eval.bind
  have hout := hx.outcome s
  generalize x s = r at hout
  generalize x' s = r' at hout
  cases hout with
  | same r =>
    cases r with
    | done a t => exact (hf a).outcome t
    | unwound u t => exact .same _
    | exhausted => exact .same _
  | exhausted r' => exact .exhausted _
  | broken hb hworld =>
    refine .broken hb fun t' ht' => ?_
    cases r' with
    | done a u => exact hR.trans (hworld u rfl) ((hf a).onward u t' ht')
    | unwound e u => exact hworld t' ht'
    | exhausted => cases ht'

/-! ### Single steps -/

/-- A step that leaves the world as it is. -/
theorem Onward.of_same (hR : World.Onward host R) {m : Eval α}
    (h : ∀ s t, (m s).state? = some t → t.world = s.world) : m.Onward R := by
  intro s t ht
  rw [h s t ht]
  exact hR.refl _

/-- What does nothing leaves the world where it is. -/
theorem onward_pure (hR : World.Onward host R) (a : α) : (pure a : Eval α).Onward R :=
  .of_same hR fun _ _ h => congrArg State.world (Option.some.inj h).symm

theorem onward_unwind (hR : World.Onward host R) (u : Unwind) : (unwind u : Eval α).Onward R :=
  .of_same hR fun _ _ h => congrArg State.world (Option.some.inj h).symm

theorem onward_fail (hR : World.Onward host R) (f : Fault) : (fail f : Eval α).Onward R :=
  onward_unwind hR _

/-- What comes to no end leaves no world behind. -/
theorem onward_exhausted : (exhausted : Eval α).Onward R := fun _ _ h => nomatch h

theorem onward_look (hR : World.Onward host R) (f : State → α) : (look f).Onward R :=
  .of_same hR fun _ _ h => congrArg State.world (Option.some.inj h).symm

/-- A result is passed on in the world that is there. -/
theorem onward_ofExcept (hR : World.Onward host R) (r : Except Fault α) : (ofExcept r).Onward R := by
  cases r with
  | ok a => exact onward_pure hR a
  | error f => exact onward_fail hR f

/-- A step in the world goes on if its world does. -/
theorem onward_onWorld {f : World → α × World} (h : ∀ w, R w (f w).2) : (onWorld f).Onward R := by
  intro s t ht
  cases ht
  exact h s.world

theorem onward_onHeap (hR : World.Onward host R) (f : Heap → α × Heap) : (onHeap f).Onward R :=
  onward_onWorld (hR.onHeap f)

/-- Frames are no part of the world. -/
theorem onward_onFrames (hR : World.Onward host R) (f : Frames → α × Frames) : (onFrames f).Onward R := by
  intro s t ht
  cases ht
  exact hR.refl _

theorem onward_define (hR : World.Onward host R) (f : FrameRef) (x : String) (v : Value) :
    (define f x v).Onward R :=
  onward_onFrames hR _

/-- What is remembered of nodes is no part of it either. -/
theorem onward_onMemo (hR : World.Onward host R) (f : Memo → Memo) : (onMemo f).Onward R := by
  intro s t ht
  cases ht
  exact hR.refl _

/-- A step that may fail goes on whether it does or not. -/
theorem onward_tryWorld (hR : World.Onward host R) {f : World → Except Fault α × World}
    (h : ∀ w, R w (f w).2) : (tryWorld f).Onward R :=
  (onward_onWorld h).bind hR fun r => onward_ofExcept hR r

theorem onward_tryHeap (hR : World.Onward host R) (f : Heap → Except Fault α × Heap) :
    (tryHeap f).Onward R :=
  onward_tryWorld hR (hR.onHeap f)

theorem onward_produce (hR : World.Onward host R) (result : Heap → Except Fault Product) :
    (produce result).Onward R :=
  onward_tryWorld hR fun w => hR.finish _ w

/-- A step that is broken off at once is extended by every other. -/
theorem extends_fail {f : Fault} (hb : B f) {m : Eval α} (h : m.Onward R) :
    Extends B R (fail f) m :=
  ⟨fun s => .broken hb (h s), h⟩

/-- The world does not care where a step is taken. -/
theorem Extends.within {σ : Type} {enter : State → σ × State} {leave : σ → State → State}
    (henter : ∀ s, (enter s).2.world = s.world) (hleave : ∀ x t, (leave x t).world = t.world)
    {m m' : Eval α} (h : Extends B R m m') :
    Extends B R (within enter leave m) (within enter leave m') := by
  refine ⟨fun s => ?_, fun s t ht => ?_⟩
  · change Outcome.Extends B R ((m (enter s).2).onState _) ((m' (enter s).2).onState _)
    have hout := h.outcome (enter s).2
    generalize m (enter s).2 = r at hout
    generalize m' (enter s).2 = r' at hout
    cases hout with
    | same r => exact .same _
    | exhausted r' => exact .exhausted _
    | broken hb hworld =>
      refine .broken hb fun t' ht' => ?_
      obtain ⟨u, hu, rfl⟩ := Outcome.state?_onState.1 ht'
      rw [hleave, hleave]
      exact hworld u hu
  · obtain ⟨u, hu, rfl⟩ := Outcome.state?_onState.1 ht
    have honward := h.onward (enter s).2 u hu
    rw [henter] at honward
    rw [hleave]
    exact honward

/-- The scope of a step is not what tells two runs apart. -/
theorem Extends.inScope {m m' : Eval α} (h : Extends B R m m') (scope : Scope) :
    Extends B R (inScope scope m) (inScope scope m') := by
  refine Extends.within ?_ ?_ h
  · exact fun _ => rfl
  · exact fun _ _ => rfl

/-- The number of open calls does not tell them apart either. -/
theorem Extends.counted {m m' : Eval α} (h : Extends B R m m') :
    Extends B R (counted m) (counted m') := by
  refine Extends.within ?_ ?_ h
  · exact fun _ => rfl
  · exact fun _ _ => rfl

end Eval

end Extends

/-! ## Rules -/

/-- The rules `c'` let a run go on where `c` breaks it off: by all faults inside functions if `c` is
strict and `c'` is not, and at the limit of the call depth if `c'` has a greater one. -/
structure Config.Loosens (B : Fault → Prop) (c c' : Config) : Prop where
  strict {f : Fault} : B f → c.strict = true
  policy : c'.strict = c.strict ∨ ∀ f, B f
  limit : c'.maxDepth = c.maxDepth ∨
    c.maxDepth < c'.maxDepth ∧ B (.callDepthExceeded c.maxDepth)
  host : c'.host = c.host

/-- Rules loosen themselves, with nothing broken off. -/
theorem Config.Loosens.same (c : Config) : c.Loosens (fun _ => False) c :=
  ⟨False.elim, Or.inl rfl, Or.inl rfl, rfl⟩

/-- Strict rules and lenient ones. -/
theorem Config.Loosens.lenient (d : Nat) (host : Host) :
    Config.Loosens (fun _ => True) ⟨true, d, host⟩ ⟨false, d, host⟩ :=
  ⟨fun _ => rfl, Or.inr fun _ => trivial, Or.inl rfl, rfl⟩

/-! ## One level of a walk -/

/-- A walker whose answers extend those of another, and which may take as many rounds. -/
structure Walker.Extends (B : Fault → Prop) (R : World → World → Prop) (v w : Walker) : Prop where
  eval (e : Expr) : Eval.Extends B R (v.eval e) (w.eval e)
  exec (t : Stmt) : Eval.Extends B R (v.exec t) (w.exec t)
  rounds : v.rounds ≤ w.rounds

namespace Walker

open Eval

variable {B : Fault → Prop} {host : Host} {R : World → World → Prop} {v w : Walker}
  {c c' : Config}

namespace Extends

variable (hR : World.Onward host R) (h : Extends B R v w)

include hR h

/-- Statements in a row: behind one that is broken off nothing is asked of the rest. -/
theorem execAll (ts : List Stmt) : Eval.Extends B R (v.execAll ts) (w.execAll ts) := by
  induction ts with
  | nil => exact (onward_pure hR ()).extends
  | cons t ts ih => exact (h.exec t).bind hR fun _ => ih

/-- The same for arguments. -/
theorem evalAll (es : List Expr) : Eval.Extends B R (v.evalAll es) (w.evalAll es) := by
  induction es with
  | nil => exact (onward_pure hR []).extends
  | cons e es ih =>
    refine (h.eval e).bind hR fun a => ih.bind hR fun as => ?_
    exact (onward_pure hR _).extends

/-- The same for the members of an object literal. -/
theorem addAll (r : ObjectRef) (ms : List Member) :
    Eval.Extends B R (v.addAll r ms) (w.addAll r ms) := by
  induction ms with
  | nil => exact (onward_pure hR ()).extends
  | cons m ms ih =>
    refine (h.eval m.value).bind hR fun a => ?_
    exact (onward_tryHeap hR _).extends.bind hR fun _ => ih

/-- The same for the items of a list literal. -/
theorem pushAll (r : ListRef) (es : List Expr) :
    Eval.Extends B R (v.pushAll r es) (w.pushAll r es) := by
  induction es with
  | nil => exact (onward_pure hR ()).extends
  | cons e es ih =>
    exact (h.eval e).bind hR fun a => (onward_onHeap hR _).extends.bind hR fun _ => ih

end Extends

/-- A literal that is remembered changes nothing, another one only the heap. -/
theorem onward_literal (hR : World.Onward host R) (id : NodeId)
    (meaning : Unit → Except Fault Product) : (literal id meaning).Onward R := by
  refine (onward_look hR _).bind hR fun known => ?_
  cases known with
  | some a => exact onward_pure hR a
  | none =>
    refine (onward_produce hR _).bind hR fun a => ?_
    exact (onward_onMemo hR _).bind hR fun _ => onward_pure hR a

theorem onward_listOf (hR : World.Onward host R) (id : NodeId) : (listOf id).Onward R := by
  refine (onward_look hR _).bind hR fun known => ?_
  cases known with
  | some r => exact onward_pure hR r
  | none =>
    refine (onward_onHeap hR _).bind hR fun r => ?_
    exact (onward_onMemo hR _).bind hR fun _ => onward_pure hR r

theorem onward_asFunction (hR : World.Onward host R) (a : Value) : (asFunction a).Onward R := by
  unfold asFunction
  split
  · exact onward_pure hR _
  · exact (onward_look hR _).bind hR fun f => onward_fail hR f

theorem onward_noteDefinition (hR : World.Onward host R) (id : NodeId) (name : String) :
    (noteDefinition id name).Onward R := by
  refine (onward_look hR _).bind hR fun known => ?_
  split
  · exact onward_pure hR ()
  · refine (onward_look hR _).bind hR fun taken => ?_
    split
    · exact onward_fail hR _
    · exact onward_onMemo hR _

/-! ### Calls -/

/-- Making null of a fault leaves the world where it is. -/
theorem onward_contain (hR : World.Onward host R) (f : Fault) : (contain c f).Onward R := by
  unfold contain
  split
  · exact onward_fail hR f
  · exact onward_pure hR _

/-- A fault that breaks off is not taken up. -/
theorem contain_of_broken (hc : c.Loosens B c') {f : Fault} (hb : B f) : contain c f = fail f := by
  unfold contain
  rw [if_pos (hc.strict hb)]

/-- A fault that breaks off strict rules is null under loose ones. -/
theorem extends_contain (hR : World.Onward host R) (hc : c.Loosens B c') (f : Fault) :
    Eval.Extends B R (contain c f) (contain c' f) := by
  rcases hc.policy with hsame | hall
  · have heq : contain c' f = contain c f := by
      unfold contain
      rw [hsame]
    rw [heq]
    exact (onward_contain hR f).extends
  · rw [contain_of_broken hc (hall f)]
    exact extends_fail (hall f) (onward_contain hR f)

/-- A fault that breaks off the body of a function breaks off its call. -/
theorem extends_finishCall (hR : World.Onward host R) (hc : c.Loosens B c') {body body' : Eval Unit}
    (h : Eval.Extends B R body body') :
    Eval.Extends B R (finishCall c body) (finishCall c' body') := by
  have honward : (finishCall c' body').Onward R := by
    intro s t ht
    rw [state?_finishCall] at ht
    exact h.onward s t ht
  refine ⟨fun s => ?_, honward⟩
  have hout := h.outcome s
  have hleft := state?_finishCall c' body' s
  unfold finishCall at hleft ⊢
  generalize body s = r at hout
  generalize body' s = r' at hout hleft ⊢
  cases hout with
  | same r =>
    cases r with
    | done a t => exact .same _
    | unwound u t =>
      cases u with
      | «return» a => exact .same _
      | jump j => exact (extends_contain hR hc _).outcome t
      | fault f => exact (extends_contain hR hc f).outcome t
    | exhausted => exact .same _
  | exhausted r' => exact .exhausted _
  | @broken f t r' hb hworld =>
    change Outcome.Extends B R (contain c f t) _
    rw [contain_of_broken hc hb]
    exact .broken hb fun t' ht' => hworld t' (hleft.symm.trans ht')

/-- A body is run under both rules, and what it comes to is taken up by each. -/
theorem Extends.callClosure (hR : World.Onward host R) (hc : c.Loosens B c') (h : Extends B R v w)
    (f : Closure) (args : List Value) :
    Eval.Extends B R (v.callClosure c f args) (w.callClosure c' f args) := by
  refine (onward_look hR _).extends.bind hR fun depth => ?_
  have hbody : ∀ scope, Eval.Extends B R
      (finishCall c (counted (inScope scope (v.execAll f.decl.body.stmts))))
      (finishCall c' (counted (inScope scope (w.execAll f.decl.body.stmts)))) :=
    fun scope => extends_finishCall hR hc ((h.execAll hR _).inScope scope).counted
  by_cases hv : c.maxDepth ≤ depth
  · by_cases hw : c'.maxDepth ≤ depth
    · rw [if_pos hv, if_pos hw]
      rcases hc.limit with heq | ⟨-, hb⟩
      · rw [heq]
        exact extends_contain hR hc _
      · rw [contain_of_broken hc hb]
        exact extends_fail hb (onward_contain hR _)
    · rw [if_pos hv, if_neg hw]
      rcases hc.limit with heq | ⟨-, hb⟩
      · omega
      · -- Where one run is refused a call, the other goes into it.
        rw [contain_of_broken hc hb]
        exact extends_fail hb ((onward_onFrames hR _).bind hR fun scope => (hbody scope).onward)
  · have hw : ¬ c'.maxDepth ≤ depth := by
      rcases hc.limit with heq | ⟨hlt, -⟩ <;> omega
    rw [if_neg hv, if_neg hw]
    exact (onward_onFrames hR _).extends.bind hR hbody

/-- What a native function answers is the same under both rules. -/
theorem Extends.call (hR : World.Onward c'.host R) (hc : c.Loosens B c') (h : Extends B R v w)
    (f : Callable) (args : List Value) :
    Eval.Extends B R (v.call c f args) (w.call c' f args) := by
  unfold Walker.call
  split
  · cases f with
    | native op => exact (onward_tryWorld hR (hR.invoke op args)).extends
    | host f =>
      dsimp only
      rw [← hc.host]
      exact (onward_tryWorld hR (hR.hosted f args)).extends
    | closure f => exact h.callClosure hR hc f args
  · exact (onward_fail hR _).extends

/-! ### Loops -/

/-- A jump ends or continues both loops. -/
theorem extends_goesOn {body body' : Eval Unit} (h : Eval.Extends B R body body') :
    Eval.Extends B R (goesOn body) (goesOn body') := by
  have hleft : ∀ s, (goesOn body' s).state? = (body' s).state? := by
    intro s
    unfold goesOn
    cases body' s with
    | done a t => rfl
    | unwound u t =>
      cases u with
      | «return» a => rfl
      | jump j => cases j <;> rfl
      | fault f => rfl
    | exhausted => rfl
  refine ⟨fun s => ?_, fun s t ht => h.onward s t ((hleft s).symm.trans ht)⟩
  have hout := h.outcome s
  have hleft := hleft s
  unfold goesOn at hleft ⊢
  generalize body s = r at hout
  generalize body' s = r' at hout hleft ⊢
  cases hout with
  | same r => exact .same _
  | exhausted r' => exact .exhausted _
  | broken hb hworld => exact .broken hb fun t' ht' => hworld t' (hleft.symm.trans ht')

/-- By induction on the rounds. -/
theorem onward_repeated (hR : World.Onward host R) {round : Eval Bool} (h : round.Onward R) (n : Nat) :
    (repeated round n).Onward R := by
  induction n with
  | zero => exact onward_exhausted
  | succ n ih =>
    rw [repeated_succ]
    refine h.bind hR fun more => ?_
    split
    · exact ih
    · exact onward_pure hR ()

/-- A loop that may take more rounds. -/
theorem extends_repeated (hR : World.Onward host R) {round round' : Eval Bool}
    (h : Eval.Extends B R round round') (n : Nat) :
    ∀ n', n ≤ n' → Eval.Extends B R (repeated round n) (repeated round' n') := by
  induction n with
  | zero => exact fun n' _ => ⟨fun s => .exhausted _, onward_repeated hR h.onward n'⟩
  | succ n ih =>
    intro n' hn
    obtain ⟨k, rfl⟩ : ∃ k, n' = k + 1 := ⟨n' - 1, by omega⟩
    rw [repeated_succ, repeated_succ]
    refine h.bind hR fun more => ?_
    split
    · exact ih k (by omega)
    · exact (onward_pure hR ()).extends

/-- A loop under loose rules has at least as many rounds. -/
theorem Extends.loop (hR : World.Onward host R) (h : Extends B R v w) (test : Expr)
    {step step' : Eval Unit} (hstep : Eval.Extends B R step step') (body : Stmt) :
    Eval.Extends B R (repeated (v.round test step body) v.rounds)
      (repeated (w.round test step' body) w.rounds) := by
  refine extends_repeated hR ?_ v.rounds w.rounds h.rounds
  refine (h.eval test).bind hR fun a => ?_
  split
  · refine (extends_goesOn (h.exec body)).bind hR fun more => ?_
    split
    · exact hstep.bind hR fun _ => (onward_pure hR true).extends
    · exact (onward_pure hR false).extends
  · exact (onward_pure hR false).extends

/-! ### Nodes -/

/-- By cases on the expression: its parts extend each other, and the rest is the same step. -/
theorem Extends.evaluate (hR : World.Onward c'.host R) (hc : c.Loosens B c') (h : Extends B R v w)
    (e : Expr) : Eval.Extends B R (v.evaluate c e) (w.evaluate c' e) := by
  unfold Walker.evaluate
  cases e with
  | int span id raw => exact (onward_literal hR id _).extends
  | float span id raw => exact (onward_literal hR id _).extends
  | string span id raw => exact (onward_literal hR id _).extends
  | bool span b => exact (onward_pure hR _).extends
  | null span => exact (onward_pure hR _).extends
  | list span id items =>
    refine (onward_listOf hR id).extends.bind hR fun r => ?_
    refine (onward_onHeap hR _).extends.bind hR fun _ => ?_
    exact (h.pushAll hR r items).bind hR fun _ => (onward_pure hR _).extends
  | object span members =>
    refine (onward_onHeap hR _).extends.bind hR fun r => ?_
    exact (h.addAll hR r members).bind hR fun _ => (onward_pure hR _).extends
  | name span x =>
    exact (onward_look hR _).extends.bind hR fun r => (onward_ofExcept hR r).extends
  | property span target x =>
    refine (h.eval target).bind hR fun a => (onward_look hR _).extends.bind hR fun p => ?_
    cases p with
    | some p => exact (onward_pure hR p).extends
    | none => exact (onward_fail hR _).extends
  | call span callee args =>
    refine (h.eval callee).bind hR fun a => (onward_asFunction hR a).extends.bind hR fun f => ?_
    exact (h.evalAll hR args).bind hR fun values => h.call hR hc f values
  | lambda span decl =>
    exact (onward_look hR _).extends.bind hR fun scope => (onward_onHeap hR _).extends
  | binary span op left right =>
    refine (h.eval left).bind hR fun a => (h.eval right).bind hR fun b => ?_
    exact (onward_produce hR _).extends
  | unary span op operand =>
    exact (h.eval operand).bind hR fun a => (onward_produce hR _).extends
  | logical span op left right =>
    refine (h.eval left).bind hR fun a => ?_
    have choice : ∀ decided : Bool,
        Eval.Extends B R (if decided then pure a else v.eval right)
          (if decided then pure a else w.eval right) := by
      intro decided
      split
      · exact (onward_pure hR a).extends
      · exact h.eval right
    cases op <;> exact choice _
  | coalesce span left right =>
    refine (h.eval left).bind hR fun a => ?_
    split
    · exact h.eval right
    · exact (onward_pure hR a).extends

theorem Extends.execBlock (hR : World.Onward host R) (h : Extends B R v w) (b : Block) :
    Eval.Extends B R (v.execBlock b) (w.execBlock b) := by
  refine (onward_look hR _).extends.bind hR fun outer => ?_
  refine (onward_onFrames hR _).extends.bind hR fun scope => ?_
  exact (h.execAll hR b.stmts).inScope scope

/-- The same for statements. -/
theorem Extends.execute (hR : World.Onward host R) (h : Extends B R v w) (t : Stmt) :
    Eval.Extends B R (v.execute t) (w.execute t) := by
  unfold Walker.execute
  cases t with
  | expr e => exact (h.eval e).bind hR fun a => (onward_pure hR ()).extends
  | assign span x e =>
    refine (onward_look hR _).extends.bind hR fun f => (h.eval e).bind hR fun a => ?_
    exact (onward_define hR _ _ _).extends
  | assignProperty span target x e =>
    refine (h.eval target).bind hR fun o => (h.eval e).bind hR fun a => ?_
    exact (onward_tryHeap hR _).extends
  | define span id x decl =>
    refine (onward_noteDefinition hR id x.name).extends.bind hR fun _ => ?_
    refine (onward_look hR _).extends.bind hR fun scope => ?_
    exact (onward_onHeap hR _).extends.bind hR fun f => (onward_define hR _ _ _).extends
  | cond span test yes no =>
    refine (h.eval test).bind hR fun a => ?_
    split
    · exact h.exec yes
    · cases no with
      | some no => exact h.exec no
      | none => exact (onward_pure hR ()).extends
  | «while» span test body => exact h.loop hR test (onward_pure hR ()).extends body
  | «for» span init test step body =>
    exact (h.exec init).bind hR fun _ => h.loop hR test (h.exec step) body
  | «break» span => exact (onward_unwind hR _).extends
  | «continue» span => exact (onward_unwind hR _).extends
  | «return» span value =>
    cases value with
    | none => exact (onward_unwind hR _).extends
    | some e => exact (h.eval e).bind hR fun a => (onward_unwind hR _).extends
  | write span e =>
    refine (h.eval e).bind hR fun a => ?_
    exact (onward_onWorld fun world => hR.print world _).extends
  | block b => exact h.execBlock hR b

end Walker

/-! ## Every level -/

section Ends

variable {α : Type} {B : Fault → Prop} {R : World → World → Prop} {r r' : Outcome α}

/-- The run ends, with a value or with a signal, and not with a fault. -/
def Outcome.Faultless : Outcome α → Prop
  | .done _ _ => True
  | .unwound (.fault _) _ => False
  | .unwound _ _ => True
  | .exhausted => False

/-- A run without a fault was not broken off, so it is the same. -/
theorem Outcome.Extends.eq_of_faultless (h : r.Extends B R r') (hr : r.Faultless) : r' = r := by
  cases h with
  | same => rfl
  | exhausted => exact hr.elim
  | broken => exact hr.elim

/-- A run that has ended is the same unless its fault breaks off. -/
theorem Outcome.Extends.eq_of_ended (h : r.Extends B R r') (hended : r ≠ .exhausted)
    (hbroken : ∀ f t, B f → r ≠ .unwound (.fault f) t) : r' = r := by
  cases h with
  | same => rfl
  | exhausted => exact absurd rfl hended
  | broken hb => exact absurd rfl (hbroken _ _ hb)

/-- Where nothing breaks off, a run that ends is the same. -/
theorem Outcome.Extends.eq_of_unbroken (h : r.Extends (fun _ => False) R r')
    (hr : r ≠ .exhausted) : r' = r :=
  h.eq_of_ended hr fun _ _ => False.elim

end Ends

/-- The world goes on through whatever a walker is asked, and more levels change nothing. -/
theorem extends_levels {R : World → World → Prop} {c : Config} (hR : World.Onward c.host R)
    (n : Nat) : Walker.Extends (fun _ => False) R (walker c n) (walker c n) := by
  induction n with
  | zero =>
    exact ⟨fun e => Eval.onward_exhausted.extends, fun t => Eval.onward_exhausted.extends,
      Nat.le_refl _⟩
  | succ n ih =>
    exact ⟨fun e => ih.evaluate hR (.same c) e, fun t => ih.execute hR t, Nat.le_refl _⟩

/-- **A run with looser rules and more levels extends a run.** -/
theorem extends_walker {B : Fault → Prop} {R : World → World → Prop} {c c' : Config}
    (hR : World.Onward c'.host R) (hc : c.Loosens B c') (n : Nat) :
    ∀ n', n ≤ n' → Walker.Extends B R (walker c n) (walker c' n') := by
  induction n with
  | zero =>
    intro n' _
    have hlast := extends_levels hR n'
    exact ⟨fun e => ⟨fun s => .exhausted _, (hlast.eval e).onward⟩,
      fun t => ⟨fun s => .exhausted _, (hlast.exec t).onward⟩, Nat.zero_le _⟩
  | succ n ih =>
    intro n' hn
    obtain ⟨k, rfl⟩ : ∃ k, n' = k + 1 := ⟨n' - 1, by omega⟩
    have hk := ih k (by omega)
    exact ⟨fun e => hk.evaluate hR hc e, fun t => hk.execute hR t, hn⟩

/-! ## Strict and lenient rules -/

/-- Whatever is done to a world, what has been printed stays. -/
theorem World.onward_keepsOutput (host : Host) : World.Onward host World.KeepsOutput where
  refl := .refl
  trans := .trans
  heap w _ := { World.KeepsOutput.refl w with }
  print w line := { World.KeepsOutput.refl w with out := ⟨[line], Array.toList_push.symm⟩ }
  eprint w line := { World.KeepsOutput.refl w with err := ⟨[line], Array.toList_push.symm⟩ }
  read w := { World.KeepsOutput.refl w with }
  clock w := { World.KeepsOutput.refl w with }
  hosted := host.keepsOutput

/-- What a run under strict rules tells of the run under lenient ones, each with some number of
levels.  Where it ends without a fault, the other ends in the same way and in the same state.  Where
it ends with a fault, what it has written is the beginning of what the other writes. -/
structure Refines {α : Type} (strict lenient : Nat → Outcome α) : Prop where
  same (n n' : Nat) : n ≤ n' → (strict n).Faultless → lenient n' = strict n
  output (n n' : Nat) {f : Fault} {t t' : State} :
    strict n = .unwound (.fault f) t → (lenient n').state? = some t' →
    t.world.KeepsOutput t'.world

/-- So it is enough that runs extend each other at every number of levels. -/
theorem refines_of_extends {α : Type} {strict lenient : Nat → Outcome α}
    (h : ∀ n n', n ≤ n' → (strict n).Extends (fun _ => True) World.KeepsOutput (lenient n'))
    (hlevels : ∀ n n', n ≤ n' →
      (lenient n).Extends (fun _ => False) World.KeepsOutput (lenient n')) :
    Refines strict lenient where
  same n n' hn hr := (h n n' hn).eq_of_faultless hr
  output := by
    intro n n' f t t' hstrict ht'
    -- With as many levels as either has, the lenient run is the same and extends the strict one.
    have hmore : lenient (max n n') = lenient n' := by
      refine (hlevels n' _ (Nat.le_max_right n n')).eq_of_unbroken fun hexhausted => ?_
      rw [hexhausted] at ht'
      cases ht'
    have hextends := h n _ (Nat.le_max_left n n')
    rw [hstrict, hmore] at hextends
    generalize lenient n' = r at hextends ht'
    cases hextends with
    | same =>
      cases ht'
      exact .refl _
    | broken _ hworld => exact hworld t' ht'

/-- More levels change nothing, but that a run may end which had run out of them. -/
theorem levels_suffice (c : Config) {n n' : Nat} (hn : n ≤ n') :
    (∀ e s, (walker c n).eval e s ≠ .exhausted →
      (walker c n').eval e s = (walker c n).eval e s) ∧
    (∀ t s, (walker c n).exec t s ≠ .exhausted →
      (walker c n').exec t s = (walker c n).exec t s) ∧
    (∀ f args s, (walker c n).call c f args s ≠ .exhausted →
      (walker c n').call c f args s = (walker c n).call c f args s) := by
  have hR := World.onward_keepsOutput c.host
  have hextends := extends_walker hR (.same c) n n' hn
  refine ⟨?_, ?_, ?_⟩
  · intro e s he
    exact ((hextends.eval e).outcome s).eq_of_unbroken he
  · intro t s ht
    exact ((hextends.exec t).outcome s).eq_of_unbroken ht
  · intro f args s hcall
    exact ((hextends.call hR (.same c) f args).outcome s).eq_of_unbroken hcall

/-- **Strict rules only make a run end earlier.**  With the same limit of the call depth and from the
same state, evaluations, executions, calls and runs of programs under strict rules refine those
under lenient ones. -/
theorem strict_refines_lenient (d : Nat) (host : Host) (s : State) :
    let strict : Config := ⟨true, d, host⟩
    let lenient : Config := ⟨false, d, host⟩
    (∀ e, Refines (fun n => (walker strict n).eval e s) fun n => (walker lenient n).eval e s) ∧
    (∀ t, Refines (fun n => (walker strict n).exec t s) fun n => (walker lenient n).exec t s) ∧
    (∀ f args, Refines (fun n => (walker strict n).call strict f args s)
      fun n => (walker lenient n).call lenient f args s) ∧
    (∀ p : Program, Refines (fun n => (walker strict n).execAll p.stmts s.ready)
      fun n => (walker lenient n).execAll p.stmts s.ready) ∧
    (∀ p, Refines (fun _ => Interpreter.run strict p s) fun _ => Interpreter.run lenient p s) := by
  intro strict lenient
  have hR := World.onward_keepsOutput host
  have hrules := Config.Loosens.lenient d host
  have hextends := fun n n' hn => extends_walker hR hrules n n' hn
  have hlevels := fun n n' hn => extends_walker hR (.same lenient) n n' hn
  have hprogram : ∀ p : Program, Refines (fun n => (walker strict n).execAll p.stmts s.ready)
      fun n => (walker lenient n).execAll p.stmts s.ready := by
    intro p
    apply refines_of_extends
    · intro n n' hn
      exact ((hextends n n' hn).execAll hR p.stmts).outcome s.ready
    · intro n n' hn
      exact ((hlevels n n' hn).execAll hR p.stmts).outcome s.ready
  refine ⟨?_, ?_, ?_, hprogram, ?_⟩
  · intro e
    apply refines_of_extends
    · intro n n' hn
      exact ((hextends n n' hn).eval e).outcome s
    · intro n n' hn
      exact ((hlevels n n' hn).eval e).outcome s
  · intro t
    apply refines_of_extends
    · intro n n' hn
      exact ((hextends n n' hn).exec t).outcome s
    · intro n n' hn
      exact ((hlevels n n' hn).exec t).outcome s
  · intro f args
    apply refines_of_extends
    · intro n n' hn
      exact ((hextends n n' hn).call hR hrules f args).outcome s
    · intro n n' hn
      exact ((hlevels n n' hn).call hR (.same lenient) f args).outcome s
  · intro p
    have hlast := Nat.le_refl Interpreter.levels
    exact ⟨fun _ _ _ => (hprogram p).same _ _ hlast, fun _ _ => (hprogram p).output _ _⟩

/-- The program `fn f() { -null; } write true; f(); write false;`. -/
def tripping : Program where
  stmts :=
    [.define default default ⟨"f", default⟩
        ⟨[], ⟨[.expr (.unary default .minus (.null default))], default⟩⟩,
      .write default (.bool default true),
      .expr (.call default (.name default "f") []),
      .write default (.bool default false)]
  span := default

/-- Under strict rules the program ends in the call; under lenient ones it writes another line. -/
theorem output_of_tripping : ∃ f t t',
    (walker ⟨true, 5, .bare⟩ 5).execAll tripping.stmts (State.start [] {} {}).ready =
        .unwound (.fault f) t ∧
      (walker ⟨false, 5, .bare⟩ 5).execAll tripping.stmts (State.start [] {} {}).ready = .done () t' ∧
      t.world.console.out = #["true"] ∧ t'.world.console.out = #["true", "false"] ∧
      t.world.KeepsOutput t'.world := by
  refine ⟨_, _, _, rfl, rfl, rfl, rfl, ?_⟩
  have hruns := (strict_refines_lenient 5 .bare (State.start [] {} {})).2.2.2.1 tripping
  exact hruns.output 5 5 rfl rfl

end SmallScript
