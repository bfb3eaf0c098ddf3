/-
  Which faults leave an evaluation.

  Two faults are the business of calls (`Fault.OfCall`): that functions are nested too deeply, and
  that a jump left the body of a function.  What a call does with a fault in its body is decided in
  one place, `Walker.contain`; under lenient rules it becomes the value null.  So a call of a
  function of a script with the right number of arguments does not fail at all then
  (`Walker.contained_callClosure` needs to know nothing about the body), and the two faults of calls
  are never seen by anybody.

  That they are seen by nobody has two halves.  Nothing but a call blames a call: operators, methods,
  libraries and look-ups all fail plainly (`FailsPlainly`).  And whatever is built of such steps and
  of calls lets the faults of calls out only under strict rules (`Eval.Contained`), which is shown for
  one level of a walk and then for all of them.  Of the functions of an embedder it has to be known
  that they fail plainly too (`Host.FailsPlainly`).
-/
import SmallScript.Library.Sampler
import SmallScript.Proofs.Evaluation.Signals
import SmallScript.Proofs.Evaluation.Occurrence

namespace SmallScript

/-- The faults that are about calls of functions of scripts. -/
def Fault.OfCall : Fault → Prop
  | .callDepthExceeded _ => True
  | .jumpOutsideLoop _ => True
  | _ => False

/-! ## Results -/

section Results

variable {α β : Type} {f : Fault}

/-- If there is no result, the reason is not one of a call. -/
def FailsPlainly (r : Except Fault α) : Prop := ∀ f, r = .error f → ¬ f.OfCall

/-- What succeeds does not blame a call. -/
theorem failsPlainly_ok (a : α) : FailsPlainly (.ok a) := by
  intro f h
  cases h

/-- A fault that is none of a call's does not blame one. -/
theorem failsPlainly_error (hf : ¬ f.OfCall) : FailsPlainly (.error f : Except Fault α) := by
  intro g h
  cases h
  exact hf

/-- What is made of a result fails as the result does. -/
theorem FailsPlainly.map {r : Except Fault α} (h : FailsPlainly r) (g : α → β) :
    FailsPlainly (r.map g) := by
  cases r with
  | ok a => exact failsPlainly_ok (g a)
  | error f => exact failsPlainly_error (h f rfl)

/-- Two steps that do not blame a call do not do so one after the other. -/
theorem FailsPlainly.bind {r : Except Fault α} {g : α → Except Fault β} (h : FailsPlainly r)
    (hg : ∀ a, FailsPlainly (g a)) : FailsPlainly (r >>= g) := by
  cases r with
  | ok a => exact hg a
  | error f => exact failsPlainly_error (h f rfl)

/-- The complaint about a number of arguments is none of a call's. -/
theorem failsPlainly_wrongCount (params : List String) (args : List Value) :
    FailsPlainly (wrongCount params args : Except Fault α) :=
  failsPlainly_error id

end Results

/-! ### Values and their properties -/

theorem Heap.failsPlainly_expectInt (h : Heap) (v : Value) : FailsPlainly (h.expectInt v) := by
  unfold expectInt
  split
  · exact failsPlainly_ok _
  · exact failsPlainly_error id

theorem Heap.failsPlainly_expectFloat (h : Heap) (v : Value) : FailsPlainly (h.expectFloat v) := by
  unfold expectFloat
  split
  · exact failsPlainly_ok _
  · exact failsPlainly_error id

/-- Asking for an integer or a float fails with a complaint about a type. -/
theorem Heap.failsPlainly_expectNumber (h : Heap) (v : Value) : FailsPlainly (h.expectNumber v) := by
  unfold expectNumber
  split
  · exact failsPlainly_ok _
  · exact failsPlainly_ok _
  · exact failsPlainly_error id

/-- Asking for a text fails in the same way. -/
theorem Heap.failsPlainly_expectText (h : Heap) (v : Value) : FailsPlainly (h.expectText v) := by
  unfold expectText
  split
  · exact failsPlainly_ok _
  · exact failsPlainly_error id

/-- Adding a property fails only where it is there already. -/
theorem Bag.failsPlainly_add (b : Bag) (x : String) (v : Value) : FailsPlainly (Bag.add b x v) := by
  unfold add
  split
  · exact failsPlainly_error id
  · exact failsPlainly_ok _

/-- Setting a property fails only where it is missing. -/
theorem Bag.failsPlainly_set (b : Bag) (x : String) (v : Value) : FailsPlainly (Bag.set b x v) := by
  unfold set
  split
  · exact failsPlainly_ok _
  · exact failsPlainly_error id

/-- A change of a bag fails as the change itself does, or as it is refused. -/
theorem Heap.failsPlainly_changeBag (h : Heap) (o : Value) {change : Bag → Except Fault Bag}
    (hchange : ∀ b, FailsPlainly (change b)) {refusal : Fault} (hrefusal : ¬ refusal.OfCall) :
    FailsPlainly (h.changeBag o change refusal).1 := by
  unfold changeBag
  cases h.bag? o with
  | none => exact failsPlainly_error hrefusal
  | some b =>
    dsimp only
    have hb := hchange b
    cases hc : change b with
    | error f => exact failsPlainly_error (hb f hc)
    | ok b' => exact failsPlainly_ok ()

theorem Heap.failsPlainly_setProperty (h : Heap) (o : Value) (x : String) (v : Value) :
    FailsPlainly (h.setProperty o x v).1 :=
  h.failsPlainly_changeBag o (fun b => b.failsPlainly_set x v) id

theorem Heap.failsPlainly_addProperty (h : Heap) (o : Value) (x : String) (v : Value) :
    FailsPlainly (h.addProperty o x v).1 :=
  h.failsPlainly_changeBag o (fun b => b.failsPlainly_add x v) id

/-- Reading a name fails only where it is bound nowhere. -/
theorem Frames.failsPlainly_read (fs : Frames) (scope : Scope) (x : String) :
    FailsPlainly (fs.read scope x) := by
  unfold read
  split
  · exact failsPlainly_ok _
  · exact failsPlainly_error id

/-! ### Literals -/

/-- A numeral that means nothing is an invalid literal. -/
theorem Literal.failsPlainly_int (raw : String) : FailsPlainly (Literal.int raw) := by
  unfold Literal.int
  dsimp only
  split
  · exact failsPlainly_ok _
  · exact failsPlainly_error id

theorem Literal.failsPlainly_float (raw : String) : FailsPlainly (Literal.float raw) := by
  unfold Literal.float
  split
  · exact failsPlainly_ok _
  · exact failsPlainly_error id

theorem Literal.failsPlainly_resolve (cs : List Char) : FailsPlainly (Literal.resolve cs) := by
  fun_induction Literal.resolve cs with
  | case1 => exact failsPlainly_ok _
  | case2 => exact failsPlainly_ok _
  | case3 c rest d hd ih => exact ih.map _
  | case4 c rest hd => exact failsPlainly_error id
  | case5 c rest hlone hescape ih => exact ih.map _

/-- A string fails at its first escape that means nothing. -/
theorem Literal.failsPlainly_text (raw : String) : FailsPlainly (Literal.text raw) :=
  (Literal.failsPlainly_resolve _).map _

/-! ### Operators -/

namespace Operator

/-- On integers only a division can fail, and it blames the zero. -/
theorem failsPlainly_onInts (op : ArithOp) (a b : Int64) : FailsPlainly (onInts op a b) := by
  have hquotient : ∀ n : Int64,
      FailsPlainly (if b = 0 then .error .divisionByZero else .ok n) := by
    intro n
    split
    · exact failsPlainly_error id
    · exact failsPlainly_ok n
  cases op with
  | add => exact failsPlainly_ok _
  | sub => exact failsPlainly_ok _
  | mul => exact failsPlainly_ok _
  | div => exact hquotient (a / b)
  | rem => exact hquotient (a % b)

/-- A repetition fails only if its text would be too long. -/
theorem failsPlainly_repetition (s : String) (count : Int64) :
    FailsPlainly (repetition s count) := by
  unfold repetition
  split
  · exact failsPlainly_ok _
  · exact failsPlainly_error id

/-- Arithmetic complains about its operands or about a zero. -/
theorem failsPlainly_arithmetic (h : Heap) (op : ArithOp) (a b : Value) :
    FailsPlainly (arithmetic h op a b) := by
  unfold arithmetic
  split
  · exact (failsPlainly_onInts op _ _).map _
  · exact failsPlainly_ok _
  · exact failsPlainly_ok _
  · exact failsPlainly_ok _
  · exact failsPlainly_ok _
  · exact failsPlainly_repetition _ _
  · exact failsPlainly_error id

/-- No operator between two operands blames a call. -/
theorem failsPlainly_binary (h : Heap) (op : BinaryOp) (a b : Value) :
    FailsPlainly (binary h op a b) := by
  unfold binary
  cases op with
  | arith op => exact failsPlainly_arithmetic h op a b
  | order question =>
    dsimp only
    split
    · exact failsPlainly_ok _
    · exact failsPlainly_error id
  | eq => exact failsPlainly_ok _
  | notEq => exact failsPlainly_ok _

/-- No operator in front of an operand does. -/
theorem failsPlainly_unary (h : Heap) (op : UnaryOp) (a : Value) :
    FailsPlainly (unary h op a) := by
  unfold unary
  split
  · exact failsPlainly_ok _
  · exact failsPlainly_ok _
  · exact failsPlainly_ok _
  · exact failsPlainly_ok _
  · exact failsPlainly_ok _
  · exact failsPlainly_error id
  · exact failsPlainly_error id

end Operator

/-! ### Methods and libraries -/

/-- A position that is not there is an index out of bounds. -/
theorem failsPlainly_position (index : Int64) (length : Nat) :
    FailsPlainly (position index length) := by
  unfold position
  split
  · exact failsPlainly_ok _
  · exact failsPlainly_error id

/-- A slice that does not lie in its text is an invalid range. -/
theorem TextMethod.failsPlainly_sliced (s : String) (first last : Int64) :
    FailsPlainly (sliced s first last) := by
  unfold sliced
  dsimp only
  split
  · exact failsPlainly_ok _
  · exact failsPlainly_error id

/-- No method of a text blames a call. -/
theorem TextMethod.failsPlainly_apply (h : Heap) (s : String) (m : TextMethod)
    (args : List Value) : FailsPlainly (m.apply h s args) := by
  unfold apply
  split
  · exact failsPlainly_ok _
  · refine (h.failsPlainly_expectInt _).bind fun i => ?_
    exact ((failsPlainly_position i _).map _).bind fun c => failsPlainly_ok _
  · refine (h.failsPlainly_expectInt _).bind fun a => (h.failsPlainly_expectInt _).bind fun b => ?_
    exact (failsPlainly_sliced s a b).bind fun part => failsPlainly_ok _
  · exact failsPlainly_ok _
  · exact failsPlainly_ok _
  · exact failsPlainly_wrongCount _ _

/-- What is wrong with the arguments of a list's method is wrong with their types. -/
theorem ListMethod.failsPlainly_call (h : Heap) (m : ListMethod) (args : List Value) :
    FailsPlainly (m.call h args) := by
  unfold call
  split
  · exact failsPlainly_ok _
  · exact (h.failsPlainly_expectInt _).map _
  · exact (h.failsPlainly_expectInt _).map _
  · exact failsPlainly_ok _
  · exact failsPlainly_ok _
  · exact failsPlainly_wrongCount _ _

/-- What is wrong with a call on a list is a position. -/
theorem ListCall.failsPlainly_result (items : Array Value) (call : ListCall) :
    FailsPlainly (call.result items) := by
  cases call with
  | len => exact failsPlainly_ok _
  | item index => exact (failsPlainly_position index _).map _
  | assign index v => exact (failsPlainly_position index _).map _
  | push v => exact failsPlainly_ok _
  | pop =>
    unfold result
    dsimp only
    split
    · exact failsPlainly_ok _
    · exact failsPlainly_error id

/-- No method of a list blames a call. -/
theorem ListMethod.failsPlainly_apply (r : ListRef) (m : ListMethod) (args : List Value)
    (h : Heap) : FailsPlainly (m.apply r args h).1 := by
  unfold apply
  split
  · rename_i f hcall
    exact failsPlainly_error (failsPlainly_call h m args f hcall)
  · exact ListCall.failsPlainly_result _ _

/-- No method of a map does. -/
theorem MapMethod.failsPlainly_apply (t : TableRef) (m : MapMethod) (args : List Value)
    (h : Heap) : FailsPlainly (m.apply t args h).1 := by
  have hcall : FailsPlainly (m.call args) := by
    unfold call
    split
    · exact failsPlainly_ok _
    · exact failsPlainly_ok _
    · exact failsPlainly_ok _
    · exact failsPlainly_wrongCount _ _
  unfold apply
  split
  · rename_i f hf
    exact failsPlainly_error (hcall f hf)
  · exact failsPlainly_ok _

/-- The lesser or greater of two values is asked for numbers. -/
theorem MathFunction.failsPlainly_extreme (h : Heap) (ints : Int64 → Int64 → Int64)
    (floats : Double → Double → Double) (a b : Value) :
    FailsPlainly (extreme h ints floats a b) := by
  unfold extreme
  split
  · exact failsPlainly_ok _
  · refine (h.failsPlainly_expectNumber _).bind fun x => ?_
    refine (h.failsPlainly_expectNumber _).bind fun y => ?_
    exact failsPlainly_ok _

/-- No function of the mathematics does. -/
theorem MathFunction.failsPlainly_apply (h : Heap) (f : MathFunction) (args : List Value) :
    FailsPlainly (f.apply h args) := by
  unfold apply
  split
  · exact failsPlainly_extreme h _ _ _ _
  · exact failsPlainly_extreme h _ _ _ _
  · exact (h.failsPlainly_expectFloat _).map _
  · exact (h.failsPlainly_expectFloat _).map _
  · refine (h.failsPlainly_expectNumber _).bind fun x => ?_
    refine (h.failsPlainly_expectNumber _).bind fun y => ?_
    exact failsPlainly_ok _
  · split
    · exact (h.failsPlainly_expectNumber _).map _
    · exact failsPlainly_wrongCount _ _

/-- A conversion fails for a value that cannot be converted. -/
theorem Conversion.failsPlainly_toInt (h : Heap) (v : Value) : FailsPlainly (toInt h v) := by
  unfold toInt
  split
  · exact failsPlainly_ok _
  · exact failsPlainly_ok _
  · exact failsPlainly_ok _
  · exact failsPlainly_error id

theorem Conversion.failsPlainly_toFloat (h : Heap) (v : Value) : FailsPlainly (toFloat h v) := by
  unfold toFloat
  split
  · exact failsPlainly_ok _
  · exact failsPlainly_ok _
  · exact failsPlainly_ok _
  · exact failsPlainly_error id

/-- Putting a result into the heap does not fail. -/
theorem World.failsPlainly_finish {r : Except Fault Product} (hr : FailsPlainly r) (w : World) :
    FailsPlainly (w.finish r).1 := by
  cases r with
  | ok p => exact failsPlainly_ok _
  | error f => exact failsPlainly_error (hr f rfl)

/-- No global function blames a call. -/
theorem GlobalFunction.failsPlainly_invoke (f : GlobalFunction) (args : List Value) (w : World) :
    FailsPlainly (f.invoke args w).1 := by
  unfold invoke
  split
  · exact failsPlainly_ok _
  · exact failsPlainly_ok _
  · exact World.failsPlainly_finish (failsPlainly_ok _) _
  · exact failsPlainly_ok _
  · exact Conversion.failsPlainly_toInt _ _
  · exact Conversion.failsPlainly_toFloat _ _
  · exact World.failsPlainly_finish (failsPlainly_ok _) _
  · exact failsPlainly_ok _
  · exact failsPlainly_ok _
  · exact failsPlainly_wrongCount _ _

/-- A native function does not blame a call. -/
theorem Native.failsPlainly_invoke (op : Native) (args : List Value) (w : World) :
    FailsPlainly (op.invoke args w).1 := by
  cases op with
  | text owner m => exact World.failsPlainly_finish (m.failsPlainly_apply _ _ _) _
  | list owner m => exact m.failsPlainly_apply owner args w.heap
  | map table m => exact m.failsPlainly_apply table args w.heap
  | math f => exact f.failsPlainly_apply w.heap args
  | global f => exact f.failsPlainly_invoke args w

/-- An embedder whose functions do not blame calls, as its own language lets them. -/
def Host.FailsPlainly (host : Host) : Prop :=
  ∀ f args w, SmallScript.FailsPlainly (host.invoke f args w).1

/-- What the sampler complains about are its arguments, or it uses words of its own. -/
theorem Host.sampler_failsPlainly : sampler.FailsPlainly := by
  intro f args w
  change SmallScript.FailsPlainly (Sampler.invoke f args w).1
  unfold Sampler.invoke
  split
  · exact (w.heap.failsPlainly_expectInt _).map _
  · exact (w.heap.failsPlainly_expectNumber _).map _
  · exact World.failsPlainly_finish ((w.heap.failsPlainly_expectText _).map _) _
  · exact failsPlainly_ok _
  · exact failsPlainly_error id
  · exact failsPlainly_wrongCount _ _

/-! ## The faults of a step -/

/-- The rules let a fault out of the calls of functions of scripts: all faults if they are strict,
and otherwise those that are not about such a call. -/
def Config.LetsOut (config : Config) (f : Fault) : Prop := f.OfCall → config.strict = true

namespace Eval

variable {α β : Type} {config : Config}

/-- If a step fails, the rules let the fault out of calls. -/
def Contained (config : Config) (m : Eval α) : Prop :=
  ∀ s f t, m s = .unwound (.fault f) t → config.LetsOut f

/-- A step that does not fail lets nothing out. -/
theorem Contained.of_ne {m : Eval α} (h : ∀ s f t, m s ≠ .unwound (.fault f) t) :
    m.Contained config :=
  fun s f t hm => absurd hm (h s f t)

/-- What does nothing lets nothing out. -/
theorem contained_pure (a : α) : (pure a : Eval α).Contained config :=
  .of_ne fun _ _ _ h => nomatch h

/-- What comes to no end lets nothing out. -/
theorem contained_exhausted : (exhausted : Eval α).Contained config :=
  .of_ne fun _ _ _ h => nomatch h

theorem contained_look (f : State → α) : (look f).Contained config :=
  .of_ne fun _ _ _ h => nomatch h

theorem contained_onWorld (f : World → α × World) : (onWorld f).Contained config :=
  .of_ne fun _ _ _ h => nomatch h

theorem contained_onHeap (f : Heap → α × Heap) : (onHeap f).Contained config :=
  contained_onWorld _

theorem contained_onFrames (f : Frames → α × Frames) : (onFrames f).Contained config :=
  .of_ne fun _ _ _ h => nomatch h

theorem contained_define (f : FrameRef) (name : String) (v : Value) :
    (define f name v).Contained config :=
  contained_onFrames _

theorem contained_onMemo (f : Memo → Memo) : (onMemo f).Contained config :=
  .of_ne fun _ _ _ h => nomatch h

/-- A step may fail with whatever may be let out. -/
theorem contained_fail {f : Fault} (hf : config.LetsOut f) :
    (fail f : Eval α).Contained config := by
  intro s g t h
  cases h
  exact hf

/-- A signal is no fault. -/
theorem contained_unwind {u : Unwind} {sig : Signal} (hu : u.signal? = some sig) :
    (unwind u : Eval α).Contained config := by
  intro s f t h
  cases h
  cases hu

/-- A result that does not blame a call may be passed on. -/
theorem contained_ofExcept {r : Except Fault α} (hr : FailsPlainly r) :
    (ofExcept r).Contained config := by
  cases r with
  | ok a => exact contained_pure a
  | error f => exact contained_fail fun hf => absurd hf (hr f rfl)

/-- Two steps that let nothing out do not do so one after the other. -/
theorem Contained.bind {x : Eval α} {f : α → Eval β} (hx : x.Contained config)
    (hf : ∀ a, (f a).Contained config) : (x >>= f).Contained config := by
  intro s g t h
  rcases bind_eq_unwound.1 h with h | ⟨a, u, -, h⟩
  · exact hx s g t h
  · exact hf a u g t h

/-- Nor does a step in the world that does not blame a call. -/
theorem contained_tryWorld {f : World → Except Fault α × World}
    (hf : ∀ w, FailsPlainly (f w).1) : (tryWorld f).Contained config := by
  intro s g t h
  change ofExcept (f s.world).1 (s.inWorld (f s.world).2) = _ at h
  exact contained_ofExcept (hf s.world) _ g t h

/-- Nor does a result that is put into the heap. -/
theorem contained_produce {result : Heap → Except Fault Product}
    (h : ∀ heap, FailsPlainly (result heap)) : (produce result).Contained config :=
  contained_tryWorld fun w => World.failsPlainly_finish (h w.heap) w

/-- What is done around a step does not change the fault that it ends in. -/
theorem Contained.within {σ : Type} {m : Eval α} (hm : m.Contained config)
    (enter : State → σ × State) (leave : σ → State → State) :
    (within enter leave m).Contained config := by
  intro s f t h
  change (m (enter s).2).onState (leave (enter s).1) = _ at h
  cases hr : m (enter s).2 with
  | unwound u t' =>
    rw [hr] at h
    cases h
    exact hm _ f t' hr
  | _ =>
    rw [hr] at h
    cases h

end Eval

/-! ## One level of a walk -/

namespace Walker

open Eval

/-- Of the nodes inside a node the rules let out what comes out. -/
structure Contained (w : Walker) (config : Config) : Prop where
  eval (e : Expr) : (w.eval e).Contained config
  exec (t : Stmt) : (w.exec t).Contained config

variable {w : Walker} {config : Config}

/-- Statements in a row let out what one of them lets out. -/
theorem contained_execAll (hw : w.Contained config) (ts : List Stmt) :
    (w.execAll ts).Contained config := by
  induction ts with
  | nil => exact contained_pure ()
  | cons t ts ih => exact (hw.exec t).bind fun _ => ih

/-- So do the arguments of a call. -/
theorem contained_evalAll (hw : w.Contained config) (es : List Expr) :
    (w.evalAll es).Contained config := by
  induction es with
  | nil => exact contained_pure []
  | cons e es ih => exact (hw.eval e).bind fun v => ih.bind fun vs => contained_pure _

/-- So do the members of an object literal. -/
theorem contained_addAll (hw : w.Contained config) (r : ObjectRef) (ms : List Member) :
    (w.addAll r ms).Contained config := by
  induction ms with
  | nil => exact contained_pure ()
  | cons m ms ih =>
    refine (hw.eval m.value).bind fun v => Contained.bind ?_ fun _ => ih
    exact contained_tryWorld fun world =>
      world.heap.failsPlainly_addProperty (.object r) m.name.name v

/-- So do the items of a list literal. -/
theorem contained_pushAll (hw : w.Contained config) (r : ListRef) (es : List Expr) :
    (w.pushAll r es).Contained config := by
  induction es with
  | nil => exact contained_pure ()
  | cons e es ih => exact (hw.eval e).bind fun v => (contained_onHeap _).bind fun _ => ih

/-- A literal lets out what its meaning is refused with. -/
theorem contained_literal (id : NodeId) {meaning : Unit → Except Fault Product}
    (h : FailsPlainly (meaning ())) : (literal id meaning).Contained config := by
  refine (contained_look _).bind fun known => ?_
  cases known with
  | some v => exact contained_pure v
  | none =>
    refine (contained_produce fun _ => h).bind fun v => ?_
    exact (contained_onMemo _).bind fun _ => contained_pure v

theorem contained_listOf (id : NodeId) : (listOf id).Contained config := by
  refine (contained_look _).bind fun known => ?_
  cases known with
  | some r => exact contained_pure r
  | none =>
    refine (contained_onHeap _).bind fun r => ?_
    exact (contained_onMemo _).bind fun _ => contained_pure r

/-! ### Calls -/

/-- Whatever the fault, only strict rules let it out of a call. -/
theorem contained_contain (f : Fault) : (contain config f).Contained config := by
  unfold contain
  by_cases hstrict : config.strict = true
  · rw [if_pos hstrict]
    exact contained_fail fun _ => hstrict
  · rw [if_neg hstrict]
    exact contained_pure _

/-- Behind a body whatever it lets out is contained, or the rules are strict. -/
theorem contained_finishCall (body : Eval Unit) : (finishCall config body).Contained config := by
  intro s f t h
  unfold finishCall at h
  split at h
  · cases h
  · cases h
  · exact contained_contain _ _ f t h
  · exact contained_contain _ _ f t h
  · cases h

/-- A call takes up every fault of the body, so nothing has to be known of the body. -/
theorem contained_callClosure (c : Closure) (args : List Value) :
    (w.callClosure config c args).Contained config := by
  refine (contained_look _).bind fun depth => ?_
  split
  · exact contained_contain _
  · exact (contained_onFrames _).bind fun scope => contained_finishCall _

/-- A call lets out only that its arguments are too many or too few, or what a native function
says. -/
theorem contained_call (hhost : config.host.FailsPlainly) (f : Callable) (args : List Value) :
    (w.call config f args).Contained config := by
  unfold call
  split
  · cases f with
    | native op => exact contained_tryWorld (op.failsPlainly_invoke args)
    | host f => exact contained_tryWorld (hhost f args)
    | closure c => exact contained_callClosure c args
  · exact contained_fail nofun

/-- To call what is no function is a complaint about its type. -/
theorem contained_asFunction (v : Value) : (asFunction v).Contained config := by
  unfold asFunction
  split
  · exact contained_pure _
  · -- Which complaint it is depends on what is seen, so `bind` would ask about every fault.
    intro s f t h
    change Outcome.unwound (.fault (s.world.heap.unexpected "<fn>" _)) s = _ at h
    cases h
    exact nofun

/-! ### Loops -/

/-- A loop lets out what its body lets out, save for jumps. -/
theorem contained_goesOn {body : Eval Unit} (h : body.Contained config) :
    (goesOn body).Contained config := by
  intro s f t hs
  unfold goesOn at hs
  split at hs
  · cases hs
  · cases hs
  · cases hs
  · rename_i hbody
    cases hs
    exact h _ f _ hbody
  · cases hs

/-- Rounds let out what a round lets out. -/
theorem contained_repeated {round : Eval Bool} (h : round.Contained config) (n : Nat) :
    (repeated round n).Contained config := by
  induction n with
  | zero => exact contained_exhausted
  | succ n ih =>
    rw [repeated_succ]
    refine h.bind fun more => ?_
    split
    · exact ih
    · exact contained_pure ()

/-- A loop lets out what its test, its body and its step let out. -/
theorem contained_loop (hw : w.Contained config) {step : Eval Unit} (hstep : step.Contained config)
    (test : Expr) (body : Stmt) (n : Nat) :
    (repeated (w.round test step body) n).Contained config := by
  refine contained_repeated ((hw.eval test).bind fun v => ?_) n
  split
  · refine (contained_goesOn (hw.exec body)).bind fun more => ?_
    split
    · exact hstep.bind fun _ => contained_pure true
    · exact contained_pure false
  · exact contained_pure false

/-! ### Nodes -/

/-- By cases on the expression: its parts let nothing out, nor does what is done with their
values. -/
theorem contained_evaluate (hhost : config.host.FailsPlainly) (hw : w.Contained config) (e : Expr) :
    (w.evaluate config e).Contained config := by
  unfold evaluate
  cases e with
  | int span id raw => exact contained_literal id ((Literal.failsPlainly_int raw).map _)
  | float span id raw => exact contained_literal id ((Literal.failsPlainly_float raw).map _)
  | string span id raw => exact contained_literal id ((Literal.failsPlainly_text raw).map _)
  | bool span b => exact contained_pure _
  | null span => exact contained_pure _
  | list span id items =>
    refine (contained_listOf id).bind fun r => (contained_onHeap _).bind fun _ => ?_
    exact (contained_pushAll hw r items).bind fun _ => contained_pure _
  | object span members =>
    refine (contained_onHeap _).bind fun r => ?_
    exact (contained_addAll hw r members).bind fun _ => contained_pure _
  | name span x =>
    intro s f t h
    exact contained_ofExcept (s.frames.failsPlainly_read s.scope x) s f t h
  | property span target x =>
    refine (hw.eval target).bind fun v => (contained_look _).bind fun p => ?_
    cases p with
    | some p => exact contained_pure p
    | none => exact contained_fail nofun
  | call span callee args =>
    refine (hw.eval callee).bind fun v => (contained_asFunction v).bind fun f => ?_
    exact (contained_evalAll hw args).bind fun values => contained_call hhost f values
  | lambda span decl => exact (contained_look _).bind fun scope => contained_onHeap _
  | binary span op left right =>
    refine (hw.eval left).bind fun a => (hw.eval right).bind fun b => ?_
    exact contained_produce fun h => Operator.failsPlainly_binary h op a b
  | unary span op operand =>
    refine (hw.eval operand).bind fun a => ?_
    exact contained_produce fun h => Operator.failsPlainly_unary h op a
  | logical span op left right =>
    refine (hw.eval left).bind fun a => ?_
    have choice : ∀ decided : Bool,
        (if decided then pure a else w.eval right).Contained config := by
      intro decided
      split
      · exact contained_pure a
      · exact hw.eval right
    cases op <;> exact choice _
  | coalesce span left right =>
    refine (hw.eval left).bind fun a => ?_
    split
    · exact hw.eval right
    · exact contained_pure a

/-- That a function exists already is a fault of its own. -/
theorem contained_noteDefinition (id : NodeId) (name : String) :
    (noteDefinition id name).Contained config := by
  refine (contained_look _).bind fun known => ?_
  split
  · exact contained_pure ()
  · refine (contained_look _).bind fun taken => ?_
    split
    · exact contained_fail nofun
    · exact contained_onMemo _

/-- A block lets out what its statements let out. -/
theorem contained_execBlock (hw : w.Contained config) (b : Block) :
    (w.execBlock b).Contained config := by
  refine (contained_look _).bind fun here => (contained_onFrames _).bind fun scope => ?_
  exact (contained_execAll hw b.stmts).within _ _

/-- By cases on the statement, as for expressions. -/
theorem contained_execute (hw : w.Contained config) (t : Stmt) :
    (w.execute t).Contained config := by
  cases t with
  | expr e => exact (hw.eval e).bind fun v => contained_pure ()
  | assign span x e =>
    refine (contained_look _).bind fun target => ?_
    exact (hw.eval e).bind fun v => contained_define _ _ _
  | assignProperty span target x e =>
    refine (hw.eval target).bind fun o => (hw.eval e).bind fun v => ?_
    exact contained_tryWorld fun world => world.heap.failsPlainly_setProperty o x.name v
  | define span id x decl =>
    refine (contained_noteDefinition id x.name).bind fun _ => ?_
    refine (contained_look _).bind fun scope => (contained_onHeap _).bind fun f => ?_
    exact contained_define _ _ _
  | cond span test yes no =>
    refine (hw.eval test).bind fun v => ?_
    split
    · exact hw.exec yes
    · cases no with
      | some no => exact hw.exec no
      | none => exact contained_pure ()
  | «while» span test body => exact contained_loop hw (contained_pure ()) test body w.rounds
  | «for» span init test step body =>
    exact (hw.exec init).bind fun _ => contained_loop hw (hw.exec step) test body w.rounds
  | «break» span => exact contained_unwind rfl
  | «continue» span => exact contained_unwind rfl
  | «return» span value =>
    cases value with
    | none => exact contained_unwind rfl
    | some e => exact (hw.eval e).bind fun v => contained_unwind rfl
  | write span e => exact (hw.eval e).bind fun v => contained_onWorld _
  | block b => exact contained_execBlock hw b

end Walker

/-! ## Every level -/

/-- By induction on the levels: a call inside a call is contained before it gets to the outer
one. -/
theorem contained_walker {config : Config} (hhost : config.host.FailsPlainly) (n : Nat) :
    (walker config n).Contained config := by
  induction n with
  | zero => exact ⟨fun e => Eval.contained_exhausted, fun t => Eval.contained_exhausted⟩
  | succ n ih => exact ⟨Walker.contained_evaluate hhost ih, Walker.contained_execute ih⟩

/-- So whatever is asked of an interpreter lets nothing out. -/
theorem Interpreter.Use.contained_outcome {config : Config} (hhost : config.host.FailsPlainly)
    (n : Nat) (u : Use) : Eval.Contained config (u.outcome config n) := by
  have hw := contained_walker hhost n
  cases u with
  | run p =>
    intro s f t h
    exact Walker.contained_execAll hw p.stmts s.ready f t h
  | exec stmt => exact hw.exec stmt
  | eval e => exact hw.eval e
  | call f args => exact Walker.contained_call hhost f args

/-! ## Calls under lenient rules -/

/-- How a call ends under lenient rules when its body ends so: with the value that is returned, and
with null however else the body ends. -/
def Outcome.answer : Outcome Unit → Outcome Value
  | .done _ t => .done .null t
  | .unwound (.return v) t => .done v t
  | .unwound (.jump _) t => .done .null t
  | .unwound (.fault _) t => .done .null t
  | .exhausted => .exhausted

/-- An answer is a value, unless there is no end. -/
theorem Outcome.answer_ne_unwound (r : Outcome Unit) (u : Unwind) (t : State) :
    r.answer ≠ .unwound u t := by
  cases r with
  | done a t' => exact nofun
  | unwound u' t' => cases u' <;> exact nofun
  | exhausted => exact nofun

/-- Taking up the answer does not depend on the place where this is done. -/
theorem Outcome.answer_back (s : State) (r : Outcome Unit) :
    (r.back s).answer = r.answer.back s := by
  cases r with
  | done a t => rfl
  | unwound u t => cases u <;> rfl
  | exhausted => rfl

namespace Walker

variable {w : Walker} {config : Config}

/-- Lenient rules make null of a fault. -/
theorem contain_lenient (hlenient : config.strict = false) (f : Fault) (s : State) :
    contain config f s = .done .null s := by
  unfold contain
  rw [hlenient]
  rfl

/-- So a body comes to its answer. -/
theorem finishCall_lenient (hlenient : config.strict = false) (body : Eval Unit) (s : State) :
    finishCall config body s = (body s).answer := by
  unfold finishCall
  cases body s with
  | done a t => rfl
  | unwound u t =>
    cases u with
    | «return» v => rfl
    | jump j => exact contain_lenient hlenient _ t
    | fault f => exact contain_lenient hlenient f t
  | exhausted => rfl

/-- With the right number of arguments a call is a call of the closure. -/
theorem call_closure {c : Closure} {args : List Value}
    (hcount : args.length = c.decl.params.length) :
    w.call config (.closure c) args = w.callClosure config c args :=
  if_pos hcount

/-- Under lenient rules a call that is refused yields null, and any other ends as its body lets it,
back where it began. -/
theorem callClosure_lenient (hw : w.Steady) (hlenient : config.strict = false) (c : Closure)
    (args : List Value)
    (s : State) :
    w.callClosure config c args s =
      if config.maxDepth ≤ s.depth then .done .null s
      else (w.execAll c.decl.body.stmts
        (s.entered c.scope (c.decl.params.zip args) (s.depth + 1))).answer.back s := by
  rw [callClosure_apply]
  by_cases hlimit : config.maxDepth ≤ s.depth
  · rw [if_pos hlimit, if_pos hlimit]
    exact contain_lenient hlenient _ s
  · rw [if_neg hlimit, if_neg hlimit]
    let opened := s.frames.openChild c.scope
    let inside : State :=
      { s with frames := opened.2.defineAll opened.1.frame (c.decl.params.zip args) }
    show finishCall config (Eval.counted (Eval.inScope opened.1
      (w.execAll c.decl.body.stmts))) inside = _
    rw [finishCall_lenient hlenient, (steady_execAll hw _).counted, Outcome.answer_back]
    rfl

end Walker

/-- What a function of an embedder fails with is not contained: it is no function of a script. -/
theorem Walker.call_hosted {w : Walker} {config : Config} {g : HostFunction} {args : List Value}
    {s : State} {f : Fault} (hcount : args.length = g.params.length)
    (hfails : (config.host.invoke g args s.world).1 = .error f) :
    ∃ t, w.call config (.host g) args s = .unwound (.fault f) t := by
  have hcall : w.call config (.host g) args = Eval.tryWorld (config.host.invoke g args) :=
    if_pos hcount
  refine ⟨s.inWorld (config.host.invoke g args s.world).2, ?_⟩
  rw [hcall]
  change Eval.ofExcept (config.host.invoke g args s.world).1 _ = _
  rw [hfails]
  rfl

/-- **Lenient rules contain the failures of calls.**  A call of a function of a script with the right
number of arguments does not fail, at whatever depth and however its body ends.  It yields null if it
is refused at the limit, and if its body ends in a fault, in a jump that nothing took up, or simply
ends; otherwise it yields what the body returns.  And no run, execution, evaluation or call ends in
one of the two faults that calls are to blame for, unless a function of the embedder says that it
failed so; what such a function fails with is seen (`Walker.call_hosted`). -/
theorem lenient_calls_contain_failures (d : Nat) (host : Host) (hhost : host.FailsPlainly) :
    let config : Config := ⟨false, d, host⟩
    (∀ n (c : Closure) args s, args.length = c.decl.params.length →
      let call := (walker config n).call config (.closure c) args s
      let body := (walker config n).execAll c.decl.body.stmts
        (s.entered c.scope (c.decl.params.zip args) (s.depth + 1))
      (∀ u t, call ≠ .unwound u t) ∧
      (d ≤ s.depth → call = .done .null s) ∧
      (s.depth < d →
        (∀ t, body = .done () t → call = .done .null (s.back t)) ∧
        (∀ v t, body = .unwound (.return v) t → call = .done v (s.back t)) ∧
        (∀ j t, body = .unwound (.jump j) t → call = .done .null (s.back t)) ∧
        (∀ f t, body = .unwound (.fault f) t → call = .done .null (s.back t)) ∧
        (body = .exhausted ↔ call = .exhausted))) ∧
    (∀ (u : Interpreter.Use) n s f t, u.outcome config n s = .unwound (.fault f) t →
      (∀ limit, f ≠ .callDepthExceeded limit) ∧ ∀ j, f ≠ .jumpOutsideLoop j) := by
  intro config
  constructor
  · intro n c args s hcount call body
    have hcall : call = if d ≤ s.depth then .done .null s else body.answer.back s := by
      show (walker config n).call config (.closure c) args s = _
      rw [Walker.call_closure hcount]
      exact Walker.callClosure_lenient (steady_walker config n) rfl c args s
    refine ⟨fun u t h => ?_, fun hlimit => ?_, fun hlimit => ?_⟩
    · rw [hcall] at h
      split at h
      · cases h
      · rw [← Outcome.answer_back] at h
        exact Outcome.answer_ne_unwound _ u t h
    · rw [hcall, if_pos hlimit]
    · rw [if_neg (Nat.not_le.2 hlimit)] at hcall
      refine ⟨?_, ?_, ?_, ?_, ?_⟩
      · intro t hbody
        rw [hcall, hbody]
        rfl
      · intro v t hbody
        rw [hcall, hbody]
        rfl
      · intro j t hbody
        rw [hcall, hbody]
        rfl
      · intro f t hbody
        rw [hcall, hbody]
        rfl
      · rw [hcall]
        cases body with
        | done a t => exact iff_of_false nofun nofun
        | unwound u t => cases u <;> exact iff_of_false nofun nofun
        | exhausted => exact iff_of_true rfl rfl
  · intro u n s f t h
    have hout : config.LetsOut f := u.contained_outcome hhost n s f t h
    have hplain : ¬ f.OfCall := fun hcall => Bool.false_ne_true (hout hcall)
    constructor
    · rintro limit rfl
      exact hplain trivial
    · rintro j rfl
      exact hplain trivial

/-- The function `fn(x) { if (x) break; nope; }`: its body ends in a jump or in a fault. -/
def straying : Closure where
  id := 0
  name := ""
  scope := default
  decl :=
    { params := ["x"]
      body :=
        { stmts :=
            [.cond default (.name default "x") (.break default) none,
              .expr (.name default "nope")]
          span := default } }

/-- A global frame that binds the function `fail` of the sampler. -/
def besideFail : State where
  world := {}
  frames := ⟨#[⟨[("fail", .function (.host Sampler.fail))]⟩]⟩
  memo := {}
  scope := ⟨⟨0⟩, []⟩
  globals := ⟨⟨0⟩, []⟩
  depth := 0

/-- Under lenient rules `straying` yields null: it is refused at the limit, it is left by the jump,
and it fails.  The fault that `fail(true)` ends in is seen. -/
theorem straying_contained :
    let config (d : Nat) : Config := ⟨false, d, .sampler⟩
    let call (d : Nat) (x : Value) := (walker (config d) 3).call (config d) (.closure straying) [x]
    let use := Interpreter.Use.eval (.call default (.name default "fail") [.bool default true])
    let s : State := default
    call 0 .null s = .done .null s ∧
      (∃ t, call 1 (.bool true) s = .done .null t) ∧ (∃ t, call 1 .null s = .done .null t) ∧
      ∃ f t, use.outcome (config 1) 3 besideFail = .unwound (.fault f) t ∧
        (∀ limit, f ≠ .callDepthExceeded limit) ∧ ∀ j, f ≠ .jumpOutsideLoop j := by
  intro config call use s
  have hhost := Host.sampler_failsPlainly
  have hrefused := ((lenient_calls_contain_failures 0 .sampler hhost).1 3 straying [.null] s rfl).2.1
  have hcalls := lenient_calls_contain_failures 1 .sampler hhost
  have hjump := (hcalls.1 3 straying [.bool true] s rfl).2.2
  have hfault := (hcalls.1 3 straying [.null] s rfl).2.2
  have hbelow : s.depth < 1 := Nat.one_pos
  obtain ⟨f, t, huse⟩ : ∃ f t, use.outcome (config 1) 3 besideFail = .unwound (.fault f) t :=
    ⟨_, _, rfl⟩
  refine ⟨hrefused (Nat.le_refl 0), ?_, ?_, f, t, huse, ?_⟩
  · exact ⟨_, (hjump hbelow).2.2.1 .break _ rfl⟩
  · exact ⟨_, (hfault hbelow).2.2.2.1 (.undefinedVariable "nope") _ rfl⟩
  · exact hcalls.2 use 3 besideFail f t huse

end SmallScript
