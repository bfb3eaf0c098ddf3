/-
  Signals stay near the statements that give them.

  A `break`, a `continue` or a `return` leaves its statement as a signal and travels outwards until
  a loop or a call takes it up.  Which signals can leave a statement is told by its text alone:
  `Stmt.Gives` looks for the statement that gives the signal, outside every function and, for a
  jump, outside every loop body.  No expression and no call lets a signal out at all.

  1. `Eval.GivesOnly`: the signals that a step may end with are among some chosen ones.  There is
     one lemma for each way of building a step.
  2. One level of a walk: a node whose parts give only what their texts tell gives only what its
     own text tells (`Walker.Disciplined`).
  3. All levels, by induction on their number, and from that whole runs.
-/
import SmallScript.Interpreter

namespace SmallScript

/-- A way to leave a statement that is not a fault. -/
inductive Signal where
  | jump (j : Jump)
  | return
deriving DecidableEq, Repr

/-- Whether a signal that leaves the body of a loop leaves the loop as well. -/
def Signal.PassesLoops (sig : Signal) : Prop := sig = .return

/-- The signal that an evaluation was left by; a fault is none. -/
def Unwind.signal? : Unwind → Option Signal
  | .return _ => some .return
  | .jump j => some (.jump j)
  | .fault _ => none

/-- What ends without a signal and without a value is a fault. -/
theorem Unwind.eq_fault {u : Unwind} (h : ∀ sig, u.signal? = some sig → False) :
    ∃ f, u = .fault f := by
  cases u with
  | «return» v => exact (h _ rfl).elim
  | jump j => exact (h _ rfl).elim
  | fault f => exact ⟨f, rfl⟩

/-- A statement has a part that gives a signal which nothing inside the statement takes up: a
`return` outside every function, or a jump that is moreover outside every loop body. -/
inductive Stmt.Gives : Stmt → Signal → Prop where
  | break (span : Span) : Gives (.break span) (.jump .break)
  | continue (span : Span) : Gives (.continue span) (.jump .continue)
  | return (span : Span) (value : Option Expr) : Gives (.return span value) .return
  | yes {sig span test yes no} : Gives yes sig → Gives (.cond span test yes no) sig
  | no {sig span test yes no} : Gives no sig → Gives (.cond span test yes (some no)) sig
  | whileBody {sig span test body} :
      sig.PassesLoops → Gives body sig → Gives (.while span test body) sig
  | init {sig span init test step body} :
      Gives init sig → Gives (.for span init test step body) sig
  | step {sig span init test step body} :
      Gives step sig → Gives (.for span init test step body) sig
  | forBody {sig span init test step body} :
      sig.PassesLoops → Gives body sig → Gives (.for span init test step body) sig
  | block {sig b t} : t ∈ b.stmts → Gives t sig → Gives (.block b) sig

/-! ## The signals of a step -/

namespace Eval

variable {α β : Type} {S T : Signal → Prop}

/-- If a step is left by a signal, it is one of those in `S`. -/
def GivesOnly (S : Signal → Prop) (m : Eval α) : Prop :=
  ∀ s u t, m s = .unwound u t → ∀ sig, u.signal? = some sig → S sig

/-- No signal at all. -/
def Silent (m : Eval α) : Prop := m.GivesOnly fun _ => False

/-- More signals may be allowed. -/
theorem GivesOnly.mono {m : Eval α} (h : m.GivesOnly S) (hST : ∀ sig, S sig → T sig) :
    m.GivesOnly T :=
  fun s u t hm sig hsig => hST sig (h s u t hm sig hsig)

/-- A step that gives none gives only those that are allowed. -/
theorem Silent.givesOnly {m : Eval α} (h : m.Silent) : m.GivesOnly S :=
  GivesOnly.mono h fun _ hsig => hsig.elim

/-- A step that is never left early gives nothing. -/
theorem Silent.of_done {m : Eval α} (h : ∀ s u t, m s ≠ .unwound u t) : m.Silent :=
  fun s u t hm => absurd hm (h s u t)

/-- What does nothing gives no signal. -/
theorem silent_pure (a : α) : (pure a : Eval α).Silent := .of_done fun _ _ _ h => nomatch h

theorem silent_exhausted : (exhausted : Eval α).Silent := .of_done fun _ _ _ h => nomatch h

theorem silent_look (f : State → α) : (look f).Silent := .of_done fun _ _ _ h => nomatch h

/-- What is done to the world gives no signal. -/
theorem silent_onWorld (f : World → α × World) : (onWorld f).Silent :=
  .of_done fun _ _ _ h => nomatch h

theorem silent_onHeap (f : Heap → α × Heap) : (onHeap f).Silent := silent_onWorld _

theorem silent_onFrames (f : Frames → α × Frames) : (onFrames f).Silent :=
  .of_done fun _ _ _ h => nomatch h

theorem silent_define (f : FrameRef) (name : String) (v : Value) : (define f name v).Silent :=
  silent_onFrames _

theorem silent_onMemo (f : Memo → Memo) : (onMemo f).Silent := .of_done fun _ _ _ h => nomatch h

/-- A fault is no signal. -/
theorem silent_fail (f : Fault) : (fail f : Eval α).Silent := by
  intro s u t h sig hsig
  cases h
  cases hsig

/-- Nor is a result, whether it is a value or a fault. -/
theorem silent_ofExcept (r : Except Fault α) : (ofExcept r).Silent := by
  cases r with
  | ok a => exact silent_pure a
  | error f => exact silent_fail f

/-- What follows a step may give what the step may give. -/
theorem GivesOnly.bind {x : Eval α} {f : α → Eval β} (hx : x.GivesOnly S)
    (hf : ∀ a, (f a).GivesOnly S) : (x >>= f).GivesOnly S := by
  intro s u t h
  change Eval.bind x f s = _ at h
  unfold Eval.bind at h
  split at h
  · exact hf _ _ _ _ h
  · rename_i hxs
    cases h
    exact hx _ _ _ hxs
  · cases h

/-- Two silent steps are silent one after the other. -/
theorem Silent.bind {x : Eval α} {f : α → Eval β} (hx : x.Silent) (hf : ∀ a, (f a).Silent) :
    (x >>= f).Silent :=
  GivesOnly.bind hx hf

/-- A step that may fail ends with a value or a fault. -/
theorem silent_tryWorld (f : World → Except Fault α × World) : (tryWorld f).Silent :=
  (silent_onWorld f).bind silent_ofExcept

theorem silent_tryHeap (f : Heap → Except Fault α × Heap) : (tryHeap f).Silent :=
  silent_tryWorld _

theorem silent_produce (result : Heap → Except Fault Product) : (produce result).Silent :=
  silent_tryWorld _

/-- What is done around a step does not change what it gives. -/
theorem GivesOnly.within {σ : Type} {m : Eval α} (h : m.GivesOnly S) (enter : State → σ × State)
    (leave : σ → State → State) : (within enter leave m).GivesOnly S := by
  intro s u t hm
  change (m (enter s).2).onState (leave (enter s).1) = _ at hm
  cases hr : m (enter s).2 with
  | unwound u' t' =>
    rw [hr] at hm
    cases hm
    exact h _ _ _ hr
  | _ =>
    rw [hr] at hm
    cases hm

end Eval

/-! ## One level of a walk -/

namespace Walker

open Eval

/-- What is asked about the nodes inside a node ends as the texts of those nodes tell. -/
structure Disciplined (w : Walker) : Prop where
  eval (e : Expr) : (w.eval e).Silent
  exec (t : Stmt) : (w.exec t).GivesOnly t.Gives

variable {w : Walker} {config : Config}

/-- Statements in a row give what one of them gives. -/
theorem givesOnly_execAll (hw : w.Disciplined) (ts : List Stmt) :
    (w.execAll ts).GivesOnly fun sig => ∃ t ∈ ts, t.Gives sig := by
  induction ts with
  | nil => exact (silent_pure ()).givesOnly
  | cons t ts ih =>
    refine GivesOnly.bind ((hw.exec t).mono fun sig h => ⟨t, List.mem_cons_self, h⟩) fun _ => ?_
    refine ih.mono fun sig h => ?_
    obtain ⟨t', ht', h⟩ := h
    exact ⟨t', List.mem_cons_of_mem t ht', h⟩

/-- Arguments give no signal if expressions do not. -/
theorem silent_evalAll (hw : w.Disciplined) (es : List Expr) : (w.evalAll es).Silent := by
  induction es with
  | nil => exact silent_pure _
  | cons e es ih => exact (hw.eval e).bind fun v => ih.bind fun vs => silent_pure _

/-- Nor do the members of an object literal. -/
theorem silent_addAll (hw : w.Disciplined) (r : ObjectRef) (ms : List Member) :
    (w.addAll r ms).Silent := by
  induction ms with
  | nil => exact silent_pure ()
  | cons m ms ih => exact (hw.eval m.value).bind fun v => (silent_tryHeap _).bind fun _ => ih

/-- Nor do the items of a list literal. -/
theorem silent_pushAll (hw : w.Disciplined) (r : ListRef) (es : List Expr) :
    (w.pushAll r es).Silent := by
  induction es with
  | nil => exact silent_pure ()
  | cons e es ih => exact (hw.eval e).bind fun v => (silent_onHeap _).bind fun _ => ih

theorem silent_literal (id : NodeId) (meaning : Unit → Except Fault Product) :
    (literal id meaning).Silent := by
  refine (silent_look _).bind fun known => ?_
  cases known with
  | some v => exact silent_pure v
  | none =>
    exact (silent_produce _).bind fun v => (silent_onMemo _).bind fun _ => silent_pure v

theorem silent_listOf (id : NodeId) : (listOf id).Silent := by
  refine (silent_look _).bind fun known => ?_
  cases known with
  | some r => exact silent_pure r
  | none => exact (silent_onHeap _).bind fun r => (silent_onMemo _).bind fun _ => silent_pure r

/-! ### Calls -/

/-- A fault is passed on, or it is made null. -/
theorem silent_contain (f : Fault) : (contain config f).Silent := by
  unfold contain
  split
  · exact silent_fail f
  · exact silent_pure _

/-- A call takes up every signal of the body: a `return` is its value, a jump becomes a fault. -/
theorem silent_finishCall (body : Eval Unit) : (finishCall config body).Silent := by
  intro s u t h
  unfold finishCall at h
  split at h
  · cases h
  · cases h
  · exact silent_contain _ _ _ _ h
  · exact silent_contain _ _ _ _ h
  · cases h

/-- Whatever a body gives, its call takes it up. -/
theorem silent_callClosure (c : Closure) (args : List Value) :
    (w.callClosure config c args).Silent := by
  refine (silent_look _).bind fun depth => ?_
  split
  · exact silent_contain _
  · exact (silent_onFrames _).bind fun scope => silent_finishCall _

/-- So calls give no signal. -/
theorem silent_call (f : Callable) (args : List Value) : (w.call config f args).Silent := by
  unfold call
  split
  · cases f with
    | native op => exact silent_tryWorld _
    | host f => exact silent_tryWorld _
    | closure c => exact silent_callClosure c args
  · exact silent_fail _

theorem silent_asFunction (v : Value) : (asFunction v).Silent := by
  unfold asFunction
  split
  · exact silent_pure _
  · exact (silent_look _).bind fun f => silent_fail f

/-! ### Loops -/

/-- A loop takes up the jumps of its body, and nothing else. -/
theorem givesOnly_goesOn {body : Eval Unit} {S : Signal → Prop} (h : body.GivesOnly S) :
    (goesOn body).GivesOnly fun sig => sig.PassesLoops ∧ S sig := by
  intro s u t hs sig hsig
  unfold goesOn at hs
  split at hs
  · cases hs
  · cases hs
  · cases hs
  · rename_i v d hcontinue hbreak hbody
    cases hs
    refine ⟨?_, h _ _ _ hbody sig hsig⟩
    -- Both jumps are among the outcomes that the loop takes up.
    cases u with
    | «return» v => exact (Option.some.inj hsig).symm
    | jump j =>
      cases j with
      | «break» => exact absurd rfl hbreak
      | «continue» => exact absurd rfl hcontinue
    | fault f => cases hsig
  · cases hs

/-- By induction on the rounds. -/
theorem givesOnly_repeated {round : Eval Bool} {S : Signal → Prop} (h : round.GivesOnly S)
    (n : Nat) : (repeated round n).GivesOnly S := by
  induction n with
  | zero => exact silent_exhausted.givesOnly
  | succ n ih =>
    rw [repeated_succ]
    refine h.bind fun more => ?_
    split
    · exact ih
    · exact (silent_pure ()).givesOnly

/-- A loop gives what its step gives, and of what its body gives that which passes loops. -/
theorem givesOnly_loop (hw : w.Disciplined) {step : Eval Unit} {S : Signal → Prop}
    (hstep : step.GivesOnly S) (test : Expr) (body : Stmt) (n : Nat) :
    (repeated (w.round test step body) n).GivesOnly fun sig =>
      S sig ∨ sig.PassesLoops ∧ body.Gives sig := by
  refine givesOnly_repeated (GivesOnly.bind (hw.eval test).givesOnly fun v => ?_) n
  split
  · refine GivesOnly.bind ((givesOnly_goesOn (hw.exec body)).mono fun sig => .inr) fun more => ?_
    split
    · exact (hstep.mono fun sig => .inl).bind fun _ => (silent_pure true).givesOnly
    · exact (silent_pure false).givesOnly
  · exact (silent_pure false).givesOnly

/-! ### Nodes -/

/-- No expression gives a signal. -/
theorem silent_evaluate (hw : w.Disciplined) (e : Expr) : (w.evaluate config e).Silent := by
  unfold evaluate
  cases e with
  | int span id raw => exact silent_literal id _
  | float span id raw => exact silent_literal id _
  | string span id raw => exact silent_literal id _
  | bool span b => exact silent_pure _
  | null span => exact silent_pure _
  | list span id items =>
    refine (silent_listOf id).bind fun r => (silent_onHeap _).bind fun _ => ?_
    exact (silent_pushAll hw r items).bind fun _ => silent_pure _
  | object span members =>
    refine (silent_onHeap _).bind fun r => ?_
    exact (silent_addAll hw r members).bind fun _ => silent_pure _
  | name span x => exact (silent_look _).bind fun r => silent_ofExcept r
  | property span target x =>
    refine (hw.eval target).bind fun v => (silent_look _).bind fun p => ?_
    cases p with
    | some p => exact silent_pure p
    | none => exact silent_fail _
  | call span callee args =>
    refine (hw.eval callee).bind fun v => (silent_asFunction v).bind fun f => ?_
    exact (silent_evalAll hw args).bind fun values => silent_call f values
  | lambda span decl => exact (silent_look _).bind fun scope => silent_onHeap _
  | binary span op left right =>
    exact (hw.eval left).bind fun a => (hw.eval right).bind fun b => silent_produce _
  | unary span op operand => exact (hw.eval operand).bind fun a => silent_produce _
  | logical span op left right =>
    refine (hw.eval left).bind fun a => ?_
    -- The operator tells only whether the right operand is evaluated.
    have choice : ∀ decided : Bool, (if decided then pure a else w.eval right).Silent := by
      intro decided
      split
      · exact silent_pure a
      · exact hw.eval right
    cases op <;> exact choice _
  | coalesce span left right =>
    refine (hw.eval left).bind fun a => ?_
    split
    · exact hw.eval right
    · exact silent_pure a

theorem silent_noteDefinition (id : NodeId) (name : String) : (noteDefinition id name).Silent := by
  refine (silent_look _).bind fun known => ?_
  split
  · exact silent_pure ()
  · refine (silent_look _).bind fun taken => ?_
    split
    · exact silent_fail _
    · exact silent_onMemo _

/-- A block gives what one of its statements gives. -/
theorem givesOnly_execBlock (hw : w.Disciplined) (b : Block) :
    (w.execBlock b).GivesOnly fun sig => ∃ t ∈ b.stmts, t.Gives sig := by
  refine (silent_look _).givesOnly.bind fun here => ?_
  refine (silent_onFrames _).givesOnly.bind fun scope => ?_
  exact (givesOnly_execAll hw b.stmts).within _ _

/-- A statement gives only what its text tells. -/
theorem givesOnly_execute (hw : w.Disciplined) (t : Stmt) :
    (w.execute t).GivesOnly t.Gives := by
  cases t with
  | expr e => exact ((hw.eval e).bind fun v => silent_pure ()).givesOnly
  | assign span x e =>
    refine ((silent_look _).bind fun target => ?_).givesOnly
    exact (hw.eval e).bind fun v => silent_define _ _ _
  | assignProperty span target x e =>
    refine ((hw.eval target).bind fun o => ?_).givesOnly
    exact (hw.eval e).bind fun v => silent_tryHeap _
  | define span id x decl =>
    refine ((silent_noteDefinition id x.name).bind fun _ => ?_).givesOnly
    refine (silent_look _).bind fun scope => (silent_onHeap _).bind fun f => ?_
    exact silent_define _ _ _
  | cond span test yes no =>
    refine (hw.eval test).givesOnly.bind fun v => ?_
    split
    · exact (hw.exec yes).mono fun sig => .yes
    · cases no with
      | some no => exact (hw.exec no).mono fun sig => .no
      | none => exact (silent_pure ()).givesOnly
  | «while» span test body =>
    refine (givesOnly_loop hw (silent_pure ()) test body w.rounds).mono fun sig h => ?_
    rcases h with h | ⟨hpass, h⟩
    · exact h.elim
    · exact .whileBody hpass h
  | «for» span init test step body =>
    refine GivesOnly.bind ((hw.exec init).mono fun sig => .init) fun _ => ?_
    refine (givesOnly_loop hw (hw.exec step) test body w.rounds).mono fun sig h => ?_
    rcases h with h | ⟨hpass, h⟩
    · exact .step h
    · exact .forBody hpass h
  | «break» span =>
    intro s u t h sig hsig
    cases h
    cases hsig
    exact .break span
  | «continue» span =>
    intro s u t h sig hsig
    cases h
    cases hsig
    exact .continue span
  | «return» span value =>
    have given : ∀ v, (Eval.unwind (.return v) : Eval Unit).GivesOnly
        (Stmt.return span value).Gives := by
      intro v s u t h sig hsig
      cases h
      cases hsig
      exact .return span value
    cases value with
    | none => exact given _
    | some e => exact (hw.eval e).givesOnly.bind given
  | write span e => exact ((hw.eval e).bind fun v => silent_onWorld _).givesOnly
  | block b =>
    refine (givesOnly_execBlock hw b).mono fun sig h => ?_
    obtain ⟨t, ht, h⟩ := h
    exact .block ht h

end Walker

/-! ## Every level -/

/-- By induction on the levels. -/
theorem disciplined_walker (config : Config) (n : Nat) : (walker config n).Disciplined := by
  induction n with
  | zero => exact ⟨fun e => Eval.silent_exhausted, fun t => Eval.silent_exhausted.givesOnly⟩
  | succ n ih => exact ⟨Walker.silent_evaluate ih, Walker.givesOnly_execute ih⟩

/-- Signals keep to the texts that give them.  Expressions and calls end with a value or a fault.
A statement ends with a jump or a return only if its text gives it, and so does a program: it
fails for a stray signal only if one of its statements gives that signal. -/
theorem signals_keep_to_text (config : Config) :
    (∀ n e s u t, (walker config n).eval e s = .unwound u t → ∃ f, u = .fault f) ∧
    (∀ n f args s u t, (walker config n).call config f args s = .unwound u t →
      ∃ f, u = .fault f) ∧
    (∀ n stmt s u t, (walker config n).exec stmt s = .unwound u t →
      (∀ j, u = .jump j → stmt.Gives (.jump j)) ∧ (∀ v, u = .return v → stmt.Gives .return)) ∧
    (∀ p s u t, Interpreter.run config p s = .unwound u t →
      (∀ j, RunFault.ofUnwind u = .jumpOutsideLoop j → ∃ stmt ∈ p.stmts, stmt.Gives (.jump j)) ∧
      (RunFault.ofUnwind u = .returnOutsideFunction → ∃ stmt ∈ p.stmts, stmt.Gives .return)) := by
  refine ⟨?_, ?_, ?_, ?_⟩
  · intro n e s u t h
    exact Unwind.eq_fault fun sig => (disciplined_walker config n).eval e s u t h sig
  · intro n f args s u t h
    exact Unwind.eq_fault fun sig => Walker.silent_call f args s u t h sig
  · intro n stmt s u t h
    have given := (disciplined_walker config n).exec stmt s u t h
    constructor
    · rintro j rfl
      exact given _ rfl
    · rintro v rfl
      exact given _ rfl
  · intro p s u t h
    have given := Walker.givesOnly_execAll (disciplined_walker config _) p.stmts s.ready u t h
    refine ⟨fun j hj => given _ ?_, fun hr => given _ ?_⟩
    · cases u with
      | jump i => cases hj; rfl
      | «return» v => cases hj
      | fault f => cases hj
    · cases u with
      | jump i => cases hr
      | «return» v => rfl
      | fault f => cases hr

/-- The program `while (true) break; if (true) break;`, whose first jump is taken up and whose second
one is not. -/
def strayBreak : Program where
  stmts :=
    [.while default (.bool default true) (.break default),
      .cond default (.bool default true) (.break default) none]
  span := default

/-- A `break` outside of loops leaves its program as a signal. -/
theorem run_strayBreak (config : Config) (s : State) :
    Interpreter.run config strayBreak s = .unwound (.jump .break) s.ready :=
  rfl

theorem strayBreak_gives :
    Interpreter.run {} strayBreak default = .unwound (.jump .break) (State.ready default) ∧
      ∃ stmt ∈ strayBreak.stmts, stmt.Gives (.jump .break) :=
  ⟨run_strayBreak {} default,
    ((signals_keep_to_text {}).2.2.2 _ _ _ _ (run_strayBreak {} default)).1 .break rfl⟩

end SmallScript
