/-
  The limit of the call depth is only a limit.

  With a greater limit a run ends as before, unless it was the limit that ended it.  Under strict
  rules that shows in its outcome, a fault that nothing holds up: so the run with the greater limit
  extends the other (`Config.Loosens`).

  Under lenient rules a refused call yields null, and nothing of it need be left in the outcome.
  What counts is that no call was refused anywhere in the run (`Interpreter.Use.Refused`).  Then at
  each level the limits make no difference to the task at hand, and none to the parts it asks about;
  the answers about all other parts do not matter.
-/
import SmallScript.Proofs.Evaluation.Occurrence
import SmallScript.Proofs.Evaluation.Refinement

namespace SmallScript

/-! ## Refused calls -/

namespace Walker

open Eval

/-- The function and the arguments of a call. -/
def called (w : Walker) (callee : Expr) (args : List Expr) : Eval (Callable × List Value) := do
  let f ← asFunction (← w.eval callee)
  let values ← w.evalAll args
  pure (f, values)

theorem evaluate_call (w : Walker) (c : Config) (span : Span) (callee : Expr) (args : List Expr) :
    w.evaluate c (.call span callee args) =
      w.called callee args >>= fun r => w.call c r.1 r.2 := by
  simp only [evaluate, called, bind_assoc, pure_bind]

theorem scripted_called (callee : Expr) (args : List Expr) (s : State) :
    Scripted Outcome.Untold (fun _ _ => True) (fun w => w.called callee args) s := by
  have hR := own_anyhow
  refine (scripted_eval hR callee s).bind hR.trans fun a t => ?_
  refine Scripted.bind hR.trans (scripted_keeps (hR.keeps_asFunction a) t) fun f u => ?_
  exact (scripted_evalAll hR args u).bind hR.trans fun values => scripted_keeps (hR.keeps_pure _)

/-- A function of a script is called with the right number of arguments where no further one may be
executed. -/
def RefusesCall (c : Config) (s : State) : Callable → List Value → Prop
  | .native _, _ | .host _, _ => False
  | .closure f, args => args.length = (Callable.closure f).arity ∧ c.maxDepth ≤ s.depth

/-- In doing a task a call is refused, and not only in doing a part of it. -/
def Refuses (w : Walker) (c : Config) : Task → State → Prop
  | .call f args, s => RefusesCall c s f args
  | .part (.expr (.call _ callee args)), s =>
    ∃ f values t, w.called callee args s = .done (f, values) t ∧ RefusesCall c t f values
  | _, _ => False

/-! ### Without them -/

variable {v w : Walker} {c c' : Config} {q : Task} {s : State}

theorem finishCall_of_strict (hstrict : c'.strict = c.strict) (body : Eval Unit) :
    finishCall c' body = finishCall c body := by
  have hcontain : ∀ f, contain c' f = contain c f := by
    intro f
    unfold contain
    rw [hstrict]
  funext s
  unfold finishCall
  simp only [hcontain]

/-- A call that is not refused is the same with a greater limit. -/
theorem call_of_unrefused (hstrict : c'.strict = c.strict) (hlimit : c.maxDepth ≤ c'.maxDepth)
    (hhost : c'.host = c.host)
    {f : Callable} {args : List Value} (h : ¬ RefusesCall c s f args) :
    w.call c' f args s = w.call c f args s := by
  unfold call
  split
  · rename_i harity
    cases f with
    | native op => rfl
    | host f => rw [hhost]
    | closure f =>
      have hdepth : ¬ c.maxDepth ≤ s.depth := fun hle => h ⟨harity, hle⟩
      have hdepth' : ¬ c'.maxDepth ≤ s.depth := by omega
      show w.callClosure c' f args s = w.callClosure c f args s
      rw [callClosure_apply, callClosure_apply, if_neg hdepth, if_neg hdepth']
      simp only [finishCall_of_strict hstrict]
  · rfl

/-- A task in which no call is refused is the same with a greater limit. -/
theorem perform_of_unrefused (hstrict : c'.strict = c.strict) (hlimit : c.maxDepth ≤ c'.maxDepth)
    (hhost : c'.host = c.host)
    (h : ¬ w.Refuses c q s) : w.perform c' q s = w.perform c q s := by
  cases q with
  | call f args => exact call_of_unrefused hstrict hlimit hhost h
  | part p =>
    cases p with
    | stmt t => rfl
    | expr e =>
      cases e with
      | call span callee args =>
        show w.evaluate c' (.call span callee args) s = w.evaluate c (.call span callee args) s
        rw [evaluate_call, evaluate_call]
        show Eval.bind _ _ s = Eval.bind _ _ s
        unfold Eval.bind
        cases hcalled : w.called callee args s with
        | done r t =>
          have hcall : ¬ RefusesCall c t r.1 r.2 := fun hrefused => h ⟨r.1, r.2, t, hcalled, hrefused⟩
          exact call_of_unrefused hstrict hlimit hhost hcall
        | unwound u t => rfl
        | exhausted => rfl
      | _ => rfl

/-- Walkers that agree on the parts that a task asks about refuse the same calls in it. -/
theorem refuses_of_asked (hrounds : v.rounds = w.rounds)
    (hagree : ∀ p s', w.Asks c q s p s' → v.ask p s' = w.ask p s') (h : v.Refuses c q s) :
    w.Refuses c q s := by
  cases q with
  | call f args => exact h
  | part p =>
    cases p with
    | stmt t => exact h
    | expr e =>
      cases e with
      | call span callee args =>
        obtain ⟨f, values, t, hcalled, hrefused⟩ := h
        have hscript := scripted_called callee args s
        have hsame : v.called callee args s = w.called callee args s := by
          apply hscript.agree hrounds
          intro p s' hasked
          apply hagree p s'
          rw [asks_iff]
          show Asked (fun w => w.evaluate c (.call span callee args)) w s p s'
          simp only [evaluate_call]
          exact hscript.asked_bind hasked
        exact ⟨f, values, t, hsame ▸ hcalled, hrefused⟩
      | _ => exact h

/-- A call is refused only where all function bodies are open that may be. -/
theorem Refuses.depth (hw : w.Steady) (h : w.Refuses c q s) : c.maxDepth ≤ s.depth := by
  have of_call : ∀ f args t, RefusesCall c t f args → c.maxDepth ≤ t.depth := by
    intro f args t hrefused
    cases f with
    | native op => exact hrefused.elim
    | host f => exact hrefused.elim
    | closure f => exact hrefused.2
  cases q with
  | call f args => exact of_call f args s h
  | part p =>
    cases p with
    | stmt t => exact h.elim
    | expr e =>
      cases e with
      | call span callee args =>
        obtain ⟨f, values, t, hcalled, hrefused⟩ := h
        have halike : Alike s.depth (w.called callee args) (w.called callee args) := by
          refine (hw (.expr callee)).bind fun a => (alike_asFunction a).bind fun f => ?_
          exact (alike_evalAll (fun e => (hw (.expr e)).alike) args).bind fun values =>
            (steady_pure _).alike
        have hback : s.Back t := (halike s rfl).2 t (congrArg Outcome.state? hcalled)
        rw [← hback.depth]
        exact of_call f values t hrefused
      | _ => exact h.elim

end Walker

/-- In doing a task no call is refused. -/
def Occurrence.Unrefused (c : Config) (a : Occurrence) : Prop :=
  ∀ b, Occurs c a b → ¬ (walker c b.levels).Refuses c b.task b.state

/-- **A task in which no call is refused ends with a greater limit as before.** -/
theorem outcome_of_unrefused {c c' : Config} (hstrict : c'.strict = c.strict)
    (hlimit : c.maxDepth ≤ c'.maxDepth) (hhost : c'.host = c.host) {a : Occurrence}
    (hunrefused : a.Unrefused c) (hended : a.outcome c ≠ .exhausted) : a.outcome c' = a.outcome c := by
  obtain ⟨n, q, s⟩ := a
  induction n generalizing q s with
  | zero =>
    have hempty : walker c' 0 = walker c 0 := rfl
    show (walker c' 0).perform c' q s = (walker c 0).perform c q s
    rw [hempty]
    exact Walker.perform_of_unrefused hstrict hlimit hhost (hunrefused _ (.here _))
  | succ n ih =>
    -- The parts that are asked about end as before; so the task refuses no call, and is the same.
    change (walker c (n + 1)).perform c q s ≠ .exhausted at hended
    have hagree : ∀ p s', (walker c (n + 1)).Asks c q s p s' →
        (walker c' (n + 1)).ask p s' = (walker c (n + 1)).ask p s' := by
      intro p s' hasks
      have hpart : (walker c (n + 1)).ask p s' ≠ .exhausted :=
        fun hnone => hended (hasks.exhausted hnone)
      rw [walker_ask] at hpart
      rw [walker_ask, walker_ask]
      exact ih (.part p) s' (fun b hb => hunrefused b (.inside hasks hb)) hpart
    have hrounds : (walker c' (n + 1)).rounds = (walker c (n + 1)).rounds := by
      rw [walker_rounds, walker_rounds]
    have hrefuses : ¬ (walker c' (n + 1)).Refuses c q s :=
      fun h => hunrefused _ (.here _) (Walker.refuses_of_asked hrounds hagree h)
    show (walker c' (n + 1)).perform c' q s = (walker c (n + 1)).perform c q s
    rw [Walker.perform_of_unrefused hstrict hlimit hhost hrefuses]
    exact Walker.perform_of_asked hrounds hagree

/-! ## Uses -/

namespace Interpreter

/-- In a use from `s`, given some number of levels, a call is refused. -/
def Use.Refused (c : Config) (n : Nat) (u : Use) (s : State) : Prop :=
  ∃ b, OccursIn c (u.course c n s) b ∧ (SmallScript.walker c b.levels).Refuses c b.task b.state

section Unrefused

variable {c c' : Config} {n : Nat} (hstrict : c'.strict = c.strict)
  (hlimit : c.maxDepth ≤ c'.maxDepth) (hhost : c'.host = c.host)

include hstrict hlimit hhost

theorem execAll_of_unrefused (ts : List Stmt) : ∀ s,
    (∀ a ∈ statements c n ts s, a.Unrefused c) →
    (SmallScript.walker c (n + 1)).execAll ts s ≠ .exhausted →
    (SmallScript.walker c' (n + 1)).execAll ts s = (SmallScript.walker c (n + 1)).execAll ts s := by
  induction ts with
  | nil =>
    intro s _ _
    rw [execAll_nil, execAll_nil]
  | cons t ts ih =>
    intro s hunrefused hended
    let a : Occurrence := ⟨n, .part (.stmt t), s⟩
    rw [execAll_cons] at hended
    rw [execAll_cons, execAll_cons]
    unfold statements at hunrefused
    have hsame : ∀ r, (SmallScript.walker c (n + 1)).exec t s = r → a.Unrefused c →
        r ≠ .exhausted → (SmallScript.walker c' (n + 1)).exec t s = r := by
      rintro r rfl ha hr
      exact outcome_of_unrefused hstrict hlimit hhost ha hr
    cases hr : (SmallScript.walker c (n + 1)).exec t s with
    | done x s' =>
      rw [hr] at hended hunrefused
      have ha : a.Unrefused c := hunrefused a List.mem_cons_self
      rw [hsame _ hr ha (by rintro ⟨⟩)]
      exact ih s' (fun b hb => hunrefused b (List.mem_cons_of_mem _ hb)) hended
    | unwound u s' =>
      rw [hr] at hunrefused
      have ha : a.Unrefused c := hunrefused a List.mem_cons_self
      rw [hsame _ hr ha (by rintro ⟨⟩)]
    | exhausted =>
      rw [hr] at hended
      exact absurd rfl hended

/-- Without a refused call a use ends with a greater limit as before. -/
theorem Use.outcome_of_unrefused {u : Use} {s : State} (h : ¬ u.Refused c n s)
    (hended : u.outcome c n s ≠ .exhausted) : u.outcome c' n s = u.outcome c n s := by
  have hunrefused : ∀ a ∈ u.course c n s, a.Unrefused c :=
    fun a ha b hb hrefuses => h ⟨b, ⟨a, ha, hb⟩, hrefuses⟩
  have of_task : ∀ a : Occurrence, u.course c n s = [a] → a.outcome c ≠ .exhausted →
      a.outcome c' = a.outcome c := by
    intro a hcourse
    refine SmallScript.outcome_of_unrefused hstrict hlimit hhost (hunrefused a ?_)
    rw [hcourse]
    exact List.mem_singleton_self a
  cases u with
  | call f args => exact of_task ⟨n, .call f args, s⟩ (by cases n <;> rfl) hended
  | run p =>
    cases n with
    | zero =>
      have hempty : SmallScript.walker c' 0 = SmallScript.walker c 0 := rfl
      show (SmallScript.walker c' 0).execAll p.stmts s.ready = _
      rw [hempty]
      rfl
    | succ n => exact execAll_of_unrefused hstrict hlimit hhost p.stmts s.ready hunrefused hended
  | exec t =>
    cases n with
    | zero => exact absurd rfl hended
    | succ n => exact of_task ⟨n, .part (.stmt t), s⟩ rfl hended
  | eval e =>
    cases n with
    | zero => exact absurd rfl hended
    | succ n => exact of_task ⟨n, .part (.expr e), s⟩ rfl hended

end Unrefused

/-- The statements of a program are all executed at one depth. -/
theorem depth_statements (c : Config) (n : Nat) (ts : List Stmt) : ∀ s, ∀ a ∈ statements c n ts s,
    a.levels = n ∧ a.state.depth = s.depth := by
  induction ts with
  | nil => exact fun s a ha => nomatch ha
  | cons t ts ih =>
    intro s a ha
    unfold statements at ha
    cases hr : (SmallScript.walker c (n + 1)).exec t s with
    | done x s' =>
      rw [hr] at ha
      have hback := steady_walker c (n + 1) (.stmt t) s s' (congrArg Outcome.state? hr)
      rcases List.mem_cons.1 ha with rfl | ha
      · exact ⟨rfl, rfl⟩
      · obtain ⟨hlevels, hdepth⟩ := ih s' a ha
        exact ⟨hlevels, hdepth.trans hback.depth⟩
    | _ =>
      rw [hr] at ha
      rw [List.mem_singleton.1 ha]
      exact ⟨rfl, rfl⟩

theorem Use.depth_course {c : Config} {n : Nat} {u : Use} {s : State} {a : Occurrence}
    (ha : a ∈ u.course c n s) : a.levels ≤ n ∧ a.state.depth ≤ s.depth := by
  have of_task : ∀ {b : Occurrence}, a ∈ [b] → b.levels ≤ n → b.state = s →
      a.levels ≤ n ∧ a.state.depth ≤ s.depth := by
    rintro b hb hn rfl
    rw [List.mem_singleton.1 hb]
    exact ⟨hn, Nat.le_refl _⟩
  cases n with
  | zero =>
    cases u with
    | call f args => exact of_task ha (Nat.le_refl 0) rfl
    | _ => cases ha
  | succ n =>
    cases u with
    | call f args => exact of_task ha (Nat.le_refl _) rfl
    | exec t => exact of_task ha (Nat.le_succ n) rfl
    | eval e => exact of_task ha (Nat.le_succ n) rfl
    | run p =>
      obtain ⟨hlevels, hdepth⟩ := depth_statements c n p.stmts s.ready a ha
      rw [hlevels, hdepth]
      exact ⟨Nat.le_succ n, Nat.zero_le _⟩

/-- With fewer levels than function bodies that may be opened no call is refused. -/
theorem Use.unrefused_of_levels {c : Config} {n : Nat} {u : Use} {s : State}
    (hlow : s.depth + n < c.maxDepth) : ¬ u.Refused c n s := by
  rintro ⟨b, ⟨a, ha, hab⟩, hrefuses⟩
  obtain ⟨hlevels, hdepth⟩ := Use.depth_course ha
  -- On the way to the refused call each body that was opened took a level.
  obtain ⟨k, hpasses, hk⟩ := hab.passes
  have hb : b.state.depth = a.state.depth + k := (hpasses.depth (by omega)).1
  have hhigh : c.maxDepth ≤ b.state.depth := hrefuses.depth (steady_walker c b.levels)
  omega

/-- Walkers that extend each other do so in every use. -/
theorem Use.extends_outcome {B : Fault → Prop} {R : World → World → Prop} {c c' : Config}
    (hR : World.Onward c'.host R) (hc : c.Loosens B c') {n n' : Nat} (hn : n ≤ n') (u : Use)
    (s : State) :
    (u.outcome c n s).Extends B R (u.outcome c' n' s) := by
  have hwalkers := extends_walker hR hc n n' hn
  cases u with
  | run p => exact (hwalkers.execAll hR p.stmts).outcome s.ready
  | exec t => exact (hwalkers.exec t).outcome s
  | eval e => exact (hwalkers.eval e).outcome s
  | call f args => exact (hwalkers.call hR hc f args).outcome s

end Interpreter

theorem World.onward_anyhow (host : Host) : World.Onward host fun _ _ => True := by
  constructor <;> intros <;> trivial

/-- Strict rules with one limit of the call depth, and with a greater one: what the first breaks off
at its limit goes on under the others. -/
theorem Config.Loosens.greater {d d' : Nat} (hd : d ≤ d') (host : Host) :
    Config.Loosens (· = .callDepthExceeded d) ⟨true, d, host⟩ ⟨true, d', host⟩ := by
  refine ⟨fun _ => rfl, Or.inl rfl, ?_, rfl⟩
  rcases Nat.eq_or_lt_of_le hd with heq | hlt
  · exact Or.inl heq.symm
  · exact Or.inr ⟨hlt, rfl⟩

/-- **The limit of the call depth is only a limit.**  From the same state, a use of an interpreter
that ends with the limit `d` ends with a greater one in the same way and in the same state: under
strict rules if it does not end with the fault that the limit is for, under lenient ones if no call
is refused in it. -/
theorem limit_only_limits {d d' : Nat} (hd : d ≤ d') (host : Host) (s : State) :
    let strict : Config := ⟨true, d, host⟩
    let lenient : Config := ⟨false, d, host⟩
    (∀ (u : Interpreter.Use) n n', n ≤ n' → u.outcome strict n s ≠ .exhausted →
      (∀ t, u.outcome strict n s ≠ .unwound (.fault (.callDepthExceeded d)) t) →
      u.outcome ⟨true, d', host⟩ n' s = u.outcome strict n s) ∧
    (∀ (u : Interpreter.Use) n n', n ≤ n' → u.outcome lenient n s ≠ .exhausted →
      ¬ u.Refused lenient n s → u.outcome ⟨false, d', host⟩ n' s = u.outcome lenient n s) ∧
    (∀ p, Interpreter.run strict p s ≠ .exhausted →
      (∀ t, Interpreter.run strict p s ≠ .unwound (.fault (.callDepthExceeded d)) t) →
      Interpreter.run ⟨true, d', host⟩ p s = Interpreter.run strict p s) ∧
    (∀ p, Interpreter.run lenient p s ≠ .exhausted →
      ¬ (Interpreter.Use.run p).Refused lenient Interpreter.levels s →
      Interpreter.run ⟨false, d', host⟩ p s = Interpreter.run lenient p s) := by
  intro strict lenient
  have hR := World.onward_anyhow host
  have hstrict : ∀ (u : Interpreter.Use) n n', n ≤ n' → u.outcome strict n s ≠ .exhausted →
      (∀ t, u.outcome strict n s ≠ .unwound (.fault (.callDepthExceeded d)) t) →
      u.outcome ⟨true, d', host⟩ n' s = u.outcome strict n s := by
    intro u n n' hn hended hlimit
    have hextends := u.extends_outcome hR (Config.Loosens.greater hd host) hn s
    refine hextends.eq_of_ended hended ?_
    rintro f t rfl
    exact hlimit t
  have hlenient : ∀ (u : Interpreter.Use) n n', n ≤ n' → u.outcome lenient n s ≠ .exhausted →
      ¬ u.Refused lenient n s → u.outcome ⟨false, d', host⟩ n' s = u.outcome lenient n s := by
    intro u n n' hn hended hunrefused
    -- First the limit is raised at the same number of levels, and then there are more levels.
    have hsame : u.outcome ⟨false, d', host⟩ n s = u.outcome lenient n s := by
      have hstrict : (⟨false, d', host⟩ : Config).strict = lenient.strict := rfl
      exact Interpreter.Use.outcome_of_unrefused hstrict hd rfl hunrefused hended
    have hmore := u.extends_outcome hR (.same ⟨false, d', host⟩) hn s
    have hended' : u.outcome ⟨false, d', host⟩ n s ≠ .exhausted := by rwa [hsame]
    rw [← hsame]
    exact hmore.eq_of_unbroken hended'
  have hlevels := Nat.le_refl Interpreter.levels
  constructor
  · exact hstrict
  constructor
  · exact hlenient
  constructor
  · intro p
    rw [← Interpreter.Use.outcome_run, ← Interpreter.Use.outcome_run]
    exact hstrict (.run p) Interpreter.levels Interpreter.levels hlevels
  · intro p
    rw [← Interpreter.Use.outcome_run, ← Interpreter.Use.outcome_run]
    exact hlenient (.run p) Interpreter.levels Interpreter.levels hlevels

/-- Under strict rules `tripping` ends with another fault than that of the limit, and under lenient
rules no call is refused in it: so it ends with the limit 7 as with the limit 6. -/
theorem limits_of_tripping :
    let s := State.start [] {} {}
    let u := Interpreter.Use.run tripping
    (∃ f t, f ≠ .callDepthExceeded 6 ∧ u.outcome ⟨true, 6, .bare⟩ 5 s = .unwound (.fault f) t ∧
      u.outcome ⟨true, 7, .bare⟩ 5 s = .unwound (.fault f) t) ∧
    (∃ t, ¬ u.Refused ⟨false, 6, .bare⟩ 5 s ∧ u.outcome ⟨false, 6, .bare⟩ 5 s = .done () t ∧
      u.outcome ⟨false, 7, .bare⟩ 5 s = .done () t) := by
  intro s u
  have hd : 6 ≤ 7 := by decide
  have hlevels : 5 ≤ 5 := Nat.le_refl 5
  constructor
  · obtain ⟨f, t, hf, hends⟩ : ∃ f t, f ≠ .callDepthExceeded 6 ∧
        u.outcome ⟨true, 6, .bare⟩ 5 s = .unwound (.fault f) t :=
      ⟨_, _, by rintro ⟨⟩, rfl⟩
    have hended : u.outcome ⟨true, 6, .bare⟩ 5 s ≠ .exhausted := by
      rw [hends]
      rintro ⟨⟩
    have hother : ∀ t, u.outcome ⟨true, 6, .bare⟩ 5 s ≠ .unwound (.fault (.callDepthExceeded 6)) t := by
      intro t' heq
      rw [hends] at heq
      cases heq
      exact hf rfl
    have hsame := (limit_only_limits hd .bare s).1 u 5 5 hlevels hended hother
    exact ⟨f, t, hf, hends, hsame.trans hends⟩
  · obtain ⟨t, hends⟩ : ∃ t, u.outcome ⟨false, 6, .bare⟩ 5 s = .done () t := ⟨_, rfl⟩
    have hended : u.outcome ⟨false, 6, .bare⟩ 5 s ≠ .exhausted := by
      rw [hends]
      rintro ⟨⟩
    have hunrefused : ¬ u.Refused ⟨false, 6, .bare⟩ 5 s :=
      Interpreter.Use.unrefused_of_levels (by decide)
    have hsame := (limit_only_limits hd .bare s).2.1 u 5 5 hlevels hended hunrefused
    exact ⟨t, hunrefused, hends, hsame.trans hends⟩

end SmallScript
