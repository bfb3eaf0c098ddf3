/-
  What occurs in a run, and in which order.

  A task asks a walker about parts, each of them is a task that asks about parts in turn, and so on
  down the levels.  What is done on the way occurs in the task (`Occurs`), and of two things that
  occur one may be over before the other begins (`Precedes`); if neither is, one of them occurs in
  the other (`Occurs.order`).

  A use of an interpreter is one task, or several one after the other if it is a whole program
  (`Interpreter.Use.course`); so is a session (`Interpreter.course`).

  If what nodes do by themselves keeps to a relation of states (`Own`), and what is remembered does
  (`Permits`), then states are related from each moment to each later one.
-/
import SmallScript.Proofs.Evaluation.Reliance

namespace SmallScript

open Walker

theorem walker_rounds (config : Config) (n : Nat) : (walker config n).rounds = n := by
  cases n <;> rfl

/-- A task that is done from a state with some number of levels. -/
structure Occurrence where
  levels : Nat
  task : Task
  state : State

/-- How the task ends. -/
def Occurrence.outcome (config : Config) (a : Occurrence) : Outcome a.task.Result :=
  (walker config a.levels).perform config a.task a.state

/-- The task ends in the state `t`. -/
def Occurrence.Ends (config : Config) (a : Occurrence) (t : State) : Prop :=
  (a.outcome config).state? = some t

/-- In doing the first task the second one is done. -/
inductive Occurs (config : Config) : Occurrence → Occurrence → Prop where
  | here (a) : Occurs config a a
  | inside {n q s p s' b} : (walker config (n + 1)).Asks config q s p s' →
      Occurs config ⟨n, .part p, s'⟩ b → Occurs config ⟨n + 1, q, s⟩ b

/-- In doing the first task the second one is done before the third one is begun. -/
inductive Precedes (config : Config) : Occurrence → Occurrence → Occurrence → Prop where
  | apart {n q s p s' r t b c} :
      Before (fun w => w.perform config q) (walker config (n + 1)) s (p, s') (r, t) →
      Occurs config ⟨n, .part p, s'⟩ b → Occurs config ⟨n, .part r, t⟩ c →
      Precedes config ⟨n + 1, q, s⟩ b c
  | inside {n q s p s' b c} : (walker config (n + 1)).Asks config q s p s' →
      Precedes config ⟨n, .part p, s'⟩ b c → Precedes config ⟨n + 1, q, s⟩ b c

section Occurs

variable {config : Config} {a b c : Occurrence}

theorem Occurs.trans (hab : Occurs config a b) (hbc : Occurs config b c) : Occurs config a c := by
  induction hab with
  | here => exact hbc
  | inside hasks _ ih => exact .inside hasks (ih hbc)

/-- Between a task and what occurs in it at most one function body is opened for each level. -/
theorem Occurs.passes (h : Occurs config a b) :
    ∃ k, Passes config a.levels a.task a.state k b.state ∧ b.levels + k ≤ a.levels := by
  induction h with
  | here => exact ⟨0, .start, Nat.le_refl _⟩
  | @inside n q s p s' b hasks _ ih =>
    obtain ⟨k, hpasses, hk⟩ := ih
    refine ⟨k + q.opens p, .inside hasks hpasses, ?_⟩
    have hopens : q.opens p ≤ 1 := by
      cases q with
      | part p' => cases p' <;> cases p <;> exact Nat.le_of_ble_eq_true rfl
      | call f args => cases p <;> exact Nat.le_of_ble_eq_true rfl
    show b.levels + (k + q.opens p) ≤ n + 1
    change b.levels + k ≤ n at hk
    omega

/-- **Of two tasks that are done in doing another one, one is done before the other, or in doing
it.** -/
theorem Occurs.order (hab : Occurs config a b) (hac : Occurs config a c) :
    Occurs config b c ∨ Occurs config c b ∨ Precedes config a b c ∨ Precedes config a c b := by
  induction hab with
  | here => exact Or.inl hac
  | @inside n q s p s' b hasks hb ih =>
    generalize ha : (⟨n + 1, q, s⟩ : Occurrence) = a at hac
    cases hac with
    | here =>
      subst ha
      exact Or.inr (Or.inl (.inside hasks hb))
    | @inside n' q' s₀ r t _ hasks' hc =>
      cases ha
      -- Both are done in parts that this level asks about: in the same one, or in one part first.
      have horder := (scripted_anyhow config q s).order (x := (p, s')) (y := (r, t))
        (asks_iff.1 hasks) (asks_iff.1 hasks')
      rcases horder with heq | hbefore | hbefore
      · cases heq
        rcases ih hc with h | h | h | h
        · exact Or.inl h
        · exact Or.inr (Or.inl h)
        · exact Or.inr (Or.inr (Or.inl (.inside hasks h)))
        · exact Or.inr (Or.inr (Or.inr (.inside hasks h)))
      · exact Or.inr (Or.inr (Or.inl (.apart hbefore hb hc)))
      · exact Or.inr (Or.inr (Or.inr (.apart hbefore hc hb)))

/-- What is done in a task that ends has an end itself. -/
theorem Occurs.ended (h : Occurs config a b) (ha : a.outcome config ≠ .exhausted) :
    b.outcome config ≠ .exhausted := by
  induction h with
  | here => exact ha
  | inside hasks _ ih =>
    refine ih fun hnone => ha (hasks.exhausted ?_)
    rw [walker_ask]
    exact hnone

theorem exists_ends (h : a.outcome config ≠ .exhausted) : ∃ e, a.Ends config e := by
  cases he : (a.outcome config).state? with
  | none => exact absurd (Outcome.eq_exhausted he) h
  | some e => exact ⟨e, he⟩

theorem Precedes.occurs (h : Precedes config a b c) : Occurs config a b ∧ Occurs config a c := by
  induction h with
  | apart hbefore hb hc =>
    exact ⟨.inside (asks_iff.2 hbefore.first) hb, .inside (asks_iff.2 hbefore.second) hc⟩
  | inside hasks _ ih => exact ⟨.inside hasks ih.1, .inside hasks ih.2⟩

theorem Precedes.ended (h : Precedes config a b c) : ∃ e, b.Ends config e := by
  induction h with
  | @apart n q s p s' r t b c hbefore hb _ =>
    have hanswered := hbefore.answered
    rw [walker_ask] at hanswered
    exact exists_ends (hb.ended (a := ⟨n, .part p, s'⟩) hanswered)
  | inside _ _ ih => exact ih

end Occurs

/-! ## From moment to moment -/

/-- What nodes do by themselves in a task keeps to a relation. -/
def Occurrence.Permitted (config : Config) (R : State → State → Prop) (a : Occurrence) : Prop :=
  ∀ b, Occurs config a b → Permits R b.task b.state

namespace Own

variable {config : Config} {R : State → State → Prop} {a b c : Occurrence} {e t : State}
  (hR : Own R)

include hR

/-- From the beginning of a task to its end. -/
theorem outcome (ha : a.Permitted config R) (ht : a.Ends config t) : R a.state t := by
  obtain ⟨n, q, s⟩ := a
  induction n generalizing q s t with
  | zero =>
    refine (scripted_perform hR config (ha _ (.here _))).outcome hR.trans ?_ ht
    intro p s' _ e he
    cases p <;> cases he
  | succ n ih =>
    refine (scripted_perform hR config (ha _ (.here _))).outcome hR.trans ?_ ht
    intro p s' hasked e he
    rw [walker_ask] at he
    exact ih (.part p) s' (fun b hb => ha b (.inside (asks_iff.2 hasked) hb)) he

theorem answers {n : Nat} {q : Task} {s : State} (ha : Occurrence.Permitted config R ⟨n + 1, q, s⟩)
    (p : Part) (s' : State)
    (hasked : Asked (fun w => w.perform config q) (walker config (n + 1)) s p s') (e : State)
    (he : ((walker config (n + 1)).ask p s').state? = some e) : R s' e := by
  rw [walker_ask] at he
  have hpart : Occurrence.Permitted config R ⟨n, .part p, s'⟩ :=
    fun b hb => ha b (.inside (asks_iff.2 hasked) hb)
  exact hR.outcome hpart he

/-- From the beginning of a task to the beginning of what occurs in it. -/
theorem outset (ha : a.Permitted config R) (h : Occurs config a b) : R a.state b.state := by
  induction h with
  | here => exact hR.refl _
  | @inside n q s p s' b hasks hb ih =>
    have hscript := scripted_perform hR config (ha _ (.here _))
    have hfirst : R s s' := hscript.outset hR.trans (hR.answers ha) (asks_iff.1 hasks)
    exact hR.trans hfirst (ih fun c hc => ha c (.inside hasks hc))

/-- From the end of what occurs in a task to the end of the task. -/
theorem back (ha : a.Permitted config R) (h : Occurs config a b) (he : b.Ends config e)
    (ht : a.Ends config t) : R e t := by
  induction h generalizing t with
  | here =>
    have heq : e = t := Option.some.inj (he.symm.trans ht)
    exact heq ▸ hR.refl e
  | @inside n q s p s' b hasks hb ih =>
    have hscript := scripted_perform hR config (ha _ (.here _))
    cases hpart : ((walker config (n + 1)).ask p s').state? with
    | none =>
      have hnone := hasks.exhausted (Outcome.eq_exhausted hpart)
      unfold Occurrence.Ends Occurrence.outcome at ht
      rw [hnone] at ht
      cases ht
    | some o =>
      have hlast : R o t := hscript.back hR.trans (hR.answers ha) (asks_iff.1 hasks) hpart ht
      rw [walker_ask] at hpart
      exact hR.trans (ih (fun c hc => ha c (.inside hasks hc)) he hpart) hlast

/-- From the end of what occurs in a task to the beginning of what occurs later. -/
theorem across (ha : a.Permitted config R) (h : Precedes config a b c) (he : b.Ends config e) :
    R e c.state := by
  induction h with
  | @apart n q s p s' r t b c hbefore hb hc =>
    have hscript := scripted_perform hR config (ha _ (.here _))
    have hfirst := asks_iff.2 hbefore.first
    have hsecond := asks_iff.2 hbefore.second
    have hafter : R t c.state :=
      hR.outset (a := ⟨n, .part r, t⟩) (fun d hd => ha d (.inside hsecond hd)) hc
    cases hpart : ((walker config (n + 1)).ask p s').state? with
    | none => exact absurd (Outcome.eq_exhausted hpart) hbefore.answered
    | some o =>
      have hbetween : R o t := hscript.across hR.trans (hR.answers ha) hbefore hpart
      rw [walker_ask] at hpart
      have hpermitted : Occurrence.Permitted config R ⟨n, .part p, s'⟩ :=
        fun d hd => ha d (.inside hfirst hd)
      exact hR.trans (hR.back hpermitted hb he hpart) (hR.trans hbetween hafter)
  | inside hasks _ ih => exact ih (fun d hd => ha d (.inside hasks hd)) he

end Own

/-! ## One after the other -/

/-- From `s` tasks are done one after the other, each from the state in which the last one ended; `r`
is the state behind them, if there is one. -/
inductive Course (config : Config) : State → List Occurrence → Option State → Prop where
  | nil (s) : Course config s [] (some s)
  | lost (a) : a.outcome config = .exhausted → Course config a.state [a] none
  | cons (a) {t l r} : a.Ends config t → Course config t l r → Course config a.state (a :: l) r

/-- In doing some tasks one after the other this one is done. -/
def OccursIn (config : Config) (l : List Occurrence) (b : Occurrence) : Prop :=
  ∃ a ∈ l, Occurs config a b

/-- In doing some tasks one after the other the first one is done before the second one is begun. -/
inductive PrecedesIn (config : Config) (l : List Occurrence) (b c : Occurrence) : Prop where
  | within {a} : a ∈ l → Precedes config a b c → PrecedesIn config l b c
  | apart {a a'} : List.Sublist [a, a'] l → Occurs config a b → Occurs config a' c →
      PrecedesIn config l b c

section Course

variable {config : Config} {l k : List Occurrence} {s t : State} {r : Option State}
  {b c : Occurrence}

theorem Course.append (h : Course config s l (some t)) (h' : Course config t k r) :
    Course config s (l ++ k) r := by
  generalize ho : some t = o at h
  induction h with
  | nil s =>
    cases ho
    exact h'
  | lost a ha => cases ho
  | cons a ha _ ih => exact .cons a ha (ih ho)

/-- Of two members of a list one stands before the other. -/
theorem sublist_of_mem {a a' : Occurrence} (hne : a ≠ a') (ha : a ∈ l) (ha' : a' ∈ l) :
    List.Sublist [a, a'] l ∨ List.Sublist [a', a] l := by
  induction l with
  | nil => cases ha
  | cons b l ih =>
    rcases List.mem_cons.1 ha with rfl | hmem
    · rcases List.mem_cons.1 ha' with heq | hmem'
      · exact absurd heq.symm hne
      · exact Or.inl ((List.singleton_sublist.2 hmem').cons_cons _)
    · rcases List.mem_cons.1 ha' with rfl | hmem'
      · exact Or.inr ((List.singleton_sublist.2 hmem).cons_cons _)
      · exact (ih hmem hmem').imp (·.cons _) (·.cons _)

theorem OccursIn.inside (hb : OccursIn config l b) (h : Occurs config b c) : OccursIn config l c := by
  obtain ⟨a, ha, hab⟩ := hb
  exact ⟨a, ha, hab.trans h⟩

theorem PrecedesIn.occurs (h : PrecedesIn config l b c) :
    OccursIn config l b ∧ OccursIn config l c := by
  cases h with
  | within ha h => exact ⟨⟨_, ha, h.occurs.1⟩, ⟨_, ha, h.occurs.2⟩⟩
  | @apart a a' hsub hb hc =>
    have hmem : a' ∈ [a, a'] := List.mem_cons_of_mem _ (List.mem_singleton.2 rfl)
    exact ⟨⟨a, hsub.subset List.mem_cons_self, hb⟩, ⟨a', hsub.subset hmem, hc⟩⟩

theorem OccursIn.order (hb : OccursIn config l b) (hc : OccursIn config l c) :
    Occurs config b c ∨ Occurs config c b ∨ PrecedesIn config l b c ∨ PrecedesIn config l c b := by
  obtain ⟨a, ha, hab⟩ := hb
  obtain ⟨a', ha', hac⟩ := hc
  by_cases heq : a = a'
  · subst heq
    rcases hab.order hac with h | h | h | h
    · exact Or.inl h
    · exact Or.inr (Or.inl h)
    · exact Or.inr (Or.inr (Or.inl (.within ha h)))
    · exact Or.inr (Or.inr (Or.inr (.within ha h)))
  · rcases sublist_of_mem heq ha ha' with h | h
    · exact Or.inr (Or.inr (Or.inl (.apart h hab hac)))
    · exact Or.inr (Or.inr (Or.inr (.apart h hac hab)))

end Course

namespace Own

variable {config : Config} {R : State → State → Prop} {l : List Occurrence} {s t e e' : State}
  {r : Option State} {b c : Occurrence} (hR : Own R)
  (hl : ∀ a ∈ l, a.Permitted config R) (h : Course config s l r)

include hR hl h

/-- In a course each task stands to the states before and behind it, and to the later tasks. -/
theorem course : (∀ t, r = some t → R s t) ∧ (∀ a ∈ l, R s a.state) ∧
    (∀ a ∈ l, ∀ e t, a.Ends config e → r = some t → R e t) ∧
    l.Pairwise fun a a' => ∃ e, a.Ends config e ∧ R e a'.state := by
  induction h with
  | nil s =>
    refine ⟨fun t ht => ?_, fun a ha => (nomatch ha), fun a ha => (nomatch ha), .nil⟩
    cases ht
    exact hR.refl s
  | lost a ha =>
    refine ⟨fun t ht => (nomatch ht), fun b hb => ?_, fun b _ e t _ ht => (nomatch ht), ?_⟩
    · rw [List.mem_singleton.1 hb]
      exact hR.refl _
    · exact List.pairwise_singleton _ _
  | @cons a t l r ha _ ih =>
    obtain ⟨hend, hstart, hback, hacross⟩ := ih fun b hb => hl b (List.mem_cons_of_mem _ hb)
    have hfirst : R a.state t := hR.outcome (hl a List.mem_cons_self) ha
    refine ⟨fun u hu => hR.trans hfirst (hend u hu), ?_, ?_, .cons ?_ hacross⟩
    · intro b hb
      rcases List.mem_cons.1 hb with rfl | hb
      · exact hR.refl _
      · exact hR.trans hfirst (hstart b hb)
    · intro b hb e u he hu
      rcases List.mem_cons.1 hb with rfl | hb
      · have hsame : e = t := Option.some.inj (he.symm.trans ha)
        exact hsame ▸ hend u hu
      · exact hback b hb e u he hu
    · intro b hb
      exact ⟨t, ha, hstart b hb⟩

/-- From the beginning of a course to what is done in it. -/
theorem outsetIn (hb : OccursIn config l b) : R s b.state := by
  obtain ⟨a, ha, hab⟩ := hb
  exact hR.trans ((hR.course hl h).2.1 a ha) (hR.outset (hl a ha) hab)

/-- From the end of what is done in a course to the state behind the course. -/
theorem backIn (hb : OccursIn config l b) (he : b.Ends config e) (hr : r = some t) : R e t := by
  obtain ⟨a, ha, hab⟩ := hb
  subst hr
  -- The course goes on behind each of its tasks, so each of them has an end.
  have hended : ∃ u, a.Ends config u := by
    clear hl hab
    generalize ho : some t = o at h
    induction h with
    | nil => cases ha
    | lost => cases ho
    | cons a' ha' _ ih =>
      rcases List.mem_cons.1 ha with rfl | ha
      · exact ⟨_, ha'⟩
      · exact ih ha ho
  obtain ⟨u, hu⟩ := hended
  exact hR.trans (hR.back (hl a ha) hab he hu) ((hR.course hl h).2.2.1 a ha u t hu rfl)

/-- From the end of what is done in a course to the beginning of what is done later. -/
theorem acrossIn (hbc : PrecedesIn config l b c) (he : b.Ends config e) : R e c.state := by
  cases hbc with
  | within ha h => exact hR.across (hl _ ha) h he
  | @apart a a' hsub hb hc =>
    have hpair := (hR.course hl h).2.2.2.sublist hsub
    obtain ⟨u, hu, hstart⟩ := (List.pairwise_cons.1 hpair).1 a' (List.mem_singleton.2 rfl)
    have hmem : a ∈ l := hsub.subset List.mem_cons_self
    have hmem' : a' ∈ l := hsub.subset (List.mem_cons_of_mem _ (List.mem_singleton.2 rfl))
    exact hR.trans (hR.back (hl a hmem) hb he hu) (hR.trans hstart (hR.outset (hl a' hmem') hc))

end Own

/-! ## Uses -/

namespace Interpreter

/-- The tasks that are done where statements are executed one after the other, with some number of
levels for each. -/
def statements (config : Config) (n : Nat) : List Stmt → State → List Occurrence
  | [], _ => []
  | t :: ts, s =>
    let a : Occurrence := ⟨n, .part (.stmt t), s⟩
    match (SmallScript.walker config (n + 1)).exec t s with
    | .done _ s' => a :: statements config n ts s'
    | _ => [a]

namespace Use

abbrev Result : Use → Type
  | .run _ => Unit
  | .exec _ => Unit
  | .eval _ => Value
  | .call _ _ => Value

/-- How a use ends that is given some number of levels. -/
def outcome (config : Config) (n : Nat) : (u : Use) → State → Outcome u.Result
  | .run p, s => (SmallScript.walker config n).execAll p.stmts s.ready
  | .exec t, s => (SmallScript.walker config n).exec t s
  | .eval e, s => (SmallScript.walker config n).eval e s
  | .call f args, s => (SmallScript.walker config n).call config f args s

/-- The state in which a use begins. -/
def start : Use → State → State
  | .run _, s => s.ready
  | _, s => s

/-- The tasks of a use. -/
def course (config : Config) : Nat → Use → State → List Occurrence
  | n, .call f args, s => [⟨n, .call f args, s⟩]
  | 0, _, _ => []
  | n + 1, .run p, s => statements config n p.stmts s.ready
  | n + 1, .exec t, s => [⟨n, .part (.stmt t), s⟩]
  | n + 1, .eval e, s => [⟨n, .part (.expr e), s⟩]

end Use

/-- The tasks of a session. -/
def course (config : Config) : List Use → State → List Occurrence
  | [], _ => []
  | u :: us, s =>
    match u.state? config s with
    | some t => u.course config levels s ++ course config us t
    | none => u.course config levels s

/-- The interpreter gives each use all its levels. -/
theorem Use.outcome_run (config : Config) (p : Program) (s : State) :
    (Use.run p).outcome config levels s = Interpreter.run config p s := rfl

theorem Use.state?_outcome (config : Config) (u : Use) (s : State) :
    (u.outcome config levels s).state? = u.state? config s := by
  cases u <;> rfl

theorem execAll_nil (w : Walker) (s : State) : w.execAll [] s = .done () s := rfl

theorem execAll_cons (w : Walker) (t : Stmt) (ts : List Stmt) (s : State) :
    w.execAll (t :: ts) s =
      match w.exec t s with
      | .done _ s' => w.execAll ts s'
      | .unwound u s' => .unwound u s'
      | .exhausted => .exhausted := by
  show Eval.bind (w.exec t) _ s = _
  unfold Eval.bind
  cases w.exec t s <;> rfl

theorem course_statements (config : Config) (n : Nat) (ts : List Stmt) : ∀ s,
    Course config s (statements config n ts s)
      ((SmallScript.walker config (n + 1)).execAll ts s).state? := by
  induction ts with
  | nil => exact fun s => .nil s
  | cons t ts ih =>
    intro s
    let a : Occurrence := ⟨n, .part (.stmt t), s⟩
    unfold statements
    rw [execAll_cons]
    have ha : a.outcome config = (SmallScript.walker config (n + 1)).exec t s := rfl
    cases hr : (SmallScript.walker config (n + 1)).exec t s with
    | done x s' =>
      have hends : a.Ends config s' := congrArg Outcome.state? (ha.trans hr)
      exact .cons a hends (ih s')
    | unwound u s' =>
      have hends : a.Ends config s' := congrArg Outcome.state? (ha.trans hr)
      exact .cons a hends (.nil s')
    | exhausted => exact .lost a (ha.trans hr)

theorem course_task (config : Config) (a : Occurrence) :
    Course config a.state [a] (a.outcome config).state? := by
  cases h : (a.outcome config).state? with
  | none => exact .lost a (Outcome.eq_exhausted h)
  | some t => exact .cons a h (.nil t)

theorem Use.course_use (config : Config) (n : Nat) (u : Use) (s : State) :
    Course config (u.start s) (u.course config (n + 1) s) (u.outcome config (n + 1) s).state? := by
  cases u with
  | run p => exact course_statements config n p.stmts s.ready
  | exec t => exact course_task config ⟨n, .part (.stmt t), s⟩
  | eval e => exact course_task config ⟨n, .part (.expr e), s⟩
  | call f args => exact course_task config ⟨n + 1, .call f args, s⟩

def Use.isRun : Use → Bool
  | .run _ => true
  | _ => false

/-- Uses from a state in which nothing is remembered of nodes: either at the beginning, or because
they begin with a run of a program.  No other run comes behind. -/
structure Stretch (us : List Use) (s : State) : Prop where
  fresh : s.memo = {} ∨ ∃ p rest, us = .run p :: rest
  rest : ∀ u ∈ us.tail, u.isRun = false

/-- The state in which a session begins. -/
def outset : List Use → State → State
  | [], s => s
  | u :: _, s => u.start s

/-- A session without runs behind the first use is one course. -/
theorem course_session (config : Config) (us : List Use) : ∀ s, (∀ u ∈ us.tail, u.isRun = false) →
    Course config (outset us s) (course config us s) (session config us s) := by
  induction us with
  | nil => exact fun s _ => .nil s
  | cons u us ih =>
    intro s hrest
    obtain ⟨n, hn⟩ : ∃ n, levels = n + 1 := ⟨levels - 1, rfl⟩
    have huse := u.course_use config n s
    rw [← hn, Use.state?_outcome] at huse
    unfold course session
    cases ht : u.state? config s with
    | none =>
      rw [ht] at huse
      exact huse
    | some t =>
      rw [ht] at huse
      have htail : ∀ v ∈ us.tail, v.isRun = false := fun v hv => hrest v (List.mem_of_mem_tail hv)
      -- Only a run would begin in another state than the one that was left.
      have hstart : outset us t = t := by
        cases us with
        | nil => rfl
        | cons v us =>
          have hv := hrest v List.mem_cons_self
          cases v with
          | run p => cases hv
          | _ => rfl
      have hbehind := ih t htail
      rw [hstart] at hbehind
      exact huse.append hbehind

theorem Stretch.memo {us : List Use} {s : State} (h : Stretch us s) : (outset us s).memo = {} := by
  cases us with
  | nil =>
    rcases h.fresh with hs | ⟨p, rest, heq⟩
    · exact hs
    · cases heq
  | cons u us =>
    cases u with
    | run p => rfl
    | _ =>
      rcases h.fresh with hs | ⟨p, rest, heq⟩
      · exact hs
      · cases heq

/-- In a session, a moment and a later one: where it begins or ends, or a task in it does. -/
inductive Later (config : Config) (us : List Use) (s : State) : State → State → Prop where
  | refl (t) : Later config us s t t
  | trans {t u v} : Later config us s t u → Later config us s u v → Later config us s t v
  | whole {t} : session config us s = some t → Later config us s (outset us s) t
  | first {b} : OccursIn config (course config us s) b → Later config us s (outset us s) b.state
  | last {b e t} : OccursIn config (course config us s) b → b.Ends config e →
      session config us s = some t → Later config us s e t
  | through {b e} : OccursIn config (course config us s) b → b.Ends config e →
      Later config us s b.state e
  | into {b c} : OccursIn config (course config us s) b → Occurs config b c →
      Later config us s b.state c.state
  | outOf {b c e t} : OccursIn config (course config us s) b → Occurs config b c → c.Ends config e →
      b.Ends config t → Later config us s e t
  | next {b c e} : PrecedesIn config (course config us s) b c → b.Ends config e →
      Later config us s e c.state

section Later

variable {config : Config} {us : List Use} {s t t' : State} {a b c : Occurrence}

/-- States are related from each moment of a session to each later one. -/
theorem Later.related {R : State → State → Prop} (h : Later config us s t t') (hR : Own R)
    (hs : Stretch us s)
    (hl : ∀ b, OccursIn config (course config us s) b → Permits R b.task b.state) : R t t' := by
  have hpermitted : ∀ a ∈ course config us s, a.Permitted config R :=
    fun a ha b hb => hl b ⟨a, ha, hb⟩
  have hcourse := course_session config us s hs.rest
  have hpart : ∀ {b}, OccursIn config (course config us s) b → b.Permitted config R :=
    fun hb c hc => hl c (hb.inside hc)
  induction h with
  | refl t => exact hR.refl t
  | trans _ _ ih ih' => exact hR.trans ih ih'
  | whole ht => exact (hR.course hpermitted hcourse).1 _ ht
  | first hb => exact hR.outsetIn hpermitted hcourse hb
  | last hb he ht => exact hR.backIn hpermitted hcourse hb he ht
  | through hb he => exact hR.outcome (hpart hb) he
  | into hb hc => exact hR.outset (hpart hb) hc
  | outOf hb hc he ht => exact hR.back (hpart hb) hc he ht
  | next hbc he => exact hR.acrossIn hpermitted hcourse hbc he

/-- Every moment behind the beginning is the beginning or the end of a task, or of the session. -/
theorem Later.moment (h : Later config us s t t') : t' = t ∨ session config us s = some t' ∨
    ∃ b, OccursIn config (course config us s) b ∧ (t' = b.state ∨ b.Ends config t') := by
  induction h with
  | refl t => exact Or.inl rfl
  | trans _ _ ih ih' =>
    rcases ih' with rfl | h
    · exact ih
    · exact Or.inr h
  | whole ht => exact Or.inr (Or.inl ht)
  | first hb => exact Or.inr (Or.inr ⟨_, hb, Or.inl rfl⟩)
  | last hb he ht => exact Or.inr (Or.inl ht)
  | through hb he => exact Or.inr (Or.inr ⟨_, hb, Or.inr he⟩)
  | into hb hc => exact Or.inr (Or.inr ⟨_, hb.inside hc, Or.inl rfl⟩)
  | outOf hb hc he ht => exact Or.inr (Or.inr ⟨_, hb, Or.inr ht⟩)
  | next hbc he => exact Or.inr (Or.inr ⟨_, hbc.occurs.2, Or.inl rfl⟩)

/-- Of the ends of two tasks one is later than the other. -/
theorem ends_later {e e' : State} (hb : OccursIn config (course config us s) b)
    (hc : OccursIn config (course config us s) c) (he : b.Ends config e) (he' : c.Ends config e') :
    Later config us s e e' ∨ Later config us s e' e := by
  rcases hb.order hc with h | h | h | h
  · exact Or.inr (.outOf hb h he' he)
  · exact Or.inl (.outOf hc h he he')
  · exact Or.inl (.trans (.next h he) (.through hc he'))
  · exact Or.inr (.trans (.next h he') (.through hb he))

/-- What is done before something else comes to an end. -/
theorem ended_of_precedesIn (hs : Stretch us s) (h : PrecedesIn config (course config us s) b c) :
    ∃ e, b.Ends config e := by
  cases h with
  | within _ h => exact h.ended
  | @apart a a' hsub hb hc =>
    have hpair := (own_anyhow.course (fun _ _ _ _ => ⟨fun _ _ _ _ => trivial, fun _ _ _ => trivial⟩)
      (course_session config us s hs.rest)).2.2.2.sublist hsub
    obtain ⟨e, he, -⟩ := (List.pairwise_cons.1 hpair).1 a' (List.mem_singleton.2 rfl)
    refine exists_ends (hb.ended fun hnone => ?_)
    unfold Occurrence.Ends at he
    rw [hnone] at he
    cases he

end Later

end Interpreter

end SmallScript
