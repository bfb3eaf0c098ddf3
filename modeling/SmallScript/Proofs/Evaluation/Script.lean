/-
  What is asked of a walker, and in which order.

  A step asks a walker about parts.  Which parts, and in which states, depends on the answers, but
  what is done with an answer does not depend on the walker.  So a step from some state can be
  written out beforehand, with all the answers that there could be: it follows a `Script`.

  `Walker.Asked` finds what is asked by changing one answer at a time, and `Walker.Before` what is
  asked first by leaving one out.  On a script both can be seen (`Script.asked`).  That needs no more
  than that an answer can always end a step: with a value of its own choice, as a `return` unwinds
  through whatever asked, or by not being there at all.

  Between the answers a step does something by itself.  Where that keeps to a relation of states, and
  the answers do, so does the whole, from each moment to each later one.
-/
import Mathlib.Tactic.ByContra
import Mathlib.Tactic.Choose
import SmallScript.Proofs.Evaluation.Restoration

namespace SmallScript

/-- The value that an outcome was ended with, by a `return` or, if `f` tells it, by being done. -/
def Outcome.given? {α : Type} (f : α → Option Value) : Outcome α → Option Value
  | .done x _ => f x
  | .unwound (.return a) _ => some a
  | _ => none

/-- Being done tells no value. -/
abbrev Outcome.Untold {α : Type} : α → Option Value := fun _ => none

theorem Outcome.given?_untold {α : Type} {r : Outcome α} {a : Value}
    (h : r.given? Untold = some a) : ∃ t, r = .unwound (.return a) t := by
  cases r with
  | done x t => cases h
  | unwound u t =>
    cases u with
    | «return» b =>
      cases h
      exact ⟨t, rfl⟩
    | jump j => cases h
    | fault f => cases h
  | exhausted => cases h

theorem Outcome.eq_exhausted {α : Type} {r : Outcome α} (h : r.state? = none) : r = .exhausted := by
  cases r with
  | done x t => cases h
  | unwound u t => cases h
  | exhausted => rfl

/-- What is asked, and how it goes on with the answer. -/
inductive Script (α : Type) where
  | closed (r : Outcome α)
  | ask (p : Part) (s : State) (next : Outcome p.Result → Script α)

/-! ## Asking and answering -/

namespace Walker

variable {α : Type}

/-- `v` answers like `w`, except about `p` in `s'`. -/
def Varies (w v : Walker) (p : Part) (s' : State) : Prop :=
  v.rounds = w.rounds ∧ ∀ r t, ¬ (r = p ∧ t = s') → v.ask r t = w.ask r t

theorem varies_divert (w : Walker) (p : Part) (s' : State) (out : {α : Type} → Outcome α) :
    w.Varies (w.divert p s' out) p s' :=
  ⟨rfl, fun _ _ hrt => divert_ask_of_ne hrt⟩

/-- In a step from `s` the walker is asked about `p` in `s'`: were its answer there another one, the
step could end in another way. -/
def Asked (m : Walker → Eval α) (w : Walker) (s : State) (p : Part) (s' : State) : Prop :=
  ∃ v, w.Varies v p s' ∧ m v s ≠ m w s

/-- In a step from `s` the walker is asked about the part `x` before it is asked about `y`: as long as
it does not answer about `x`, it is not asked about `y`. -/
structure Before (m : Walker → Eval α) (w : Walker) (s : State) (x y : Part × State) : Prop where
  first : Asked m w s x.1 x.2
  second : Asked m w s y.1 y.2
  waits : ¬ Asked m (w.divert x.1 x.2 .exhausted) s y.1 y.2

/-- What comes first has an answer. -/
theorem Before.answered {m : Walker → Eval α} {w : Walker} {s : State} {x y : Part × State}
    (h : Before m w s x y) : w.ask x.1 x.2 ≠ .exhausted := by
  intro hnone
  have hask : ∀ r t, (w.divert x.1 x.2 .exhausted).ask r t = w.ask r t := by
    intro r t
    by_cases hrt : r = x.1 ∧ t = x.2
    · obtain ⟨rfl, rfl⟩ := hrt
      rw [divert_ask, hnone]
    · exact divert_ask_of_ne hrt
  have heval : (w.divert x.1 x.2 .exhausted).eval = w.eval := funext₂ fun e => hask (.expr e)
  have hexec : (w.divert x.1 x.2 .exhausted).exec = w.exec := funext₂ fun t => hask (.stmt t)
  have hsame : w.divert x.1 x.2 .exhausted = w := by
    show Walker.mk (w.divert x.1 x.2 .exhausted).eval (w.divert x.1 x.2 .exhausted).exec w.rounds = w
    rw [heval, hexec]
  apply h.waits
  rw [hsame]
  exact h.second

end Walker

namespace Script

open Outcome Walker

variable {α β : Type} {f : α → Option Value} {R : State → State → Prop} {s : State}
  {τ : Script α} {v w : Walker}

/-- How the script ends with the answers of a walker. -/
def run (w : Walker) : Script α → Outcome α
  | closed r => r
  | ask p s next => (next (w.ask p s)).run w

/-- What a walker is asked about, in order. -/
def asked (w : Walker) : Script α → List (Part × State)
  | closed _ => []
  | ask p s next => (p, s) :: (next (w.ask p s)).asked w

/-- A script may be followed from `s`: what is done between the answers keeps to `R`, there is no end
without an answer, and an answer that returns a value ends the script with it. -/
inductive Fair (f : α → Option Value) (R : State → State → Prop) : State → Script α → Prop where
  | closed {s r} : (∀ t, r.state? = some t → R s t) → Fair f R s (.closed r)
  | ask {s p s' next} : R s s' → next .exhausted = .closed .exhausted →
      (∀ a t, ∃ r, next (.unwound (.return a) t) = .closed r ∧ r.given? f = some a) →
      (∀ o t, o.state? = some t → Fair f R t (next o)) → Fair f R s (.ask p s' next)

/-! ### What is asked -/

/-- Answers about other parts than those that are asked about do not matter. -/
theorem run_of_agree (h : ∀ x ∈ τ.asked w, v.ask x.1 x.2 = w.ask x.1 x.2) : τ.run v = τ.run w := by
  induction τ with
  | closed r => rfl
  | ask p s next ih =>
    have hsame : v.ask p s = w.ask p s := h (p, s) List.mem_cons_self
    show (next (v.ask p s)).run v = (next (w.ask p s)).run w
    rw [hsame]
    exact ih _ fun x hx => h x (List.mem_cons_of_mem _ hx)

/-- Whatever is asked about can end the script, with any value. -/
theorem Fair.given (hτ : τ.Fair f R s) {x : Part × State} (hx : x ∈ τ.asked w) (a : Value) :
    ∃ v, w.Varies v x.1 x.2 ∧ (τ.run v).given? f = some a := by
  induction hτ with
  | closed => cases hx
  | @ask s p s' next hfirst hnone hreturn hnext ih =>
    by_cases hhead : x = (p, s')
    · subst hhead
      obtain ⟨r, hr, hgiven⟩ := hreturn a s'
      refine ⟨w.divert p s' (.unwound (.return a) s'), w.varies_divert _ _ _, ?_⟩
      show ((next (Walker.ask _ p s')).run _).given? f = some a
      rw [divert_ask, hr]
      exact hgiven
    · have hbehind : x ∈ (next (w.ask p s')).asked w := by
        rcases List.mem_cons.1 hx with heq | hmem
        · exact absurd heq hhead
        · exact hmem
      cases hanswer : (w.ask p s').state? with
      | none =>
        rw [Outcome.eq_exhausted hanswer, hnone] at hbehind
        cases hbehind
      | some t =>
        obtain ⟨v, hv, hgiven⟩ := ih _ t hanswer hbehind
        refine ⟨v, hv, ?_⟩
        have hsame : v.ask p s' = w.ask p s' := by
          apply hv.2
          rintro ⟨rfl, rfl⟩
          exact hhead rfl
        show ((next (v.ask p s')).run v).given? f = some a
        rw [hsame]
        exact hgiven

/-- Without an answer that is asked for there is no end. -/
theorem Fair.exhausted (hτ : τ.Fair f R s) {x : Part × State} (hx : x ∈ τ.asked w)
    (hanswer : w.ask x.1 x.2 = .exhausted) : τ.run w = .exhausted := by
  induction hτ with
  | closed => cases hx
  | @ask s p s' next hfirst hnone hreturn hnext ih =>
    show (next (w.ask p s')).run w = .exhausted
    rcases List.mem_cons.1 hx with rfl | hbehind
    · rw [hanswer, hnone]
      rfl
    · cases hstate : (w.ask p s').state? with
      | none =>
        rw [Outcome.eq_exhausted hstate, hnone]
        rfl
      | some t => exact ih _ t hstate hbehind

/-- Where the answer about `x` is left out, nothing is asked behind it. -/
theorem Fair.asked_divert (hτ : τ.Fair f R s) {x : Part × State} (hx : x ∈ τ.asked w) :
    ∃ before behind, τ.asked w = before ++ x :: behind ∧ x ∉ before ∧
      τ.asked (w.divert x.1 x.2 .exhausted) = before ++ [x] := by
  induction hτ with
  | closed => cases hx
  | @ask s p s' next hfirst hnone hreturn hnext ih =>
    by_cases hhead : x = (p, s')
    · subst hhead
      refine ⟨[], _, rfl, List.not_mem_nil, ?_⟩
      show (p, s') :: (next (Walker.ask _ p s')).asked _ = [(p, s')]
      rw [divert_ask, hnone]
      rfl
    · have hbehind : x ∈ (next (w.ask p s')).asked w := by
        rcases List.mem_cons.1 hx with heq | hmem
        · exact absurd heq hhead
        · exact hmem
      cases hstate : (w.ask p s').state? with
      | none =>
        rw [Outcome.eq_exhausted hstate, hnone] at hbehind
        cases hbehind
      | some t =>
        obtain ⟨before, behind, hsplit, hnot, hleft⟩ := ih _ t hstate hbehind
        have hsame : (w.divert x.1 x.2 .exhausted).ask p s' = w.ask p s' := by
          apply divert_ask_of_ne
          rintro ⟨rfl, rfl⟩
          exact hhead rfl
        refine ⟨(p, s') :: before, behind, ?_, ?_, ?_⟩
        · show (p, s') :: (next (w.ask p s')).asked w = _
          rw [hsplit]
          rfl
        · intro hmem
          rcases List.mem_cons.1 hmem with heq | hmem
          · exact hhead heq
          · exact hnot hmem
        · show (p, s') :: (next (Walker.ask _ p s')).asked _ = _
          rw [hsame, hleft]
          rfl

/-! ### From moment to moment -/

section Related

variable (trans : ∀ ⦃s t u⦄, R s t → R t u → R s u)

include trans

/-- From the beginning of a script to its end. -/
theorem Fair.outcome (hτ : τ.Fair f R s)
    (hw : ∀ x ∈ τ.asked w, ∀ e, (w.ask x.1 x.2).state? = some e → R x.2 e) {t : State}
    (ht : (τ.run w).state? = some t) : R s t := by
  induction hτ with
  | closed hr => exact hr t ht
  | @ask s p s' next hfirst hnone hreturn hnext ih =>
    change ((next (w.ask p s')).run w).state? = some t at ht
    cases hstate : (w.ask p s').state? with
    | none =>
      rw [Outcome.eq_exhausted hstate, hnone] at ht
      cases ht
    | some e =>
      have hanswer : R s' e := hw (p, s') List.mem_cons_self e hstate
      have hrest : R e t := ih _ e hstate (fun x hx => hw x (List.mem_cons_of_mem _ hx)) ht
      exact trans hfirst (trans hanswer hrest)

/-- From the beginning to what is asked. -/
theorem Fair.outset (hτ : τ.Fair f R s)
    (hw : ∀ x ∈ τ.asked w, ∀ e, (w.ask x.1 x.2).state? = some e → R x.2 e) {x : Part × State}
    (hx : x ∈ τ.asked w) : R s x.2 := by
  induction hτ with
  | closed => cases hx
  | @ask s p s' next hfirst hnone hreturn hnext ih =>
    rcases List.mem_cons.1 hx with rfl | hbehind
    · exact hfirst
    · cases hstate : (w.ask p s').state? with
      | none =>
        rw [Outcome.eq_exhausted hstate, hnone] at hbehind
        cases hbehind
      | some e =>
        have hanswer : R s' e := hw (p, s') List.mem_cons_self e hstate
        have hrest : R e x.2 := ih _ e hstate (fun y hy => hw y (List.mem_cons_of_mem _ hy)) hbehind
        exact trans hfirst (trans hanswer hrest)

/-- From an answer to the end. -/
theorem Fair.back (hτ : τ.Fair f R s)
    (hw : ∀ x ∈ τ.asked w, ∀ e, (w.ask x.1 x.2).state? = some e → R x.2 e) {x : Part × State}
    (hx : x ∈ τ.asked w) {e t : State} (he : (w.ask x.1 x.2).state? = some e)
    (ht : (τ.run w).state? = some t) : R e t := by
  induction hτ with
  | closed => cases hx
  | @ask s p s' next hfirst hnone hreturn hnext ih =>
    change ((next (w.ask p s')).run w).state? = some t at ht
    have hbelow : ∀ y ∈ (next (w.ask p s')).asked w, ∀ e, (w.ask y.1 y.2).state? = some e → R y.2 e :=
      fun y hy => hw y (List.mem_cons_of_mem _ hy)
    rcases List.mem_cons.1 hx with rfl | hbehind
    · exact (hnext _ e he).outcome trans hbelow ht
    · cases hstate : (w.ask p s').state? with
      | none =>
        rw [Outcome.eq_exhausted hstate, hnone] at hbehind
        cases hbehind
      | some o => exact ih _ o hstate hbelow hbehind ht

/-- From an answer to what is asked behind it. -/
theorem Fair.across (hτ : τ.Fair f R s)
    (hw : ∀ x ∈ τ.asked w, ∀ e, (w.ask x.1 x.2).state? = some e → R x.2 e) :
    (τ.asked w).Pairwise fun x y => ∀ e, (w.ask x.1 x.2).state? = some e → R e y.2 := by
  induction hτ with
  | closed => exact .nil
  | @ask s p s' next hfirst hnone hreturn hnext ih =>
    have hbelow : ∀ y ∈ (next (w.ask p s')).asked w, ∀ e, (w.ask y.1 y.2).state? = some e → R y.2 e :=
      fun y hy => hw y (List.mem_cons_of_mem _ hy)
    refine .cons (fun y hy e he => (hnext _ e he).outset trans hbelow hy) ?_
    cases hstate : (w.ask p s').state? with
    | none =>
      rw [Outcome.eq_exhausted hstate, hnone]
      exact .nil
    | some e => exact ih _ e hstate hbelow

end Related

/-! ### Building -/

/-- A script, and what follows it. -/
def bind (k : α → State → Script β) : Script α → Script β
  | closed (.done a t) => k a t
  | closed (.unwound u t) => closed (.unwound u t)
  | closed .exhausted => closed .exhausted
  | ask p s next => ask p s fun o => (next o).bind k

theorem run_bind (k : α → State → Script β) (τ : Script α) (w : Walker) :
    (τ.bind k).run w =
      match τ.run w with
      | .done a t => (k a t).run w
      | .unwound u t => .unwound u t
      | .exhausted => .exhausted := by
  induction τ with
  | closed r => cases r <;> rfl
  | ask p s next ih => exact ih _

theorem asked_bind (k : α → State → Script β) (τ : Script α) (w : Walker) :
    (τ.bind k).asked w = τ.asked w ++
      match τ.run w with
      | .done a t => (k a t).asked w
      | _ => [] := by
  induction τ with
  | closed r => cases r <;> rfl
  | ask p s next ih => exact congrArg ((p, s) :: ·) (ih _)

theorem bind_assoc {γ : Type} (τ : Script α) (k : α → State → Script β)
    (l : β → State → Script γ) : (τ.bind k).bind l = τ.bind fun a t => (k a t).bind l := by
  induction τ with
  | closed r => cases r <;> rfl
  | ask p s next ih => exact congrArg (ask p s) (funext ih)

/-- A script whose outcome is taken up by something. -/
def map (g : Outcome α → Outcome β) : Script α → Script β
  | closed r => closed (g r)
  | ask p s next => ask p s fun o => (next o).map g

theorem run_map (g : Outcome α → Outcome β) (τ : Script α) (w : Walker) :
    (τ.map g).run w = g (τ.run w) := by
  induction τ with
  | closed r => rfl
  | ask p s next ih => exact ih _

/-- Something is done before a script is followed. -/
theorem Fair.after {t : State} (trans : ∀ ⦃s t u⦄, R s t → R t u → R s u) (hst : R s t)
    (hτ : τ.Fair f R t) : τ.Fair f R s := by
  cases hτ with
  | closed hr => exact .closed fun u hu => trans hst (hr u hu)
  | ask hfirst hnone hreturn hnext => exact .ask (trans hst hfirst) hnone hreturn hnext

theorem Fair.bind {g : β → Option Value} {k : α → State → Script β}
    (trans : ∀ ⦃s t u⦄, R s t → R t u → R s u) (hτ : τ.Fair Untold R s)
    (hk : ∀ a t, (k a t).Fair g R t) : (τ.bind k).Fair g R s := by
  induction hτ with
  | @closed s r hr =>
    cases r with
    | done a t => exact (hk a t).after trans (hr t rfl)
    | unwound u t => exact .closed hr
    | exhausted => exact .closed fun t ht => nomatch ht
  | @ask s p s' next hfirst hnone hreturn hnext ih =>
    refine .ask hfirst ?_ ?_ ih
    · rw [hnone]
      rfl
    · intro a t
      obtain ⟨r, hr, hgiven⟩ := hreturn a t
      obtain ⟨u, rfl⟩ := Outcome.given?_untold hgiven
      refine ⟨.unwound (.return a) u, ?_, rfl⟩
      rw [hr]
      rfl

/-- What takes up an outcome lets a value that it was ended with pass, and leaves the state. -/
theorem Fair.map {f' : β → Option Value} {g : Outcome α → Outcome β}
    (trans : ∀ ⦃s t u⦄, R s t → R t u → R s u) (hτ : τ.Fair f R s)
    (hnone : g .exhausted = .exhausted)
    (hgiven : ∀ r a, r.given? f = some a → (g r).given? f' = some a)
    (hstate : ∀ r t, (g r).state? = some t → ∃ u, r.state? = some u ∧ R u t) :
    (τ.map g).Fair f' R s := by
  induction hτ with
  | @closed s r hr =>
    refine .closed fun t ht => ?_
    obtain ⟨u, hu, hut⟩ := hstate r t ht
    exact trans (hr u hu) hut
  | @ask s p s' next hfirst hlast hreturn hnext ih =>
    refine .ask hfirst ?_ ?_ ih
    · rw [hlast]
      exact congrArg Script.closed hnone
    · intro a t
      obtain ⟨r, hr, ha⟩ := hreturn a t
      refine ⟨g r, ?_, hgiven r a ha⟩
      rw [hr]
      rfl

end Script

/-! ## Steps that follow scripts -/

namespace Walker

open Outcome

variable {α β : Type} {f : α → Option Value} {R : State → State → Prop} {m : Walker → Eval α}
  {s : State}

/-- A step from `s` follows a script that may be followed there, whatever the answers are. -/
def Scripted (f : α → Option Value) (R : State → State → Prop) (m : Walker → Eval α) (s : State) :
    Prop :=
  ∀ n, ∃ τ : Script α, τ.Fair f R s ∧ ∀ w : Walker, w.rounds = n → m w s = τ.run w

/-! ### Building -/

/-- A step that asks nothing. -/
theorem scripted_own {m : Eval α} (h : ∀ t, (m s).state? = some t → R s t) :
    Scripted f R (fun _ => m) s :=
  fun _ => ⟨.closed (m s), .closed h, fun _ _ => rfl⟩

/-- A step that is nothing but an answer. -/
theorem scripted_ask (refl : ∀ s, R s s) (p : Part) : Scripted Untold R (fun w => w.ask p) s := by
  intro n
  refine ⟨.ask p s .closed, .ask (refl s) rfl ?_ ?_, fun w _ => rfl⟩
  · intro a t
    exact ⟨_, rfl, rfl⟩
  · intro o t ht
    refine .closed fun u hu => ?_
    rw [ht] at hu
    cases hu
    exact refl t

theorem Scripted.bind {g : β → Option Value} {k : Walker → α → Eval β}
    (trans : ∀ ⦃s t u⦄, R s t → R t u → R s u) (hm : Scripted Untold R m s)
    (hk : ∀ a t, Scripted g R (fun w => k w a) t) : Scripted g R (fun w => m w >>= k w) s := by
  intro n
  obtain ⟨τ, hτ, hrun⟩ := hm n
  choose σ hσ hrest using fun a t => hk a t n
  refine ⟨τ.bind σ, hτ.bind trans hσ, fun w hw => ?_⟩
  show Eval.bind (m w) (k w) s = _
  unfold Eval.bind
  rw [Script.run_bind, hrun w hw]
  cases τ.run w with
  | done a t => exact hrest a t w hw
  | unwound u t => rfl
  | exhausted => rfl

/-- Around a step there may be what takes it from another state and takes up its outcome. -/
theorem Scripted.around {f' : β → Option Value} {m' : Walker → Eval β} {inner : State}
    (trans : ∀ ⦃s t u⦄, R s t → R t u → R s u) (h : Scripted f R m inner) (hinner : R s inner)
    (g : Outcome α → Outcome β) (hm' : ∀ w, m' w s = g (m w inner))
    (hnone : g .exhausted = .exhausted)
    (hgiven : ∀ r a, r.given? f = some a → (g r).given? f' = some a)
    (hstate : ∀ r t, (g r).state? = some t → ∃ u, r.state? = some u ∧ R u t) :
    Scripted f' R m' s := by
  intro n
  obtain ⟨τ, hτ, hrun⟩ := h n
  refine ⟨τ.map g, (hτ.map trans hnone hgiven hstate).after trans hinner, fun w hw => ?_⟩
  rw [hm', hrun w hw, Script.run_map]

/-- What can end a step can end it wherever a value is told. -/
theorem Scripted.told (h : Scripted Untold R m s) : Scripted f R m s := by
  intro n
  obtain ⟨τ, hτ, hrun⟩ := h n
  refine ⟨τ, ?_, hrun⟩
  clear hrun h
  induction hτ with
  | closed hr => exact .closed hr
  | ask hfirst hnone hreturn hnext ih =>
    refine .ask hfirst hnone ?_ ih
    intro a t
    obtain ⟨r, hr, hgiven⟩ := hreturn a t
    obtain ⟨u, rfl⟩ := Outcome.given?_untold hgiven
    exact ⟨_, hr, rfl⟩

theorem Scripted.ite {c : Prop} [Decidable c] {m' : Walker → Eval α} (h : Scripted f R m s)
    (h' : Scripted f R m' s) : Scripted f R (fun w => if c then m w else m' w) s := by
  by_cases hc : c
  · simpa only [if_pos hc] using h
  · simpa only [if_neg hc] using h'

/-! ### What is asked -/

variable {v w : Walker} {p : Part} {s' : State} {x y : Part × State}

theorem asked_iff {n : Nat} {τ : Script α} (hτ : τ.Fair f R s)
    (hrun : ∀ w : Walker, w.rounds = n → m w s = τ.run w) (hw : w.rounds = n) :
    Asked m w s x.1 x.2 ↔ x ∈ τ.asked w := by
  constructor
  · rintro ⟨v, hv, hne⟩
    by_contra hx
    apply hne
    rw [hrun v (hv.1.trans hw), hrun w hw]
    apply Script.run_of_agree
    intro y hy
    apply hv.2
    rintro ⟨hpart, hstate⟩
    exact hx (Prod.ext hpart hstate ▸ hy)
  · intro hx
    -- Not both of two values can be that with which the step ends anyway.
    obtain ⟨v, hv, hnull⟩ := hτ.given hx .null
    obtain ⟨v', hv', htrue⟩ := hτ.given hx (.bool true)
    rw [← hrun v (hv.1.trans hw)] at hnull
    rw [← hrun v' (hv'.1.trans hw)] at htrue
    by_cases heq : m v s = m w s
    · refine ⟨v', hv', fun heq' => ?_⟩
      rw [heq', ← heq, hnull] at htrue
      cases htrue
    · exact ⟨v, hv, heq⟩

/-- What a step asks is asked too if something follows the step. -/
theorem Scripted.asked_bind {k : Walker → α → Eval β} (h : Scripted Untold R m s)
    (hasked : Asked m w s p s') : Asked (fun w => m w >>= k w) w s p s' := by
  obtain ⟨τ, hτ, hrun⟩ := h w.rounds
  have hx := (asked_iff (x := (p, s')) hτ hrun rfl).1 hasked
  have hends : ∀ a, ∃ v t, w.Varies v p s' ∧ (m v >>= k v) s = .unwound (.return a) t := by
    intro a
    obtain ⟨v, hv, hgiven⟩ := hτ.given hx a
    rw [← hrun v hv.1] at hgiven
    obtain ⟨t, ht⟩ := Outcome.given?_untold hgiven
    refine ⟨v, t, hv, ?_⟩
    show Eval.bind (m v) (k v) s = _
    unfold Eval.bind
    rw [ht]
  obtain ⟨v, t, hv, hnull⟩ := hends .null
  obtain ⟨v', t', hv', htrue⟩ := hends (.bool true)
  by_cases heq : (m v >>= k v) s = (m w >>= k w) s
  · refine ⟨v', hv', fun heq' => ?_⟩
    change (m v' >>= k v') s = (m w >>= k w) s at heq'
    rw [htrue, ← heq, hnull] at heq'
    cases heq'
  · exact ⟨v, hv, heq⟩

namespace Scripted

variable (h : Scripted f R m s)

include h

/-- A step ends in the same way with all walkers that agree on what it asks. -/
theorem agree (hrounds : v.rounds = w.rounds)
    (hagree : ∀ p s', Asked m w s p s' → v.ask p s' = w.ask p s') : m v s = m w s := by
  obtain ⟨τ, hτ, hrun⟩ := h w.rounds
  rw [hrun v hrounds, hrun w rfl]
  apply Script.run_of_agree
  intro x hx
  exact hagree x.1 x.2 ((asked_iff hτ hrun rfl).2 hx)

/-- What a step asks can end it, with any value. -/
theorem given (hasked : Asked m w s p s') (a : Value) :
    ∃ v, w.Varies v p s' ∧ (m v s).given? f = some a := by
  obtain ⟨τ, hτ, hrun⟩ := h w.rounds
  obtain ⟨v, hv, hgiven⟩ := hτ.given ((asked_iff (x := (p, s')) hτ hrun rfl).1 hasked) a
  refine ⟨v, hv, ?_⟩
  rw [hrun v hv.1]
  exact hgiven

/-- A step has no outcome if it asks what has none. -/
theorem exhausted (hasked : Asked m w s p s') (hanswer : w.ask p s' = .exhausted) :
    m w s = .exhausted := by
  obtain ⟨τ, hτ, hrun⟩ := h w.rounds
  rw [hrun w rfl]
  exact hτ.exhausted ((asked_iff (x := (p, s')) hτ hrun rfl).1 hasked) hanswer

/-- Of two parts that a step asks about one is asked about first. -/
theorem order (hx : Asked m w s x.1 x.2) (hy : Asked m w s y.1 y.2) :
    x = y ∨ Before m w s x y ∨ Before m w s y x := by
  obtain ⟨τ, hτ, hrun⟩ := h w.rounds
  have hmemx := (asked_iff hτ hrun rfl).1 hx
  have hmemy := (asked_iff hτ hrun rfl).1 hy
  obtain ⟨before, behind, hsplit, hnot, hleft⟩ := hτ.asked_divert hmemx
  obtain ⟨before', behind', hsplit', hnot', hleft'⟩ := hτ.asked_divert hmemy
  by_cases hyx : y ∈ before
  · -- Up to `y` there is no `x` then.
    refine Or.inr (Or.inr ⟨hy, hx, fun hasked => ?_⟩)
    rw [asked_iff hτ hrun (w.varies_divert _ _ _).1, hleft'] at hasked
    rcases List.append_eq_append_iff.1 (hsplit.symm.trans hsplit') with ⟨l, hl, -⟩ | ⟨l, hl, -⟩
    · exact hnot' (hl ▸ List.mem_append_left l hyx)
    · rcases List.mem_append.1 hasked with hmem | hmem
      · exact hnot (hl ▸ List.mem_append_left l hmem)
      · exact hnot (List.mem_singleton.1 hmem ▸ hyx)
  · by_cases heq : x = y
    · exact Or.inl heq
    · refine Or.inr (Or.inl ⟨hx, hy, fun hasked => ?_⟩)
      rw [asked_iff hτ hrun (w.varies_divert _ _ _).1, hleft] at hasked
      rcases List.mem_append.1 hasked with hmem | hmem
      · exact hyx hmem
      · exact heq (List.mem_singleton.1 hmem).symm

/-! ### From moment to moment -/

variable (trans : ∀ ⦃s t u⦄, R s t → R t u → R s u)
  (hw : ∀ p s', Asked m w s p s' → ∀ e, (w.ask p s').state? = some e → R s' e)

include trans hw

/-- From the beginning of a step to its end. -/
theorem outcome {t : State} (ht : (m w s).state? = some t) : R s t := by
  obtain ⟨τ, hτ, hrun⟩ := h w.rounds
  rw [hrun w rfl] at ht
  exact hτ.outcome trans (fun x hx => hw x.1 x.2 ((asked_iff hτ hrun rfl).2 hx)) ht

/-- From the beginning to what is asked. -/
theorem outset (hasked : Asked m w s p s') : R s s' := by
  obtain ⟨τ, hτ, hrun⟩ := h w.rounds
  have hx := (asked_iff (x := (p, s')) hτ hrun rfl).1 hasked
  exact hτ.outset trans (fun x hx => hw x.1 x.2 ((asked_iff hτ hrun rfl).2 hx)) hx

/-- From an answer to the end. -/
theorem back (hasked : Asked m w s p s') {e t : State} (he : (w.ask p s').state? = some e)
    (ht : (m w s).state? = some t) : R e t := by
  obtain ⟨τ, hτ, hrun⟩ := h w.rounds
  have hx := (asked_iff (x := (p, s')) hτ hrun rfl).1 hasked
  rw [hrun w rfl] at ht
  exact hτ.back trans (fun x hx => hw x.1 x.2 ((asked_iff hτ hrun rfl).2 hx)) hx he ht

/-- From an answer to what is asked behind it. -/
theorem across (hxy : Before m w s x y) {e : State} (he : (w.ask x.1 x.2).state? = some e) :
    R e y.2 := by
  obtain ⟨τ, hτ, hrun⟩ := h w.rounds
  obtain ⟨before, behind, hsplit, hnot, hleft⟩ := hτ.asked_divert ((asked_iff hτ hrun rfl).1 hxy.first)
  have hpairs := hτ.across trans fun x hx => hw x.1 x.2 ((asked_iff hτ hrun rfl).2 hx)
  have hy := (asked_iff hτ hrun rfl).1 hxy.second
  have hwaits := hxy.waits
  rw [asked_iff hτ hrun (w.varies_divert _ _ _).1, hleft] at hwaits
  rw [hsplit] at hpairs hy
  rcases List.mem_append.1 hy with hbefore | hbehind
  · exact absurd (List.mem_append_left _ hbefore) hwaits
  · rcases List.mem_cons.1 hbehind with rfl | hbehind
    · exact absurd (List.mem_append_right _ List.mem_cons_self) hwaits
    · exact (List.pairwise_cons.1 (List.pairwise_append.1 hpairs).2.1).1 y hbehind e he

end Scripted

end Walker

end SmallScript
