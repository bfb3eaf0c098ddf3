/-
  What a law says of every moment.

  A law says that all evaluations from a lawful state leave a lawful state behind.  The moments in
  between are lawful too: a part is asked about only in a lawful state.

  Again nothing has to be followed through the evaluator.  Suppose a part were asked about in a state
  that is not lawful.  Then a walker that gives another answer there, and nowhere else, keeps to the
  law as well, for the law asks nothing of answers in such a state.  But the answer could end the
  task with a value that the law never admits.
-/
import SmallScript.Proofs.Evaluation.Law
import SmallScript.Proofs.Evaluation.Reliance

namespace SmallScript

/-- The values that a task is given from outside are admitted. -/
def Law.AdmitsTask (L : Law) (s : State) : Task → Prop
  | .part _ => True
  | .call f args => L.admits s (.function f) ∧ ∀ a ∈ args, L.admits s a

namespace Law

open Walker

variable {L : Law} {config : Config} {w : Walker} {s : State}

/-- A value that a lawful outcome was ended with is admitted in a lawful state. -/
theorem Fits.given {α : Type} {R : State → State → Prop} {P : State → α → Prop} {r : Outcome α}
    {f : α → Option Value} {a : Value} (h : L.Fits R P s r)
    (hP : ∀ t x, P t x → f x = some a → L.admits t a) (ha : r.given? f = some a) :
    ∃ t, L.holds t ∧ L.admits t a := by
  cases h with
  | @done x t hst hx => exact ⟨t, hst.holds, hP t x hx ha⟩
  | @unwound u t hst hv =>
    cases u with
    | «return» b =>
      cases ha
      exact ⟨t, hst.holds, hv a rfl⟩
    | jump j => cases ha
    | fault e => cases ha
  | exhausted => cases ha

namespace Sound

/-- A task from a lawful state leaves a lawful state behind. -/
theorem allows_perform (hL : L.Sound) (hhost : L.Covers config.host) (hw : L.Kept w)
    (hs : L.holds s) {q : Task} (hq : L.AdmitsTask s q) {t : State}
    (ht : (w.perform config q s).state? = some t) :
    L.Allows L.around s t := by
  cases q with
  | part p =>
    cases p with
    | expr e =>
      have hfits : L.Fits L.inside L.admits s (w.evaluate config e s) := hL.fits_evaluate hhost hw hs e
      have hst := hfits.state ht
      exact ⟨hst.holds, hL.widen hst.related⟩
    | stmt stmt => exact (hL.fits_execute hw hs stmt).state ht
  | call f args =>
    have hfits : L.Fits L.inside L.admits s (w.call config f args s) :=
      hL.fits_call hhost hw hs hq.1 hq.2
    have hst := hfits.state ht
    exact ⟨hst.holds, hL.widen hst.related⟩

/-- Parts are asked about in lawful states, if there is a value that is never admitted. -/
theorem holds_asked (hL : L.Sound) (hhost : L.Covers config.host) {never : Value}
    (hnever : ∀ t, L.holds t → ¬ L.admits t never)
    (hw : L.Kept w) (hs : L.holds s) {q : Task} (hq : L.AdmitsTask s q) {p : Part} {s' : State}
    (h : w.Asks config q s p s') : L.holds s' := by
  refine Classical.byContradiction fun hs' => ?_
  have hvaried : ∀ v, w.Varies v p s' → L.Kept v := by
    intro v hv
    refine ⟨fun {t} e ht => ?_, fun {t} stmt ht => ?_⟩
    · have hsame : v.eval e t = w.eval e t := hv.2 (.expr e) t (by rintro ⟨-, rfl⟩; exact hs' ht)
      rw [hsame]
      exact hw.eval e ht
    · have hsame : v.exec stmt t = w.exec stmt t :=
        hv.2 (.stmt stmt) t (by rintro ⟨-, rfl⟩; exact hs' ht)
      rw [hsame]
      exact hw.exec stmt ht
  have hadmitted : ∃ t, L.holds t ∧ L.admits t never := by
    cases q with
    | part r =>
      cases r with
      | expr e =>
        obtain ⟨v, hv, hgiven⟩ := h.given never
        have hfits : L.Fits L.inside L.admits s (v.evaluate config e s) :=
          hL.fits_evaluate hhost (hvaried v hv) hs e
        exact hfits.given (fun t x hx hxa => Option.some.inj hxa ▸ hx) hgiven
      | stmt stmt =>
        obtain ⟨v, hv, hgiven⟩ := h.given never
        have hfits := hL.fits_execute (hvaried v hv) hs stmt
        exact hfits.given (f := Outcome.Untold) (fun t x _ hxa => nomatch hxa) hgiven
    | call f args =>
      obtain ⟨v, hv, hgiven⟩ := h.given never
      have hfits : L.Fits L.inside L.admits s (v.call config f args s) :=
        hL.fits_call hhost (hvaried v hv) hs hq.1 hq.2
      exact hfits.given (fun t x hx hxa => Option.some.inj hxa ▸ hx) hgiven
  obtain ⟨t, ht, hadmits⟩ := hadmitted
  exact hnever t ht hadmits

/-- **Every moment of a task is lawful.** -/
theorem holds_passes (hL : L.Sound) (hhost : L.Covers config.host) {never : Value}
    (hnever : ∀ t, L.holds t → ¬ L.admits t never) {n k : Nat} {q : Task} {t : State}
    (h : Passes config n q s k t) (hs : L.holds s) (hq : L.AdmitsTask s q) : L.holds t := by
  induction h with
  | start => exact hs
  | finish ht => exact (hL.allows_perform hhost (hL.kept_walker hhost _) hs hq ht).holds
  | inside hasks _ ih =>
    exact ih (hL.holds_asked hhost hnever (hL.kept_walker hhost _) hs hq hasks) trivial

end Sound

end Law

end SmallScript
