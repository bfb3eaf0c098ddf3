/-
  What an evaluation does to its state.

  Frames and memory are changed in few ways, and each has a name here.  Calls and blocks take a step
  in a new frame.  The scope is put back behind it, and a level that was counted is taken back; since
  the step itself keeps its depth, what they leave is what it leaves, back where they began.
-/
import SmallScript.Proofs.Evaluation.Restoration

namespace SmallScript

/-! ## Changes -/

namespace State

/-- The state in another world. -/
def inWorld (s : State) (w : World) : State := { s with world := w }

/-- The state in which something else is remembered of nodes. -/
def remembering (s : State) (m : Memo) : State := { s with memo := m }

/-- The state with a name bound in a frame. -/
def bound (s : State) (f : FrameRef) (x : String) (v : Value) : State :=
  { s with frames := s.frames.define f x v }

/-- The state in a new frame inside `parent`, in which some names are bound. -/
def entered (s : State) (parent : Scope) (bindings : Bindings) (depth : Nat) : State :=
  let (scope, frames) := s.frames.openChild parent
  { s with frames := frames.defineAll scope.frame bindings, scope, depth }

/-- The state in another scope and at another depth. -/
def placed (s : State) (scope : Scope) (depth : Nat) : State := { s with scope, depth }

/-- The state `t`, back where the state `s` is. -/
def back (s t : State) : State := t.placed s.scope s.depth

theorem size_bound (s : State) (f : FrameRef) (x : String) (v : Value) :
    (s.bound f x v).frames.bags.size = s.frames.bags.size :=
  Frames.size_define _ _ _ _

section Entered

variable (s : State) (parent : Scope) (bindings : Bindings) (depth : Nat)

theorem chain_entered :
    (s.entered parent bindings depth).scope.chain = ⟨s.frames.bags.size⟩ :: parent.chain :=
  rfl

theorem size_entered :
    (s.entered parent bindings depth).frames.bags.size = s.frames.bags.size + 1 := by
  change (Frames.defineAll _ bindings (s.frames.openChild parent).2).bags.size = _
  rw [Frames.size_defineAll, Frames.size_openChild]

/-- The frames that are there see nothing of a new one. -/
theorem local?_entered {g : FrameRef} (hg : g.index < s.frames.bags.size) (x : String) :
    (s.entered parent bindings depth).frames.local? g x = s.frames.local? g x := by
  have hne : (⟨s.frames.bags.size⟩ : FrameRef) ≠ g := by
    rintro rfl
    exact Nat.lt_irrefl _ hg
  have hopened := s.frames.local?_openChild parent g x
  rw [← hopened]
  exact Frames.local?_defineAll_of_ne hne bindings _ x

end Entered

end State

/-! ## Steps in order -/

/-- Steps can be taken together in any way. -/
instance : LawfulMonad Eval := by
  refine .mk' Eval ?_ (fun _ _ => rfl) ?_
  · intro α x
    funext s
    show Eval.bind x _ s = x s
    unfold Eval.bind
    cases x s <;> rfl
  · intro α β γ x f g
    funext s
    show Eval.bind (Eval.bind x f) g s = Eval.bind x (fun a => Eval.bind (f a) g) s
    unfold Eval.bind
    cases x s <;> rfl

/-- Two steps are done if both are. -/
theorem Eval.bind_eq_done {α β : Type} {x : Eval α} {f : α → Eval β} {s t : State} {b : β} :
    (x >>= f) s = .done b t ↔ ∃ a u, x s = .done a u ∧ f a u = .done b t := by
  show Eval.bind x f s = .done b t ↔ _
  unfold Eval.bind
  constructor
  · intro h
    cases hr : x s with
    | done a u =>
      rw [hr] at h
      exact ⟨a, u, rfl, h⟩
    | _ =>
      rw [hr] at h
      cases h
  · rintro ⟨a, u, hx, hf⟩
    rw [hx]
    exact hf

/-- One step behind another is left early if the first is, or else the second. -/
theorem Eval.bind_eq_unwound {α β : Type} {x : Eval α} {f : α → Eval β} {s t : State}
    {u : Unwind} :
    (x >>= f) s = .unwound u t ↔
      x s = .unwound u t ∨ ∃ a s', x s = .done a s' ∧ f a s' = .unwound u t := by
  show Eval.bind x f s = .unwound u t ↔ _
  unfold Eval.bind
  cases x s with
  | done a s' =>
    constructor
    · exact fun h => Or.inr ⟨a, s', rfl, h⟩
    · rintro (h | ⟨_, _, hx, hf⟩)
      · cases h
      · cases hx
        exact hf
  | unwound u' t' => simp
  | exhausted => simp

/-! ## What a step leaves -/

/-- Changes of the state that agree on what is left leave the same. -/
theorem Outcome.onState_congr {α : Type} {f g : State → State} {r : Outcome α}
    (h : ∀ t, r.state? = some t → f t = g t) : r.onState f = r.onState g := by
  cases r with
  | done a t => exact congrArg (Outcome.done a) (h t rfl)
  | unwound u t => exact congrArg (Outcome.unwound u) (h t rfl)
  | exhausted => rfl

theorem Outcome.onState_onState {α : Type} (f g : State → State) (r : Outcome α) :
    (r.onState f).onState g = r.onState fun t => g (f t) := by
  cases r <;> rfl

/-- The outcome of what was done in a frame, back where the state `s` is. -/
def Outcome.back {α : Type} (s : State) (r : Outcome α) : Outcome α := r.onState s.back

theorem Outcome.state?_back {α : Type} (s : State) (r : Outcome α) :
    (r.back s).state? = r.state?.map s.back := by
  cases r <;> rfl

/-- The level that is taken back behind the body of a function is the one that was counted before. -/
theorem Eval.Steady.counted {α : Type} {m : Eval α} (h : m.Steady) (scope : Scope) (s : State) :
    Eval.counted (Eval.inScope scope m) s = (m { s with scope, depth := s.depth + 1 }).back s := by
  rw [counted_apply, inScope_apply, Outcome.onState_onState]
  refine Outcome.onState_congr fun t ht => ?_
  have hdepth : t.depth - 1 = s.depth := by
    rw [(h _ t ht).depth]
    exact Nat.add_sub_cancel _ _
  exact congrArg (t.placed s.scope) hdepth

/-- Whether it fails or not, a change of the world leaves the other world and nothing else. -/
theorem Eval.state?_tryWorld {α : Type} (f : World → Except Fault α × World) (s : State) :
    (Eval.tryWorld f s).state? = some (s.inWorld (f s.world).2) := by
  change (Eval.ofExcept (f s.world).1 (s.inWorld (f s.world).2)).state? = _
  cases (f s.world).1 with
  | ok a => rfl
  | error e => rfl

namespace Walker

variable {w : Walker} {config : Config}

theorem state?_contain (f : Fault) (s : State) : (contain config f s).state? = some s := by
  unfold contain
  split <;> rfl

/-- How a call takes the end of its body does not change the state. -/
theorem state?_finishCall (config : Config) (body : Eval Unit) (s : State) :
    (finishCall config body s).state? = (body s).state? := by
  unfold finishCall
  cases body s with
  | done a t => rfl
  | unwound u t =>
    cases u with
    | «return» v => rfl
    | jump j => exact state?_contain _ t
    | fault f => exact state?_contain f t
  | exhausted => rfl

/-- A call leaves the state in which it began, or that which its body leaves. -/
theorem state?_callClosure (hw : w.Steady) {c : Closure} {args : List Value} {s t : State}
    (h : (w.callClosure config c args s).state? = some t) :
    t = s ∨ ∃ u, s.back u = t ∧ (w.execAll c.decl.body.stmts
      (s.entered c.scope (c.decl.params.zip args) (s.depth + 1))).state? = some u := by
  rw [callClosure_apply] at h
  split at h
  · rw [state?_contain] at h
    exact Or.inl (Option.some.inj h).symm
  · right
    let opened := s.frames.openChild c.scope
    let inside : State :=
      { s with frames := opened.2.defineAll opened.1.frame (c.decl.params.zip args) }
    change (finishCall config (Eval.counted (Eval.inScope opened.1
      (w.execAll c.decl.body.stmts))) inside).state? = some t at h
    rw [state?_finishCall, (steady_execAll hw _).counted, Outcome.state?_back] at h
    obtain ⟨u, hu, hback⟩ := Option.map_eq_some_iff.1 h
    exact ⟨u, hback, hu⟩

end Walker

end SmallScript
