/-
  What a call leaves alone.

  A function sees the frames in which it was made, and what these and its arguments lead to; it
  does not see the frames of its caller.  So a frame that cannot be reached from the function, from
  its arguments or from what is remembered of literals is the same behind the call, however the call
  ends.

  The set of what can be reached (`State.Reaches`) is taken once, before the call, and is never
  brought up to date.  What is made during the call is added to it as a whole (`State.Near`), and the
  law says that an evaluation stays inside: whatever it comes to from something near is near, and
  the frames that are not near are as they were (`State.Confined`).
-/
import SmallScript.Proofs.Evaluation.Leads
import SmallScript.Proofs.Evaluation.Names

namespace SmallScript

/-! ## What can be reached -/

/-- What one can come to. -/
inductive Spot where
  | frame (g : FrameRef)
  | value (v : Value)

namespace State

/-- What can be reached in a state from some values and from the values and the lists that are
remembered of nodes: through the scopes of functions, the bindings of frames, and all that values
lead to in the heap. -/
inductive Reaches (s : State) (given : List Value) : Spot → Prop where
  | given {v : Value} : v ∈ given → Reaches s given (.value v)
  | literal {id : NodeId} {v : Value} :
      s.memo.literals.get? id = some v → Reaches s given (.value v)
  | list {id : NodeId} {r : ListRef} :
      s.memo.lists.get? id = some r → Reaches s given (.value (.list r))
  | captured {c : Closure} {g : FrameRef} :
      Reaches s given (.value (.function (.closure c))) → g ∈ c.scope.chain →
      Reaches s given (.frame g)
  | bound {g : FrameRef} {x : String} {v : Value} :
      Reaches s given (.frame g) → s.frames.local? g x = some v → Reaches s given (.value v)
  | stored {o v : Value} :
      Reaches s given (.value o) → s.world.heap.Leads o v → Reaches s given (.value v)

/-- What can be reached, or was not there yet; with the functions that were made near. -/
inductive Near (s : State) (given : List Value) : Spot → Prop where
  | reached {p : Spot} : s.Reaches given p → Near s given p
  | newFrame {g : FrameRef} : s.frames.bags.size ≤ g.index → Near s given (.frame g)
  | newValue {v : Value} : s.world.heap.Beyond v → Near s given (.value v)
  | newClosure {c : Closure} : (∀ g ∈ c.scope.chain, Near s given (.frame g)) →
      Near s given (.value (.function (.closure c)))

section Near

variable {s : State} {given : List Value}

theorem Near.captured {c : Closure} {g : FrameRef}
    (hc : s.Near given (.value (.function (.closure c)))) (hg : g ∈ c.scope.chain) :
    s.Near given (.frame g) := by
  cases hc with
  | reached hc => exact .reached (.captured hc hg)
  | newValue hc =>
    cases hc with
    | plain hc => cases hc
  | newClosure hscope => exact hscope g hg

theorem Near.bound {g : FrameRef} {x : String} {v : Value} (hg : s.Near given (.frame g))
    (hv : s.frames.local? g x = some v) : s.Near given (.value v) := by
  cases hg with
  | reached hg => exact .reached (.bound hg hv)
  | newFrame hg =>
    have hlt := Frames.lt_size_of_local? hv
    omega

theorem Near.stored {o v : Value} (ho : s.Near given (.value o)) (hv : s.world.heap.Leads o v) :
    s.Near given (.value v) := by
  cases ho with
  | reached ho => exact .reached (.stored ho hv)
  | newValue ho => exact .newValue (ho.leads hv)
  | newClosure hscope =>
    cases hv with
    | property hp => cases hp

end Near

/-! ## What is confined -/

/-- In `t`, all that is done since `s` was done to what is near: it leads only to what is near, and
the other frames are what they were. -/
structure Confined (s : State) (given : List Value) (t : State) : Prop where
  grows : s.world.heap.Grows t.world.heap
  size : s.frames.bags.size ≤ t.frames.bags.size
  kept {g : FrameRef} : ¬ s.Near given (.frame g) →
    ∀ x, t.frames.local? g x = s.frames.local? g x
  bound {g : FrameRef} {x : String} {v : Value} :
    s.Near given (.frame g) → t.frames.local? g x = some v → s.Near given (.value v)
  stored {o v : Value} :
    s.Near given (.value o) → t.world.heap.Leads o v → s.Near given (.value v)
  literal {id : NodeId} {v : Value} :
    t.memo.literals.get? id = some v → s.Near given (.value v)
  list {id : NodeId} {r : ListRef} :
    t.memo.lists.get? id = some r → s.Near given (.value (.list r))

/-- The frames of a scope are near. -/
def NearScope (s : State) (given : List Value) (scope : Scope) : Prop :=
  ∀ g ∈ scope.chain, s.Near given (.frame g)

namespace Confined

variable {s t : State} {given : List Value}

/-- Nothing is done yet. -/
theorem start (s : State) (given : List Value) : s.Confined given s where
  grows := .refl _
  size := Nat.le_refl _
  kept _ _ := rfl
  bound := Near.bound
  stored := Near.stored
  literal h := .reached (.literal h)
  list h := .reached (.list h)

/-- An act with what is near. -/
theorem act (ht : s.Confined given t) {v : Value} {w : World}
    {old : Heap} (h : World.Act old (fun v => s.Near given (.value v)) t.world v w) :
    s.Confined given (t.inWorld w) where
  grows := ht.grows.trans h.grows
  size := ht.size
  kept := ht.kept
  bound := ht.bound
  stored := by
    intro o p ho hp
    rcases h.leads hp with hp | hp | ⟨q, hq, hp⟩
    · exact ht.stored ho hp
    · exact hp
    · exact ht.stored hq hp
  literal := ht.literal
  list := ht.list

/-- What is had by an act is near. -/
theorem near_act (ht : s.Confined given t) {old : Heap} {A : Value → Prop} {v : Value} {w : World}
    (h : World.Act old A t.world v w) : s.Near given (.value v) :=
  .newValue (h.beyond.of_grows ht.grows)

/-- To bind something near in a frame that is near. -/
theorem bind (ht : s.Confined given t) {f : FrameRef} (hf : s.Near given (.frame f)) (x : String)
    {v : Value} (hv : s.Near given (.value v)) : s.Confined given (t.bound f x v) where
  grows := ht.grows
  size := by
    change _ ≤ (t.frames.define f x v).bags.size
    rw [Frames.size_define]
    exact ht.size
  kept := by
    intro g hg y
    have hne : ¬ (f = g ∧ x = y ∧ f.index < t.frames.bags.size) := by
      rintro ⟨rfl, -⟩
      exact hg hf
    change (t.frames.define f x v).local? g y = _
    rw [Frames.local?_define, if_neg hne]
    exact ht.kept hg y
  bound := by
    intro g y p hg hp
    change (t.frames.define f x v).local? g y = some p at hp
    rw [Frames.local?_define] at hp
    split at hp
    · cases hp
      exact hv
    · exact ht.bound hg hp
  stored := ht.stored
  literal := ht.literal
  list := ht.list

/-- To bind what is near in a new frame. -/
theorem entered (ht : s.Confined given t) (parent : Scope) {bindings : Bindings} (depth : Nat)
    (hbindings : ∀ b ∈ bindings, s.Near given (.value b.2)) :
    s.Confined given (t.entered parent bindings depth) where
  grows := ht.grows
  size := by
    rw [size_entered]
    have := ht.size
    omega
  kept := by
    intro g hg x
    have hlt : g.index < t.frames.bags.size := by
      have hsize := ht.size
      refine Nat.lt_of_lt_of_le (Nat.lt_of_not_le fun hge => hg (.newFrame hge)) hsize
    rw [local?_entered t parent bindings depth hlt]
    exact ht.kept hg x
  bound := by
    intro g x v hg hv
    rcases Frames.local?_defineAll hv with hold | ⟨b, hb, rfl⟩
    · exact ht.bound hg ((t.frames.local?_openChild parent g x).symm.trans hold)
    · exact hbindings b hb
  stored := ht.stored
  literal := ht.literal
  list := ht.list

/-- The new frame is near, whatever it is inside of. -/
theorem nearScope_entered (ht : s.Confined given t) {parent : Scope}
    (hparent : s.NearScope given parent) (bindings : Bindings) (depth : Nat) :
    s.NearScope given (t.entered parent bindings depth).scope := by
  intro g hg
  rw [chain_entered] at hg
  rcases List.mem_cons.1 hg with rfl | hg
  · exact .newFrame ht.size
  · exact hparent g hg

end Confined

end State

/-! ## The law -/

/-- An evaluation that begins among what is near stays there. -/
def confinement (s : State) (given : List Value) : Law where
  holds t := s.Confined given t ∧ s.NearScope given t.scope
  admits _ v := s.Near given (.value v)
  inside _ _ := True
  around _ _ := True

open State in
theorem confinement_sound (s : State) (given : List Value) : (confinement s given).Sound where
  refl _ := trivial
  trans _ _ := trivial
  widen _ := trivial
  chain _ _ := trivial
  keep _ hv := hv
  plain hv := .newValue (.plain hv)
  name := by
    intro t x v ht hv
    obtain ⟨g, hg, hlocal⟩ := Frames.local?_of_read hv
    exact ht.1.bound (ht.2 g hg) hlocal
  lead ht ho hv := ht.1.stored ho hv
  literal ht hv := ht.1.literal hv
  list ht hr := ht.1.list hr
  act htu h := ⟨⟨⟨htu.holds.1.act h, htu.holds.2⟩, trivial⟩, htu.holds.1.near_act h, fun _ hp => hp⟩
  closure := by
    intro t name decl ht made u
    have hconfined : s.Confined given u :=
      { ht.1 with
        grows := ht.1.grows.trans (.newClosure _ name t.scope decl)
        stored := fun ho hl => ht.1.stored ho (Heap.leads_of_newClosure _ name t.scope decl hl) }
    exact ⟨⟨⟨hconfined, ht.2⟩, trivial⟩, .newClosure ht.2⟩
  putLiteral := by
    intro t id v ht _ hv
    have hliteral : ∀ {j a}, (t.memo.literals.put id v).get? j = some a →
        s.Near given (.value a) := by
      intro j a ha
      rw [Assoc.get?_put] at ha
      split at ha
      · cases ha
        exact hv
      · exact ht.1.literal ha
    exact ⟨⟨{ ht.1 with literal := hliteral }, ht.2⟩, trivial⟩
  putList := by
    intro t id r ht _ hr
    have hlist : ∀ {j q}, (t.memo.lists.put id r).get? j = some q →
        s.Near given (.value (.list q)) := by
      intro j q hq
      rw [Assoc.get?_put] at hq
      split at hq
      · cases hq
        exact hr
      · exact ht.1.list hq
    exact ⟨⟨{ ht.1 with list := hlist }, ht.2⟩, trivial⟩
  putDefined _ ht := ⟨⟨{ ht.1 with }, ht.2⟩, trivial⟩
  assign := by
    intro t u x v ht htu hv
    have htarget := ht.2 _ (t.frames.assigns_owner t.scope x).mem_chain
    exact ⟨⟨htu.holds.1.bind htarget x hv, htu.holds.2⟩, trivial⟩
  define := by
    intro t x v ht hv
    exact ⟨⟨ht.1.bind (ht.2 _ List.mem_cons_self) x hv, ht.2⟩, trivial⟩
  enter := by
    intro t parent bindings depth ht hparent hbindings
    have hnear : s.NearScope given parent := by
      rcases hparent with rfl | ⟨c, rfl, hc⟩
      · exact ht.2
      · exact fun g hg => hc.captured hg
    exact ⟨ht.1.entered parent depth hbindings, ht.1.nearScope_entered hnear bindings depth⟩
  leave := by
    intro t u parent bindings depth _ ht htu
    exact ⟨⟨⟨{ htu.holds.1 with }, ht.2⟩, trivial⟩, fun _ hv => hv⟩

/-! ## Calls -/

/-- **The frames of a caller are private.**  A frame that is there before a call, and cannot be
reached from the function, its arguments and what is remembered of literals, binds the same names to
the same values behind the call, however it ends.  Besides native functions there may be those of an
embedder, if it is modest. -/
theorem unreached_frames_kept (config : Config) (hhost : config.host.Modest) (n : Nat)
    (f : Callable) (args : List Value) (s t : State)
    (h : ((walker config n).call config f args s).state? = some t) (g : FrameRef)
    (hthere : g.index < s.frames.bags.size)
    (hfar : ¬ s.Reaches (.function f :: args) (.frame g)) :
    ∀ x, t.frames.local? g x = s.frames.local? g x := by
  intro x
  let given := Value.function f :: args
  have hnear : ¬ s.Near given (.frame g) := by
    intro hg
    cases hg with
    | reached hg => exact hfar hg
    | newFrame hg => omega
  have hstart := State.Confined.start s given
  have hgiven : ∀ v ∈ given, s.Near given (.value v) := fun v hv => .reached (.given hv)
  unfold Walker.call at h
  split at h
  · cases f with
    | native op =>
      change (Eval.tryWorld (op.invoke args) s).state? = some t at h
      rw [Eval.state?_tryWorld] at h
      cases h
      rfl
    | host f =>
      change (Eval.tryWorld (config.host.invoke f args) s).state? = some t at h
      rw [Eval.state?_tryWorld] at h
      cases h
      rfl
    | closure c =>
      rcases Walker.state?_callClosure (steady_walker config n) h with rfl | ⟨u, rfl, hu⟩
      · rfl
      · have hscope : s.NearScope given c.scope := by
          intro k hk
          exact (hgiven _ List.mem_cons_self).captured hk
        have hbindings : ∀ b ∈ c.decl.params.zip args, s.Near given (.value b.2) := by
          intro b hb
          exact hgiven b.2 (List.mem_cons_of_mem _ (List.of_mem_zip hb).2)
        have hsound := confinement_sound s given
        have hwalker := hsound.kept_walker (hsound.covers hhost) n
        have hbody := hsound.fits_execAll hwalker c.decl.body.stmts
          ⟨hstart.entered c.scope (s.depth + 1) hbindings, hstart.nearScope_entered hscope _ _⟩
        exact (hbody.state hu).holds.1.kept hnear x
  · cases h
    rfl

/-- The function `fn () { a = true; fn b() {} c.d; }`, made in the global scope. -/
def meddling : Closure where
  id := 0
  name := ""
  scope := ⟨⟨0⟩, []⟩
  decl :=
    { params := []
      body :=
        { stmts :=
            [.assign default ⟨"a", default⟩ (.bool default true),
              .define default default ⟨"b", default⟩ ⟨[], ⟨[], default⟩⟩,
              .expr (.property default (.name default "c") ⟨"d", default⟩)]
          span := default } }

/-- A frame that binds `a` and `b`, inside a global frame that binds `c`. -/
def besideMeddling : State where
  world := {}
  frames := ⟨#[⟨[("c", .int 1)]⟩, ⟨[("a", .null), ("b", .null)]⟩]⟩
  memo := {}
  scope := ⟨⟨1⟩, [⟨0⟩]⟩
  globals := ⟨⟨0⟩, []⟩
  depth := 0

/-- From the function one comes to the global frame and to what it binds, and no further. -/
theorem reaches_meddling {p : Spot}
    (h : besideMeddling.Reaches [.function (.closure meddling)] p) :
    p = .value (.function (.closure meddling)) ∨ p = .frame ⟨0⟩ ∨ p = .value (.int 1) := by
  induction h with
  | given hv => exact Or.inl (congrArg Spot.value (List.mem_singleton.1 hv))
  | literal h => cases h
  | list h => cases h
  | captured _ hg ih =>
    rcases ih with ih | ih | ih
    · cases ih
      exact Or.inr (Or.inl (congrArg Spot.frame (List.mem_singleton.1 hg)))
    · cases ih
    · cases ih
  | @bound g x v _ hv ih =>
    rcases ih with ih | ih | ih
    · cases ih
    · cases ih
      have hmem : (x, v) ∈ [("c", Value.int 1)] := Assoc.mem_of_get? hv
      cases List.mem_singleton.1 hmem
      exact Or.inr (Or.inr rfl)
    · cases ih
  | stored _ hl ih =>
    rcases ih with ih | ih | ih
    · cases ih
      cases hl with
      | property hp => cases hp
    · cases ih
    · cases ih
      cases hl with
      | property hp => cases hp

/-- The caller's `a` and `b` are what they were, though the function assigns and defines these names
before it fails. -/
theorem frames_kept_by_meddling : ∃ t,
    ((walker {} 5).call {} (.closure meddling) [] besideMeddling) = .done .null t ∧
      ¬ besideMeddling.Reaches [.function (.closure meddling)] (.frame ⟨1⟩) ∧
      t.frames.bags.size = 3 ∧
      ∀ x, t.frames.local? ⟨1⟩ x = besideMeddling.frames.local? ⟨1⟩ x := by
  have hfar : ¬ besideMeddling.Reaches [.function (.closure meddling)] (.frame ⟨1⟩) := by
    intro h
    rcases reaches_meddling h with h | h | h <;> cases h
  refine ⟨_, rfl, hfar, rfl, ?_⟩
  exact unreached_frames_kept {} Host.bare_modest 5 (.closure meddling) [] besideMeddling _ rfl ⟨1⟩
    (by decide) hfar

end SmallScript
