/-
  Scopes stand.

  A scope stands if its frames are there, and each was opened before those inside it.  From an
  interpreter that was started with the libraries, one never comes to a scope that does not stand:
  not between its uses, and not at any moment inside (`scopes_stand`).  So what is proved of states
  whose scope stands, as the meaning of assignments, is proved of all there are.
-/
import SmallScript.Proofs.Evaluation.Libraries
import SmallScript.Proofs.Evaluation.Moments

namespace SmallScript

/-! ## Scopes and values that stand -/

/-- The frames of a scope are among the first `size` frames, the nearest being the last. -/
structure Scope.Stands (s : Scope) (size : Nat) : Prop where
  frame : s.frame.index < size
  outward : s.chain.Pairwise fun f g => g.index < f.index

namespace Scope.Stands

variable {s : Scope} {m n : Nat}

theorem lt_size (h : s.Stands n) : ∀ f ∈ s.chain, f.index < n := by
  intro f hf
  rcases List.mem_cons.1 hf with rfl | hf
  · exact h.frame
  · have hlt := (List.pairwise_cons.1 h.outward).1 f hf
    exact Nat.lt_trans hlt h.frame

theorem mono (h : s.Stands m) (hmn : m ≤ n) : s.Stands n :=
  ⟨Nat.lt_of_lt_of_le h.frame hmn, h.outward⟩

/-- A scope inside one that stands. -/
theorem child (h : s.Stands n) : Scope.Stands ⟨⟨n⟩, s.chain⟩ (n + 1) :=
  ⟨Nat.lt_succ_self n, List.pairwise_cons.2 ⟨h.lt_size, h.outward⟩⟩

end Scope.Stands

/-- A function of a script stands if the scope does in which it was made. -/
def Value.Stands (n : Nat) : Value → Prop
  | .function (.closure c) => c.scope.Stands n
  | _ => True

namespace Value.Stands

variable {m n : Nat} {v : Value}

theorem mono (h : v.Stands m) (hmn : m ≤ n) : v.Stands n := by
  cases v with
  | function f =>
    cases f with
    | closure c => exact Scope.Stands.mono h hmn
    | _ => trivial
  | _ => trivial

/-- What is not in a heap is no function of a script. -/
theorem of_beyond {h : Heap} (hv : h.Beyond v) : v.Stands n := by
  cases hv with
  | plain hv => cases hv <;> trivial
  | _ => trivial

end Value.Stands

/-- Native functions stand wherever they are, and so does all that is made of no script. -/
theorem lasting_stands (n : Nat) : Heap.Lasting fun _ => Value.Stands n where
  mono _ hv := hv
  plain hv := by cases hv <;> trivial
  native _ := trivial
  act hact := .of_beyond hact.beyond

/-- All that values lead to stands. -/
def Heap.Stands (h : Heap) (n : Nat) : Prop := ∀ o v, h.Leads o v → v.Stands n

theorem Heap.Stands.act {n : Nat} {old : Heap} {w w' : World} {v : Value} (h : w.heap.Stands n)
    (hact : World.Act old (Value.Stands n) w v w') : w'.heap.Stands n :=
  Heap.All.act (P := fun _ => Value.Stands n) h (lasting_stands n) hact

/-! ## The law -/

/-- All scopes of a state stand. -/
structure State.Stands (s : State) : Prop where
  scope : s.scope.Stands s.frames.bags.size
  globals : s.globals.Stands s.frames.bags.size
  bound {g : FrameRef} {x : String} {v : Value} :
    s.frames.local? g x = some v → v.Stands s.frames.bags.size
  stored : s.world.heap.Stands s.frames.bags.size
  literal {id : NodeId} {v : Value} :
    s.memo.literals.get? id = some v → v.Stands s.frames.bags.size

theorem State.Stands.bind {s : State} (h : s.Stands) (f : FrameRef) (x : String) {v : Value}
    (hv : v.Stands s.frames.bags.size) : (s.bound f x v).Stands := by
  have hsize := s.size_bound f x v
  refine ⟨?_, ?_, fun {g y p} hp => ?_, ?_, fun hp => ?_⟩
  · rw [hsize]
    exact h.scope
  · rw [hsize]
    exact h.globals
  · rw [hsize]
    change (s.frames.define f x v).local? g y = some p at hp
    rw [Frames.local?_define] at hp
    split at hp
    · cases hp
      exact hv
    · exact h.bound hp
  · rw [hsize]
    exact h.stored
  · rw [hsize]
    exact h.literal hp

theorem State.Stands.entered {s : State} (h : s.Stands) {parent : Scope}
    (hparent : parent.Stands s.frames.bags.size) {bindings : Bindings} (depth : Nat)
    (hbindings : ∀ b ∈ bindings, b.2.Stands s.frames.bags.size) :
    (s.entered parent bindings depth).Stands := by
  have hsize := s.size_entered parent bindings depth
  have hle : s.frames.bags.size ≤ (s.entered parent bindings depth).frames.bags.size := by omega
  refine ⟨?_, h.globals.mono hle, fun {g x v} hv => ?_, fun o v hv => (h.stored o v hv).mono hle,
    fun hv => (h.literal hv).mono hle⟩
  · rw [hsize]
    exact hparent.child
  · rcases Frames.local?_defineAll hv with hold | ⟨b, hb, rfl⟩
    · have hold := (s.frames.local?_openChild parent g x).symm.trans hold
      exact (h.bound hold).mono hle
    · exact (hbindings b hb).mono hle

/-- All scopes stand, and frames are only opened. -/
def standing : Law where
  holds := State.Stands
  admits s v := v.Stands s.frames.bags.size
  inside s t := s.frames.bags.size ≤ t.frames.bags.size
  around s t := s.frames.bags.size ≤ t.frames.bags.size

theorem standing_sound : standing.Sound where
  refl _ := Nat.le_refl _
  trans := Nat.le_trans
  widen h := h
  chain := Nat.le_trans
  keep h hv := hv.mono h
  plain hv := by cases hv <;> trivial
  name := by
    intro s x v hs hv
    obtain ⟨g, -, hlocal⟩ := Frames.local?_of_read hv
    exact hs.bound hlocal
  lead hs _ hv := hs.stored _ _ hv
  literal hs hv := hs.literal hv
  list _ _ := trivial
  act := by
    intro s t v w hst hact
    have hstands : (t.inWorld w).Stands :=
      { hst.holds with stored := hst.holds.stored.act hact }
    exact ⟨⟨hstands, hst.related⟩, .of_beyond hact.beyond, fun _ hp => hp⟩
  closure := by
    intro s name decl hs made t
    have hstored : t.world.heap.Stands s.frames.bags.size :=
      fun o v hv => hs.stored o v (Heap.leads_of_newClosure _ name s.scope decl hv)
    exact ⟨⟨{ hs with stored := hstored }, Nat.le_refl _⟩, hs.scope⟩
  putLiteral := by
    intro s id v hs _ hv
    refine ⟨{ hs with literal := fun {j a} ha => ?_ }, Nat.le_refl _⟩
    change (s.memo.literals.put id v).get? j = some a at ha
    rw [Assoc.get?_put] at ha
    split at ha
    · cases ha
      exact hv
    · exact hs.literal ha
  putList hs _ _ := ⟨{ hs with }, Nat.le_refl _⟩
  putDefined _ hs := ⟨{ hs with }, Nat.le_refl _⟩
  assign := by
    intro s t x v _ hst hv
    have hsize := t.size_bound (s.frames.owner s.scope x) x v
    exact ⟨hst.holds.bind _ x hv, Nat.le_of_eq hsize.symm⟩
  define := by
    intro s x v hs hv
    have hsize := s.size_bound s.scope.frame x v
    exact ⟨hs.bind _ x hv, Nat.le_of_eq hsize.symm⟩
  enter := by
    intro s parent bindings depth hs hparent hbindings
    refine hs.entered ?_ depth hbindings
    rcases hparent with rfl | ⟨c, rfl, hc⟩
    · exact hs.scope
    · exact hc
  leave := by
    intro s t parent bindings depth _ hs hst
    have hsize := s.size_entered parent bindings depth
    have hle : s.frames.bags.size ≤ t.frames.bags.size := by
      have hrelated : (s.entered parent bindings depth).frames.bags.size ≤ t.frames.bags.size :=
        hst.related
      omega
    exact ⟨⟨{ hst.holds with scope := hs.scope.mono hle }, hle⟩, fun v hv => hv⟩

/-- A function whose scope has a frame inside itself; nothing that stands leads to it. -/
def unfounded : Value := .function (.closure ⟨0, "", ⟨⟨0⟩, [⟨0⟩]⟩, ⟨[], ⟨[], default⟩⟩⟩)

theorem not_stands_unfounded (n : Nat) : ¬ unfounded.Stands n := by
  intro h
  have hlt := (List.pairwise_cons.1 h.outward).1 ⟨0⟩ List.mem_cons_self
  exact Nat.lt_irrefl 0 hlt

/-! ## The first state -/

/-- A library that makes no functions of scripts; such a function does not stand where there is no
frame. -/
def Maker.Scriptless (make : Maker) : Prop :=
  ∀ h : Heap, h.Stands 0 → (∀ b ∈ (make h).1, b.2.Stands 0) ∧ (make h).2.Stands 0

theorem Library.scriptless_standard : Maker.Scriptless standard := by
  intro h hh
  obtain ⟨-, hheap, hbindings⟩ := keeps_standard (lasting_stands 0) h hh
  exact ⟨hbindings, hheap⟩

theorem Library.scriptless_sampler : Maker.Scriptless sampler := by
  intro h hh
  obtain ⟨-, hheap, hbindings⟩ := keeps_sampler (lasting_stands 0) h hh
  exact ⟨hbindings, hheap⟩

theorem Maker.scriptless_makeAll {makers : List Maker} (hmakers : ∀ make ∈ makers, make.Scriptless) :
    Maker.Scriptless (makeAll makers) := by
  induction makers with
  | nil => exact fun h hh => ⟨(fun b hb => nomatch hb), hh⟩
  | cons make makers ih =>
    intro h hh
    obtain ⟨hfirst, hheap⟩ := hmakers make List.mem_cons_self h hh
    obtain ⟨hrest, hlast⟩ := ih (fun m hm => hmakers m (List.mem_cons_of_mem make hm)) _ hheap
    refine ⟨fun b hb => ?_, hlast⟩
    rcases List.mem_append.1 hb with hb | hb
    · exact hfirst b hb
    · exact hrest b hb

theorem stands_start {libraries : List Maker} (h : ∀ make ∈ libraries, make.Scriptless)
    (console : Console) (clock : Clock) : (State.start libraries console clock).Stands := by
  obtain ⟨hbindings, hheap⟩ := Maker.scriptless_makeAll h {} (Heap.all_empty (lasting_stands 0))
  let s := State.start libraries console clock
  have hsize : s.frames.bags.size = 1 := Frames.size_defineAll _ _ _
  have hglobals : s.globals.Stands s.frames.bags.size := by
    rw [hsize]
    exact ⟨Nat.zero_lt_one, List.pairwise_singleton _ _⟩
  refine ⟨hglobals, hglobals, fun {g x v} hv => ?_, fun o v hv => ?_, fun hv => nomatch hv⟩
  · rcases Frames.local?_defineAll hv with hold | ⟨b, hb, rfl⟩
    · have hnone := (Frames.local?_openFrame {} [] g x).symm.trans hold
      exact absurd (Frames.lt_size_of_local? hnone) (Nat.not_lt_zero _)
    · exact (hbindings b hb).mono (Nat.zero_le _)
  · exact (hheap o v hv).mono (Nat.zero_le _)

/-! ## Every moment -/

/-- **Scopes stand.**  All scopes stand in the first state of an interpreter with the libraries; a
program leaves them so, and so does every other task, at each moment: a single statement or
expression, or a call of a function that stands with arguments that do.  An embedder that brings
functions has to be modest. -/
theorem scopes_stand (config : Config) (hhost : config.host.Modest) :
    (∀ libraries console clock,
      (∀ make ∈ libraries, make = Library.standard ∨ make = Library.sampler) →
      (State.start libraries console clock).Stands) ∧
    (∀ p s t, s.Stands → (Interpreter.run config p s).state? = some t → t.Stands) ∧
    (∀ n q s k t, s.Stands → standing.AdmitsTask s q → Passes config n q s k t → t.Stands) := by
  have hcovers := standing_sound.covers hhost
  refine ⟨?_, ?_, ?_⟩
  · intro libraries console clock h
    refine stands_start (fun make hmake => ?_) console clock
    rcases h make hmake with rfl | rfl
    · exact Library.scriptless_standard
    · exact Library.scriptless_sampler
  · intro p s t hs ht
    have hready : s.ready.Stands := { hs with scope := hs.globals, literal := fun hv => nomatch hv }
    have hw := standing_sound.kept_walker hcovers Interpreter.levels
    exact ((standing_sound.fits_execAll hw p.stmts hready).state ht).holds
  · intro n q s k t hs hq h
    have hnever : ∀ t, standing.holds t → ¬ standing.admits t unfounded :=
      fun t _ => not_stands_unfounded _
    exact standing_sound.holds_passes hcovers hnever h hs hq

end SmallScript
