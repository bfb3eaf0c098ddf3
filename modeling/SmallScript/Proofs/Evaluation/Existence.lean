/-
  What is held exists.

  An object is a place in the heap, and objects are told apart by their places.  That one that is
  made differs from all there were needs that no value speaks of a place that is yet to be taken.
  So it is: whatever is bound in a frame, led to by something, or remembered of a literal is in the
  heap if it is an object (`State.Whole`), from the start and at each moment (`objects_exist`).

  Moments are spoken of by a law together with another one, that scopes stand, since there has to be
  a value that is never admitted; in some later heap each object may exist.
-/
import SmallScript.Proofs.Evaluation.Standing

namespace SmallScript

/-! ## Values that exist -/

/-- If the value is an object, then it is in the heap. -/
def Value.Exists (h : Heap) (v : Value) : Prop := ∀ r, v = .object r → r.index < h.objects.size

theorem Value.Exists.mono {h k : Heap} {v : Value} (hv : v.Exists h) (hk : h.Grows k) :
    v.Exists k :=
  fun r hr => Nat.lt_of_lt_of_le (hv r hr) hk.objects

/-- What is had by an act exists. -/
theorem World.Act.exists {old : Heap} {A : Value → Prop} {w w' : World} {v : Value}
    (h : Act old A w v w') :
    v.Exists w'.heap := by
  intro r hr
  cases h with
  | object b hb =>
    cases hr
    change w.heap.objects.size < (w.heap.objects.push b).size
    rw [Array.size_push]
    exact Nat.lt_succ_self _
  | _ => cases hr

theorem lasting_exists : Heap.Lasting Value.Exists where
  mono hk hv := hv.mono hk
  plain hv := by
    intro r hr
    cases hr
    cases hv
  native op := by
    intro r hr
    cases hr
  act hact := hact.exists

/-! ## The law -/

/-- A value that is bound in a frame, led to by something or remembered of a literal. -/
inductive State.Holds (s : State) : Value → Prop where
  | bound {g : FrameRef} {x : String} {v : Value} : s.frames.local? g x = some v → Holds s v
  | stored {o v : Value} : s.world.heap.Leads o v → Holds s v
  | literal {id : NodeId} {v : Value} : s.memo.literals.get? id = some v → Holds s v

namespace State.Holds

variable {s t : State} {p v : Value}

theorem of_same (hp : t.Holds p) (hframes : t.frames = s.frames)
    (hheap : t.world.heap = s.world.heap) (hliterals : t.memo.literals = s.memo.literals) :
    s.Holds p := by
  cases hp with
  | bound hp => exact .bound (hframes ▸ hp)
  | stored hp => exact .stored (hheap ▸ hp)
  | literal hp => exact .literal (hliterals ▸ hp)

/-- Behind an act nothing more is held than what was held or at hand. -/
theorem of_act {old : Heap} {A : Value → Prop} {w : World} (hact : World.Act old A s.world v w)
    (hp : (s.inWorld w).Holds p) : s.Holds p ∨ A p := by
  cases hp with
  | bound hp => exact Or.inl (.bound hp)
  | literal hp => exact Or.inl (.literal hp)
  | stored hp =>
    rcases hact.leads hp with hp | hp | ⟨q, -, hp⟩
    · exact Or.inl (.stored hp)
    · exact Or.inr hp
    · exact Or.inl (.stored hp)

theorem of_closure {name : String} {decl : FnDecl}
    (hp : (s.inWorld (s.world.withHeap (s.world.heap.newClosure name s.scope decl).2)).Holds p) :
    s.Holds p := by
  cases hp with
  | bound hp => exact .bound hp
  | stored hp => exact .stored (Heap.leads_of_newClosure _ name s.scope decl hp)
  | literal hp => exact .literal hp

theorem of_bound {f : FrameRef} {x : String} (hp : (s.bound f x v).Holds p) : s.Holds p ∨ p = v := by
  cases hp with
  | @bound g y p hp =>
    change (s.frames.define f x v).local? g y = some p at hp
    rw [Frames.local?_define] at hp
    split at hp
    · exact Or.inr (Option.some.inj hp).symm
    · exact Or.inl (.bound hp)
  | stored hp => exact Or.inl (.stored hp)
  | literal hp => exact Or.inl (.literal hp)

theorem of_putLiteral {id : NodeId}
    (hp : (s.remembering { s.memo with literals := s.memo.literals.put id v }).Holds p) :
    s.Holds p ∨ p = v := by
  cases hp with
  | bound hp => exact Or.inl (.bound hp)
  | stored hp => exact Or.inl (.stored hp)
  | @literal j p hp =>
    change (s.memo.literals.put id v).get? j = some p at hp
    rw [Assoc.get?_put] at hp
    split at hp
    · exact Or.inr (Option.some.inj hp).symm
    · exact Or.inl (.literal hp)

theorem of_entered {parent : Scope} {bindings : Bindings} {depth : Nat}
    (hp : (s.entered parent bindings depth).Holds p) : s.Holds p ∨ ∃ b ∈ bindings, b.2 = p := by
  cases hp with
  | @bound g x p hp =>
    rcases Frames.local?_defineAll hp with hold | hnew
    · exact Or.inl (.bound ((s.frames.local?_openChild parent g x).symm.trans hold))
    · exact Or.inr hnew
  | stored hp => exact Or.inl (.stored hp)
  | literal hp => exact Or.inl (.literal hp)

end State.Holds

/-- All that is held exists. -/
def State.Whole (s : State) : Prop := ∀ v, s.Holds v → v.Exists s.world.heap

theorem State.Whole.of_same {s t : State} (h : s.Whole) (hframes : t.frames = s.frames)
    (hheap : t.world.heap = s.world.heap) (hliterals : t.memo.literals = s.memo.literals) :
    t.Whole := by
  intro v hv
  rw [hheap]
  exact h v (hv.of_same hframes hheap hliterals)

theorem State.Whole.bind {s : State} (h : s.Whole) (f : FrameRef) (x : String) {v : Value}
    (hv : v.Exists s.world.heap) : (s.bound f x v).Whole := by
  intro p hp
  rcases hp.of_bound with hp | rfl
  · exact h p hp
  · exact hv

/-- Objects that are held exist, and none goes away. -/
def existence : Law where
  holds := State.Whole
  admits s v := v.Exists s.world.heap
  inside s t := s.world.heap.Grows t.world.heap
  around s t := s.world.heap.Grows t.world.heap

theorem existence_sound : existence.Sound where
  refl _ := .refl _
  trans := .trans
  widen := id
  chain := .trans
  keep h hv := hv.mono h
  plain := lasting_exists.plain
  name := by
    intro s x v hs hv
    obtain ⟨g, -, hlocal⟩ := Frames.local?_of_read hv
    exact hs v (.bound hlocal)
  lead hs _ hv := hs _ (.stored hv)
  literal hs hv := hs _ (.literal hv)
  list _ _ := nofun
  act := by
    intro s t v w hst hact
    have hgrows := hact.grows
    refine ⟨⟨fun p hp => ?_, hst.related.trans hgrows⟩, hact.exists, fun p hp => hp.mono hgrows⟩
    rcases hp.of_act hact with hp | hp
    · exact (hst.holds p hp).mono hgrows
    · exact hp.mono hgrows
  closure := by
    intro s name decl hs made t
    have hgrows := Heap.Grows.newClosure s.world.heap name s.scope decl
    exact ⟨⟨fun p hp => hs p hp.of_closure, hgrows⟩, nofun⟩
  putLiteral := by
    intro s id v hs _ hv
    refine ⟨fun p hp => ?_, .refl _⟩
    rcases hp.of_putLiteral with hp | rfl
    · exact hs p hp
    · exact hv
  putList hs _ _ := ⟨hs.of_same rfl rfl rfl, .refl _⟩
  putDefined _ hs := ⟨hs.of_same rfl rfl rfl, .refl _⟩
  assign _ hst hv := ⟨hst.holds.bind _ _ hv, .refl _⟩
  define x _ hs hv := ⟨hs.bind _ x hv, .refl _⟩
  enter := by
    intro s parent bindings depth hs _ hbindings p hp
    rcases hp.of_entered with hp | ⟨b, hb, rfl⟩
    · exact hs p hp
    · exact hbindings b hb
  leave _ _ hst := ⟨⟨hst.holds.of_same rfl rfl rfl, hst.related⟩, fun _ hv => hv⟩

theorem whole_start {libraries : List Maker}
    (hlibraries : ∀ make ∈ libraries, make.Keeps Value.Exists) (console : Console) (clock : Clock) :
    (State.start libraries console clock).Whole := by
  obtain ⟨hstored, hbound⟩ := all_start lasting_exists hlibraries console clock
  intro v hv
  cases hv with
  | bound hv => exact hbound _ _ v hv
  | stored hv => exact hstored _ v hv
  | literal hv => cases hv

/-! ## Every moment -/

/-- **Objects that are held exist.**  So it is in the first state of an interpreter with the
libraries; a program leaves it so, and so does every other task, at each moment: a single statement
or expression, or a call of a function with arguments that exist, where scopes stand.  An embedder
that brings functions has to be modest. -/
theorem objects_exist (config : Config) (hhost : config.host.Modest) :
    (∀ libraries console clock,
      (∀ make ∈ libraries, make = Library.standard ∨ make = Library.sampler) →
      (State.start libraries console clock).Whole) ∧
    (∀ p s t, s.Whole → (Interpreter.run config p s).state? = some t → t.Whole) ∧
    (∀ n q s k t, s.Whole → s.Stands → (existence.both standing).AdmitsTask s q →
      Passes config n q s k t → t.Whole) := by
  refine ⟨?_, ?_, ?_⟩
  · intro libraries console clock h
    refine whole_start (fun make hmake => ?_) console clock
    rcases h make hmake with rfl | rfl
    · exact Library.keeps_standard lasting_exists
    · exact Library.keeps_sampler lasting_exists
  · intro p s t hs ht
    -- Nothing is remembered of literals before a program.
    have hready : s.ready.Whole := by
      intro v hv
      cases hv with
      | bound hv => exact hs v (.bound hv)
      | stored hv => exact hs v (.stored hv)
      | literal hv => cases hv
    have hw := existence_sound.kept_walker (existence_sound.covers hhost) Interpreter.levels
    exact ((existence_sound.fits_execAll hw p.stmts hready).state ht).holds
  · intro n q s k t hs hstands hq h
    have hsound := existence_sound.both standing_sound
    have hnever : ∀ t, (existence.both standing).holds t →
        ¬ (existence.both standing).admits t unfounded :=
      fun t _ hadmits => not_stands_unfounded _ hadmits.2
    exact (hsound.holds_passes (hsound.covers hhost) hnever h ⟨hs, hstands⟩ hq).1

end SmallScript
