/-
  An object that nobody holds.

  An object literal makes its object first and gives it the members one by one, while their
  expressions may do anything.  What they do cannot touch the object: no name is bound to it, nothing
  leads to it and no literal remembers it, so no value that is had is this object.

  As a law, that is: the object is held nowhere and has some fixed properties (`State.Secludes`), and
  each value but the object itself is admitted.  There is nothing to do with an object that is not at
  hand, and nothing that is made is an object that is there already (`World.Act.object_kept`).  Since
  the object is never admitted, every moment of an evaluation is lawful (`Law.Sound.holds_passes`).
-/
import SmallScript.Proofs.Evaluation.Existence

namespace SmallScript

/-- In `s` the object `o` has the properties in `b`, and no value that is held is this object. -/
structure State.Secludes (s : State) (o : ObjectRef) (b : Bag) : Prop where
  bag : s.world.heap.objects[o.index]? = some b
  unheld {v : Value} : s.Holds v → v ≠ .object o

namespace State.Secludes

variable {s t : State} {o : ObjectRef} {b : Bag}

theorem of_same (h : s.Secludes o b) (hframes : t.frames = s.frames)
    (hheap : t.world.heap = s.world.heap) (hliterals : t.memo.literals = s.memo.literals) :
    t.Secludes o b :=
  ⟨hheap ▸ h.bag, fun hv => h.unheld (hv.of_same hframes hheap hliterals)⟩

theorem bind (h : s.Secludes o b) (f : FrameRef) (x : String) {v : Value} (hv : v ≠ .object o) :
    (s.bound f x v).Secludes o b := by
  refine ⟨h.bag, fun {p} hp => ?_⟩
  rcases hp.of_bound with hp | rfl
  · exact h.unheld hp
  · exact hv

end State.Secludes

/-! ## Acts -/

/-- An act changes no object that is not at hand. -/
theorem World.Act.object_kept {old : Heap} {A : Value → Prop} {w w' : World} {v : Value}
    (h : Act old A w v w') {o : ObjectRef} {b : Bag} (ho : ¬ A (.object o))
    (hb : w.heap.objects[o.index]? = some b) : w'.heap.objects[o.index]? = some b := by
  have put : ∀ (p : Value) (c : Bag), A p → (w.heap.putBag p c).objects[o.index]? = some b := by
    intro p c hp
    cases p with
    | object r =>
      have hne : r.index ≠ o.index := by
        rintro heq
        obtain rfl : r = o := congrArg ObjectRef.mk heq
        exact ho hp
      change (w.heap.objects.modify r.index _)[o.index]? = some b
      rw [Array.getElem?_modify, if_neg hne]
      exact hb
    | _ => exact hb
  cases h with
  | object c _ =>
    have hlt : o.index < w.heap.objects.size := (Array.getElem?_eq_some_iff.1 hb).1
    change (w.heap.objects.push c)[o.index]? = some b
    rw [Array.getElem?_push, if_neg (Nat.ne_of_lt hlt)]
    exact hb
  | property p c c' x v _ _ hp _ => exact put p c' hp
  | add r c c' x v _ _ _ hr _ => exact put (.object r) c' hr
  | _ => exact hb

/-- What is had by an act is no object that was there. -/
theorem World.Act.ne_object {old : Heap} {A : Value → Prop} {w w' : World} {v : Value}
    (h : Act old A w v w') {o : ObjectRef} {b : Bag} (hb : w.heap.objects[o.index]? = some b) :
    v ≠ .object o := by
  rintro rfl
  have hlt : o.index < w.heap.objects.size := (Array.getElem?_eq_some_iff.1 hb).1
  cases h.beyond with
  | plain h => cases h
  | object hge => exact absurd hlt (Nat.not_lt_of_le hge)

/-! ## The law -/

/-- The object `o` has the properties in `b`, and stays out of sight. -/
def seclusion (o : ObjectRef) (b : Bag) : Law where
  holds s := s.Secludes o b
  admits _ v := v ≠ .object o
  inside _ _ := True
  around _ _ := True

theorem seclusion_sound (o : ObjectRef) (b : Bag) : (seclusion o b).Sound where
  refl _ := trivial
  trans _ _ := trivial
  widen _ := trivial
  chain _ _ := trivial
  keep _ hv := hv
  plain := by
    rintro s v hv rfl
    cases hv
  name := by
    intro s x v hs hv
    obtain ⟨g, -, hlocal⟩ := Frames.local?_of_read hv
    exact hs.unheld (.bound hlocal)
  lead hs _ hv := hs.unheld (.stored hv)
  literal hs hv := hs.unheld (.literal hv)
  list _ _ := nofun
  act := by
    intro s t v w hst hact
    have ht := hst.holds
    refine ⟨⟨⟨hact.object_kept (fun h => h rfl) ht.bag, fun {p} hp => ?_⟩, trivial⟩,
      hact.ne_object ht.bag, fun p hp => hp⟩
    exact (hp.of_act hact).elim ht.unheld id
  closure name decl hs := ⟨⟨⟨hs.bag, fun hp => hs.unheld hp.of_closure⟩, trivial⟩, nofun⟩
  putLiteral := by
    intro s id v hs _ hv
    refine ⟨⟨hs.bag, fun {p} hp => ?_⟩, trivial⟩
    rcases hp.of_putLiteral with hp | rfl
    · exact hs.unheld hp
    · exact hv
  putList hs _ _ := ⟨hs.of_same rfl rfl rfl, trivial⟩
  putDefined _ hs := ⟨hs.of_same rfl rfl rfl, trivial⟩
  assign _ hst hv := ⟨hst.holds.bind _ _ hv, trivial⟩
  define x _ hs hv := ⟨hs.bind _ x hv, trivial⟩
  enter := by
    intro s parent bindings depth hs _ hbindings
    refine ⟨hs.bag, fun {p} hp => ?_⟩
    rcases hp.of_entered with hp | ⟨b, hb, rfl⟩
    · exact hs.unheld hp
    · exact hbindings b hb
  leave _ _ hst := ⟨⟨hst.holds.of_same rfl rfl rfl, trivial⟩, fun _ hv => hv⟩

/-! ## A new object -/

namespace State

/-- The state with an object more, which has no properties yet. -/
def withObject (s : State) : State := s.inWorld (s.world.withHeap (s.world.heap.newObject {}).2)

/-- The object that is made next. -/
def nextObject (s : State) : ObjectRef := ⟨s.world.heap.objects.size⟩

/-- The state with an attempt to add a property behind it. -/
def adding (s : State) (o : ObjectRef) (x : String) (v : Value) : State :=
  s.inWorld (s.world.withHeap (s.world.heap.addProperty (.object o) x v).2)

variable {s t : State} {o : ObjectRef} {b : Bag} {config : Config} {n : Nat}

/-- An object that is just made is held nowhere, if what is held exists. -/
theorem Whole.secludes (hs : s.Whole) : s.withObject.Secludes s.nextObject {} := by
  refine ⟨Array.getElem?_push_size, fun {v} hv => ?_⟩
  have hact : World.Act s.world.heap (fun _ => False) s.world _ s.withObject.world :=
    .object {} fun x v hv => nomatch hv
  rcases hv.of_act hact with hv | hv
  · rintro rfl
    exact Nat.lt_irrefl _ (hs _ hv _ rfl)
  · exact hv.elim

/-- An evaluation leaves the object as it is and out of sight, and does not yield it. -/
theorem Secludes.eval (hhost : config.host.Modest) (hs : s.Secludes o b) {e : Expr} {v : Value}
    (h : (walker config n).eval e s = .done v t) : t.Secludes o b ∧ v ≠ .object o := by
  have hsound := seclusion_sound o b
  have hfits := (hsound.kept_walker (hsound.covers hhost) n).eval e hs
  rw [h] at hfits
  cases hfits with
  | done hst hv => exact ⟨hst.holds, hv⟩

/-- So it is at each moment of an evaluation. -/
theorem Secludes.passes (hhost : config.host.Modest) (hs : s.Secludes o b) {p : Part} {k : Nat}
    (h : Passes config n (.part p) s k t) : t.Secludes o b := by
  have hsound := seclusion_sound o b
  have hnever : ∀ t, (seclusion o b).holds t → ¬ (seclusion o b).admits t (.object o) :=
    fun _ _ hadmits => hadmits rfl
  exact hsound.holds_passes (hsound.covers hhost) hnever h hs trivial

/-- A property that is new is added, and the object is as much out of sight as before. -/
theorem Secludes.add (hs : s.Secludes o b) {x : String} (hx : ¬ b.contains x) {v : Value}
    (hv : v ≠ .object o) :
    Eval.tryHeap (Heap.addProperty (.object o) x v) s = .done () (s.adding o x v) ∧
      (s.adding o x v).Secludes o ⟨(x, v) :: b.entries⟩ := by
  have hbag : s.world.heap.bag? (.object o) = some b := by
    rw [Heap.bag?, hs.bag]
    rfl
  have hadded : Heap.addProperty (.object o) x v s.world.heap =
      (.ok (), s.world.heap.putBag (.object o) ⟨(x, v) :: b.entries⟩) := by
    unfold Heap.addProperty Heap.changeBag
    rw [hbag]
    dsimp only
    rw [Bag.add_of_not_contains hx]
  have hstate : s.adding o x v =
      s.inWorld (s.world.withHeap (s.world.heap.putBag (.object o) ⟨(x, v) :: b.entries⟩)) := by
    unfold State.adding
    rw [hadded]
  refine ⟨?_, ?_, fun {p} hp => ?_⟩
  · change Eval.ofExcept (Heap.addProperty (.object o) x v s.world.heap).1 (s.adding o x v) = _
    rw [hadded]
    rfl
  · rw [hstate]
    change (s.world.heap.objects.modify o.index _)[o.index]? = _
    rw [Array.getElem?_modify, if_pos rfl, hs.bag]
    rfl
  · rw [hstate] at hp
    cases hp with
    | bound hp => exact hs.unheld (.bound hp)
    | literal hp => exact hs.unheld (.literal hp)
    | stored hp =>
      rcases Heap.Leads.of_putBag (q := .object o) hp with hp | ⟨y, hy⟩
      · exact hs.unheld (.stored hp)
      · rcases Bag.get?_add (Bag.add_of_not_contains hx) hy with rfl | hold
        · exact hv
        · exact hs.unheld (.stored (.property (Heap.property?_of_bag? hbag hold)))

/-- A name that is there is not added. -/
theorem Secludes.add_again (hs : s.Secludes o b) {x : String} (hx : b.contains x) (v : Value) :
    Eval.tryHeap (Heap.addProperty (.object o) x v) s =
      .unwound (.fault (.duplicateProperty x)) s := by
  have hbag : s.world.heap.bag? (.object o) = some b := by
    rw [Heap.bag?, hs.bag]
    rfl
  have hrefused : Heap.addProperty (.object o) x v s.world.heap =
      (.error (.duplicateProperty x), s.world.heap) := by
    unfold Heap.addProperty Heap.changeBag
    rw [hbag]
    dsimp only
    rw [Bag.add_of_contains hx]
  change Eval.ofExcept (Heap.addProperty (.object o) x v s.world.heap).1
    (s.inWorld (s.world.withHeap (Heap.addProperty (.object o) x v s.world.heap).2)) = _
  rw [hrefused]
  rfl

end State

end SmallScript
