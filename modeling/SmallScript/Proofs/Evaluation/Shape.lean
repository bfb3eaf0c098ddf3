/-
  The shape of a value never changes.

  Which properties a value has is settled when it is made.  An object gets its properties while the
  literal is evaluated that makes it, the properties of a string or a list are its methods, and after
  that a property can only be set to another value.  So whatever a script does, and however it ends,
  all that was there before has properties of the names it had (`shapes_kept`).

  There are two acts that change a bag.  One adds a property to an object that was not there before
  (`World.Act.add`), so what was there does not see it.  For the other (`World.Act.property`) there
  is one thing to prove: a bag that is put in the place of another with the same names is seen with
  these names, also through a string whose bag was never filled (`Heap.keys_bag?_putBag`).  A law
  carries it through every evaluation.
-/
import SmallScript.Proofs.Evaluation.Law
import SmallScript.Proofs.Evaluation.Leads

namespace SmallScript

namespace Heap

/-! ## Shapes -/

/-- A string, a list or an object that is in the heap. -/
inductive Has (h : Heap) : Value → Prop where
  | text {t : Text} : t.id < h.texts.size → Has h (.text t)
  | list {r : ListRef} : r.index < h.lists.size → Has h (.list r)
  | object {r : ObjectRef} : r.index < h.objects.size → Has h (.object r)

/-- Every string, list and object of `h` is in `k`, with properties of the same names. -/
structure SameShapes (h k : Heap) : Prop where
  grows : h.Grows k
  names : ∀ o, h.Has o → k.propertyNames? o = h.propertyNames? o
  properties : ∀ o, h.Has o → ∀ x, (k.property? o x).isSome = (h.property? o x).isSome

variable {h k l : Heap} {o p : Value} {b b' : Bag}

theorem Has.of_grows (hk : h.Grows k) (ho : h.Has o) : k.Has o := by
  cases ho with
  | text ht => exact .text (Nat.lt_of_lt_of_le ht hk.texts)
  | list hr => exact .list (Nat.lt_of_lt_of_le hr hk.lists)
  | object hr => exact .object (Nat.lt_of_lt_of_le hr hk.objects)

theorem SameShapes.refl (h : Heap) : h.SameShapes h :=
  ⟨.refl h, fun _ _ => rfl, fun _ _ _ => rfl⟩

theorem SameShapes.trans (hk : h.SameShapes k) (kl : k.SameShapes l) : h.SameShapes l where
  grows := hk.grows.trans kl.grows
  names o ho := (kl.names o (ho.of_grows hk.grows)).trans (hk.names o ho)
  properties o ho x := (kl.properties o (ho.of_grows hk.grows) x).trans (hk.properties o ho x)

/-- The keys of a bag tell which properties there are. -/
theorem isSome_property? (h : Heap) (o : Value) (x : String) :
    (h.property? o x).isSome = ((h.bag? o).map Assoc.keys).any fun keys => decide (x ∈ keys) := by
  unfold property?
  cases hb : h.bag? o with
  | none => rfl
  | some b =>
    change (b.get? x).isSome = decide (x ∈ b.keys)
    rw [Bool.eq_iff_iff, decide_eq_true_iff, Assoc.mem_keys_iff]

theorem SameShapes.of_keys (hgrows : h.Grows k)
    (hkeys : ∀ o, h.Has o → (k.bag? o).map Assoc.keys = (h.bag? o).map Assoc.keys) :
    h.SameShapes k where
  grows := hgrows
  names o ho := by
    have hsorted : ∀ h : Heap, h.propertyNames? o = ((h.bag? o).map Assoc.keys).map sortedNames :=
      fun h => (Option.map_map sortedNames Assoc.keys (h.bag? o)).symm
    rw [hsorted, hsorted, hkeys o ho]
  properties o ho x := by rw [isSome_property?, isSome_property?, hkeys o ho]

theorem SameShapes.of_bags (hgrows : h.Grows k) (hbags : ∀ o, h.Has o → k.bag? o = h.bag? o) :
    h.SameShapes k :=
  .of_keys hgrows fun o ho => congrArg _ (hbags o ho)

/-! ## Acts -/

/-- An object that is made is none of those that were there. -/
theorem Has.bag?_newObject (ho : h.Has o) (b : Bag) : (h.newObject b).2.bag? o = h.bag? o := by
  cases ho with
  | text ht => rfl
  | list hr => rfl
  | @object r hr => simp [newObject, bag?, Array.getElem?_push, Nat.ne_of_lt hr]

/-- What is put into an object that was not there is not seen in what was. -/
theorem Has.bag?_putBag {old : Heap} (ho : old.Has o) {r : ObjectRef}
    (hr : old.objects.size ≤ r.index) (h : Heap) (b : Bag) :
    (h.putBag (.object r) b).bag? o = h.bag? o := by
  cases ho with
  | text ht => rfl
  | list hq => rfl
  | @object q hq =>
    have hne : r.index ≠ q.index := by omega
    simp [putBag, bag?, Array.getElem?_modify, hne]

/-- A bag in the place of another with the same names is seen with these names. -/
theorem keys_bag?_putBag (hb : h.bag? o = some b) (hkeys : b'.keys = b.keys) (p : Value) :
    ((h.putBag o b').bag? p).map Assoc.keys = (h.bag? p).map Assoc.keys := by
  cases o with
  | text t =>
    cases p with
    | text u =>
      by_cases htu : t.id = u.id
      · cases hu : h.texts[u.id]? with
        | none => simp [putBag, bag?, Array.getElem?_modify, htu, hu]
        | some c =>
          -- The bag that was there is that of `t`; only if it was never filled is it not that of
          -- `u`, and then both hold the methods of a string.
          have hc : b = c.getD t.methods := by
            rw [bag?, htu, hu] at hb
            exact (Option.some.inj hb).symm
          have hmethods : t.methods.keys = u.methods.keys := rfl
          simp only [putBag, bag?, Array.getElem?_modify, htu, hu, if_true, Option.map_some,
            Option.join_some, Option.getD_some, hkeys, hc]
          cases c with
          | none => exact congrArg some hmethods
          | some _ => rfl
      · simp [putBag, bag?, Array.getElem?_modify, htu]
    | _ => rfl
  | list r =>
    cases p with
    | list q =>
      by_cases hrq : r = q
      · subst hrq
        cases hr : h.lists[r.index]? with
        | none => simp [putBag, bag?, Array.getElem?_modify, hr]
        | some cell =>
          rw [hb, Option.map_some, ← hkeys]
          simp [putBag, bag?, Array.getElem?_modify, hr]
      · have hindex : r.index ≠ q.index := fun hi => hrq (congrArg ListRef.mk hi)
        simp [putBag, bag?, Array.getElem?_modify, hindex]
    | _ => rfl
  | object r =>
    cases p with
    | object q =>
      by_cases hrq : r = q
      · subst hrq
        cases hr : h.objects[r.index]? with
        | none => simp [putBag, bag?, Array.getElem?_modify, hr]
        | some c =>
          rw [hb, Option.map_some, ← hkeys]
          simp [putBag, bag?, Array.getElem?_modify, hr]
      · have hindex : r.index ≠ q.index := fun hi => hrq (congrArg ObjectRef.mk hi)
        simp [putBag, bag?, Array.getElem?_modify, hindex]
    | _ => rfl
  | _ => rfl

end Heap

/-- No act on the world changes the shape of what was there before the step it is part of. -/
theorem World.Act.sameShapes {old : Heap} {A : Value → Prop} {w w' : World} {v : Value}
    (h : Act old A w v w') (hold : old.SameShapes w.heap) : old.SameShapes w'.heap := by
  have hgrows := h.grows
  cases h with
  | print line => exact hold
  | eprint line => exact hold
  | input => exact hold
  | clock => exact hold
  | text content => exact hold.trans (.of_bags hgrows fun o _ => w.heap.bag?_newText content o)
  | list items _ => exact hold.trans (.of_bags hgrows fun o _ => w.heap.bag?_newList items o)
  | object b _ => exact hold.trans (.of_bags hgrows fun o ho => ho.bag?_newObject b)
  | table m => exact hold.trans (.of_bags hgrows fun o _ => by cases o <;> rfl)
  | items r f _ => exact hold.trans (.of_bags hgrows fun o _ => w.heap.bag?_modifyItems r f o)
  | entries t f _ => exact hold.trans (.of_bags hgrows fun o _ => by cases o <;> rfl)
  | property o b b' x v hb hset _ _ =>
    have hkeys := fun p => Heap.keys_bag?_putBag hb (Bag.keys_set hset) p
    exact hold.trans (.of_keys hgrows fun p _ => hkeys p)
  | add r b b' x v _ _ hr _ _ =>
    have hbags : ∀ o, old.Has o → (w.heap.putBag (.object r) b').bag? o = w.heap.bag? o :=
      fun o ho => ho.bag?_putBag hr w.heap b'
    refine ⟨hold.grows.trans hgrows, fun o ho => ?_, fun o ho x => ?_⟩
    · rw [← hold.names o ho]
      exact congrArg (Option.map Bag.names) (hbags o ho)
    · rw [← hold.properties o ho x]
      exact congrArg (fun b : Option Bag => (b.bind fun b => b.get? x).isSome) (hbags o ho)

/-! ## The law -/

/-- Whatever is done, all that was there has properties of the names it had. -/
def shapeLaw : Law where
  holds _ := True
  admits _ _ := True
  inside s t := s.world.heap.SameShapes t.world.heap
  around s t := s.world.heap.SameShapes t.world.heap

theorem shapeLaw_sound : shapeLaw.Sound where
  refl _ := .refl _
  trans := .trans
  widen := id
  chain := .trans
  keep _ _ := trivial
  plain _ := trivial
  name _ _ := trivial
  lead _ _ _ := trivial
  literal _ _ := trivial
  list _ _ := trivial
  act hst hact := ⟨⟨trivial, hact.sameShapes hst.related⟩, trivial, fun _ _ => trivial⟩
  closure {s} name decl _ :=
    ⟨⟨trivial, .of_bags (.newClosure s.world.heap name s.scope decl) fun _ _ => by
      cases ‹Value› <;> rfl⟩, trivial⟩
  putLiteral _ _ _ := ⟨trivial, .refl _⟩
  putList _ _ _ := ⟨trivial, .refl _⟩
  putDefined _ _ := ⟨trivial, .refl _⟩
  assign _ hst _ := ⟨trivial, .refl _⟩
  define _ _ _ _ := ⟨trivial, .refl _⟩
  enter _ _ _ _ := trivial
  leave _ _ hst := ⟨⟨trivial, hst.related⟩, fun _ _ => trivial⟩

/-! ## Assignments that fail -/

variable {h : Heap} {o p v : Value} {x : String} {s t : State} {u : Unwind}

/-- A property that is missing is not set, and nothing else is either. -/
theorem Heap.setProperty_of_missing (hp : h.property? o x = none) (v : Value) :
    h.setProperty o x v = (.error (.missingProperty x), h) := by
  unfold setProperty changeBag
  unfold property? at hp
  cases hb : h.bag? o with
  | none => rfl
  | some b =>
    rw [hb] at hp
    have hx : ¬ b.contains x = true := Option.not_isSome_iff_eq_none.2 hp
    dsimp only [Bag.set]
    rw [if_neg hx]

/-- A property that is there can be set. -/
theorem Heap.setProperty_of_property (hp : h.property? o x = some p) (v : Value) :
    (h.setProperty o x v).1 = .ok () := by
  unfold setProperty changeBag
  unfold property? at hp
  cases hb : h.bag? o with
  | none =>
    rw [hb] at hp
    cases hp
  | some b =>
    rw [hb] at hp
    have hx : b.contains x = true := Option.isSome_of_eq_some hp
    dsimp only [Bag.set]
    rw [if_pos hx]

/-- Only a missing property keeps a property from being set. -/
theorem unwound_setProperty (h : Eval.tryHeap (Heap.setProperty o x v) s = .unwound u t) :
    t = s ∧ s.world.heap.property? o x = none ∧ u = .fault (.missingProperty x) := by
  change Eval.ofExcept (s.world.heap.setProperty o x v).1
    (s.inWorld (s.world.withHeap (s.world.heap.setProperty o x v).2)) = _ at h
  cases hp : s.world.heap.property? o x with
  | none =>
    rw [Heap.setProperty_of_missing hp v] at h
    cases h
    exact ⟨rfl, rfl, rfl⟩
  | some p =>
    rw [Heap.setProperty_of_property hp v] at h
    cases h

/-- If a property assignment is left early, then its target was, or its value, or the property is
missing and nothing was done behind the two. -/
theorem unwound_assignProperty {config : Config} {n : Nat} {span : Span} {target e : Expr}
    {x : Ident} (h : (walker config (n + 1)).exec (.assignProperty span target x e) s = .unwound u t) :
    (walker config n).eval target s = .unwound u t ∨
    ∃ o s', (walker config n).eval target s = .done o s' ∧
      ((walker config n).eval e s' = .unwound u t ∨
        ∃ v, (walker config n).eval e s' = .done v t ∧
          t.world.heap.property? o x.name = none ∧ u = .fault (.missingProperty x.name)) := by
  refine (Eval.bind_eq_unwound.1 h).imp_right ?_
  rintro ⟨o, s', ho, h⟩
  refine ⟨o, s', ho, (Eval.bind_eq_unwound.1 h).imp_right ?_⟩
  rintro ⟨v, t', hv, hset⟩
  obtain ⟨rfl, hp, rfl⟩ := unwound_setProperty hset
  exact ⟨v, hv, hp, rfl⟩

/-! ## Everything that runs -/

/-- **Shapes are kept.**  However they end, expressions, calls, statements and programs leave every
string, list and object that was there with properties of the names it had.  A property assignment
that fails has failed in its target or in its value, or for want of the property; then it leaves
the state as the two left it.  An embedder that brings functions has to be modest. -/
theorem shapes_kept (config : Config) (hhost : config.host.Modest) (n : Nat) (s t : State) :
    (∀ e, ((walker config n).eval e s).state? = some t →
      s.world.heap.SameShapes t.world.heap) ∧
    (∀ f args, ((walker config n).call config f args s).state? = some t →
      s.world.heap.SameShapes t.world.heap) ∧
    (∀ stmt, ((walker config n).exec stmt s).state? = some t →
      s.world.heap.SameShapes t.world.heap) ∧
    (∀ p, (Interpreter.run config p s).state? = some t →
      s.world.heap.SameShapes t.world.heap) ∧
    (∀ span target x e u,
      (walker config (n + 1)).exec (.assignProperty span target x e) s = .unwound u t →
      (walker config n).eval target s = .unwound u t ∨
      ∃ o s', (walker config n).eval target s = .done o s' ∧
        ((walker config n).eval e s' = .unwound u t ∨
          ∃ v, (walker config n).eval e s' = .done v t ∧
            t.world.heap.property? o x.name = none ∧
            u = .fault (.missingProperty x.name))) := by
  have hcovers := shapeLaw_sound.covers hhost
  have hw := shapeLaw_sound.kept_walker hcovers n
  refine ⟨?_, ?_, ?_, ?_, ?_⟩
  · intro e ht
    exact ((hw.eval e trivial).state ht).related
  · intro f args ht
    have hcall : shapeLaw.Fits shapeLaw.inside shapeLaw.admits s
        ((walker config n).call config f args s) :=
      shapeLaw_sound.fits_call hcovers hw trivial trivial fun _ _ => trivial
    exact (hcall.state ht).related
  · intro stmt ht
    exact ((hw.exec stmt trivial).state ht).related
  · intro p ht
    have hlast := shapeLaw_sound.kept_walker hcovers Interpreter.levels
    have hall := shapeLaw_sound.fits_execAll hlast p.stmts (s := s.ready) trivial
    exact (hall.state ht).related
  · intro span target x e u h
    exact unwound_assignProperty h

/-- A global frame that binds `o` to an object with the property `a`. -/
def holdingObject : State where
  world := { heap := { objects := #[⟨[("a", .null)]⟩] } }
  frames := ⟨#[⟨[("o", .object ⟨0⟩)]⟩]⟩
  memo := {}
  scope := ⟨⟨0⟩, []⟩
  globals := ⟨⟨0⟩, []⟩
  depth := 0

/-- The block `{ o.a = true; o.b = o; }`, which ends with a fault. -/
def settingMore : Block where
  stmts :=
    [.assignProperty default (.name default "o") ⟨"a", default⟩ (.bool default true),
      .assignProperty default (.name default "o") ⟨"b", default⟩ (.name default "o")]
  span := default

/-- The property that was there has another value behind the block, and there is no other. -/
theorem shape_of_settingMore : ∃ t,
    (walker {} 4).exec (.block settingMore) holdingObject =
        .unwound (.fault (.missingProperty "b")) t ∧
      t.world.heap.property? (.object ⟨0⟩) "a" = some (.bool true) ∧
      t.world.heap.propertyNames? (.object ⟨0⟩) = some ["a"] := by
  refine ⟨_, rfl, rfl, ?_⟩
  have hshapes := (shapes_kept {} Host.bare_modest 4 holdingObject _).2.2.1 (.block settingMore) rfl
  have hsorted : sortedNames ["a"] = ["a"] := List.mergeSort_singleton "a"
  exact (hshapes.names _ (.object (by decide))).trans (congrArg some hsorted)

end SmallScript
