/-
  Laws of evaluation.

  Many statements about evaluations have one shape: something holds of the state wherever a node is
  evaluated, every value that is had has some property, and the states before and after are in
  some relation, however the evaluation ends.  Such a `Law` is proved of the few things that an
  evaluation does with its state (`Law.Sound`).  That all evaluations keep to it follows from that,
  once and for all laws, by induction on the number of levels (`kept_walker`).

  A law has two relations.  `inside` is for expressions, calls and blocks, `around` for statements,
  which may moreover bind names in the frame they are executed in.  What is done in a new frame is
  `around` as seen in that frame and `inside` as seen from outside.
-/
import SmallScript.Proofs.Evaluation.Change
import SmallScript.Proofs.Evaluation.Leads

namespace SmallScript

/-! ## Laws -/

structure Law where
  /-- What holds of the state wherever something is evaluated. -/
  holds : State → Prop
  /-- What holds of each value that is had in a state. -/
  admits : State → Value → Prop
  /-- What expressions, calls and blocks may make of a state. -/
  inside : State → State → Prop
  /-- What statements may make of a state. -/
  around : State → State → Prop

namespace Law

/-- From `s` it is lawful to come to `t`. -/
structure Allows (L : Law) (R : State → State → Prop) (s t : State) : Prop where
  holds : L.holds t
  related : R s t

/-- All that has to be known of a law: it lets an evaluation look at its state, and do to it what
evaluations do. -/
structure Sound (L : Law) : Prop where
  refl (s : State) : L.inside s s
  trans {s t u : State} : L.inside s t → L.inside t u → L.inside s u
  widen {s t : State} : L.inside s t → L.around s t
  chain {s t u : State} : L.around s t → L.around t u → L.around s u
  keep {s t : State} {v : Value} : L.around s t → L.admits s v → L.admits t v
  plain {s : State} {v : Value} : v.Plain → L.admits s v
  -- What is found in the state is admitted.
  name {s : State} {x : String} {v : Value} :
    L.holds s → s.frames.read s.scope x = .ok v → L.admits s v
  lead {s : State} {o v : Value} :
    L.holds s → L.admits s o → s.world.heap.Leads o v → L.admits s v
  literal {s : State} {id : NodeId} {v : Value} :
    L.holds s → s.memo.literals.get? id = some v → L.admits s v
  list {s : State} {id : NodeId} {r : ListRef} :
    L.holds s → s.memo.lists.get? id = some r → L.admits s (.list r)
  -- What is done to the state is allowed.
  act {s t : State} {v : Value} {w : World} :
    L.Allows L.inside s t → World.Act s.world.heap (L.admits t) t.world v w →
    L.Allows L.inside s (t.inWorld w) ∧ L.admits (t.inWorld w) v ∧
      ∀ p, L.admits t p → L.admits (t.inWorld w) p
  closure {s : State} (name : String) (decl : FnDecl) :
    L.holds s →
    let made := s.world.heap.newClosure name s.scope decl
    let t := s.inWorld (s.world.withHeap made.2)
    L.Allows L.inside s t ∧ L.admits t made.1
  putLiteral {s : State} {id : NodeId} {v : Value} :
    L.holds s → s.memo.literals.get? id = none → L.admits s v →
    L.Allows L.inside s (s.remembering { s.memo with literals := s.memo.literals.put id v })
  putList {s : State} {id : NodeId} {r : ListRef} :
    L.holds s → s.memo.lists.get? id = none → L.admits s (.list r) →
    L.Allows L.inside s (s.remembering { s.memo with lists := s.memo.lists.put id r })
  putDefined {s : State} (id : NodeId) :
    L.holds s → L.Allows L.inside s (s.remembering { s.memo with defined := id :: s.memo.defined })
  assign {s t : State} {x : String} {v : Value} :
    L.holds s → L.Allows L.inside s t → L.admits t v →
    L.Allows L.around t (t.bound (s.frames.owner s.scope x) x v)
  define {s : State} (x : String) {v : Value} :
    L.holds s → L.admits s v → L.Allows L.around s (s.bound s.scope.frame x v)
  enter {s : State} {parent : Scope} {bindings : Bindings} (depth : Nat) :
    L.holds s →
    (parent = s.scope ∨ ∃ c : Closure, c.scope = parent ∧ L.admits s (.function (.closure c))) →
    (∀ b ∈ bindings, L.admits s b.2) → L.holds (s.entered parent bindings depth)
  leave {s t : State} {parent : Scope} {bindings : Bindings} {depth : Nat} (depth' : Nat) :
    L.holds s → L.Allows L.around (s.entered parent bindings depth) t →
    L.Allows L.inside s (t.placed s.scope depth') ∧
      ∀ v, L.admits t v → L.admits (t.placed s.scope depth') v

/-- An outcome that a step from `s` may have: the state behind it is lawful and related to `s`, its
value has `P`, and a value that is returned is admitted. -/
inductive Fits (L : Law) {α : Type} (R : State → State → Prop) (P : State → α → Prop) (s : State) :
    Outcome α → Prop where
  | done {a : α} {t : State} : L.Allows R s t → P t a → Fits L R P s (.done a t)
  | unwound {u : Unwind} {t : State} :
      L.Allows R s t → (∀ v, u = .return v → L.admits t v) → Fits L R P s (.unwound u t)
  | exhausted : Fits L R P s .exhausted

/-- Nothing is asked of a value. -/
abbrev Any {α : Type} : State → α → Prop := fun _ _ => True

section Fits

variable {L : Law} {α β : Type} {R S : State → State → Prop} {P : State → α → Prop}
  {Q : State → β → Prop} {s : State}

/-- A step that fits leaves a state that is allowed. -/
theorem Fits.state {r : Outcome α} (h : L.Fits R P s r) {t : State} (ht : r.state? = some t) :
    L.Allows R s t := by
  cases h with
  | done hst _ =>
    cases ht
    exact hst
  | unwound hst _ =>
    cases ht
    exact hst
  | exhausted => cases ht

/-- Other relations and other properties may be asked for if they follow. -/
theorem Fits.mono {P' : State → α → Prop} {r : Outcome α} (h : L.Fits R P s r)
    (hR : ∀ t, R s t → S s t) (hP : ∀ t a, P t a → P' t a) : L.Fits S P' s r := by
  cases h with
  | done hst ha => exact .done ⟨hst.holds, hR _ hst.related⟩ (hP _ _ ha)
  | unwound hst hv => exact .unwound ⟨hst.holds, hR _ hst.related⟩ hv
  | exhausted => exact .exhausted

/-- More may be said of the value of a step that fits. -/
theorem Fits.also {P' : State → α → Prop} {r : Outcome α} (h : L.Fits R P s r)
    (hP' : ∀ a t, r = .done a t → P' t a) : L.Fits R (fun t a => P t a ∧ P' t a) s r := by
  cases h with
  | done hst ha => exact .done hst ⟨ha, hP' _ _ rfl⟩
  | unwound hst hv => exact .unwound hst hv
  | exhausted => exact .exhausted

/-- What is known of each lawful state behind a step. -/
theorem Fits.alsoOf {P' : State → Prop} {r : Outcome α} (h : L.Fits R P s r)
    (hP' : ∀ t, L.Allows R s t → P' t) : L.Fits R (fun t a => P t a ∧ P' t) s r := by
  cases h with
  | done hst ha => exact .done hst ⟨ha, hP' _ hst⟩
  | unwound hst hv => exact .unwound hst hv
  | exhausted => exact .exhausted

/-- An outcome as seen from an earlier state. -/
theorem Fits.after {t : State} {r : Outcome α} (h : L.Fits S P t r) (hst : L.Allows R s t)
    (hcomp : ∀ {u}, R s t → S t u → S s u) : L.Fits S P s r := by
  cases h with
  | done htu ha => exact .done ⟨htu.holds, hcomp hst.related htu.related⟩ ha
  | unwound htu hv => exact .unwound ⟨htu.holds, hcomp hst.related htu.related⟩ hv
  | exhausted => exact .exhausted

/-- A step behind another one, both as seen from `s`, wherever the first is taken. -/
theorem Fits.andThen {x : Eval α} {f : α → Eval β} {t : State} (hx : L.Fits R P s (x t))
    (hf : ∀ a u, L.Allows R s u → P u a → L.Fits S Q s (f a u))
    (hRS : ∀ {t}, R s t → S s t) : L.Fits S Q s ((x >>= f) t) := by
  change L.Fits S Q s (Eval.bind x f t)
  unfold Eval.bind
  generalize x t = r at hx
  cases hx with
  | done hst ha => exact hf _ _ hst ha
  | unwound hst hv => exact .unwound ⟨hst.holds, hRS hst.related⟩ hv
  | exhausted => exact .exhausted

/-- A step behind another one, which may be held to a relation of its own. -/
theorem Fits.bind {x : Eval α} {f : α → Eval β} (hx : L.Fits R P s (x s))
    (hf : ∀ a t, L.Allows R s t → P t a → L.Fits S Q t (f a t))
    (hRS : ∀ {t}, R s t → S s t) (hcomp : ∀ {t u}, R s t → S t u → S s u) :
    L.Fits S Q s ((x >>= f) s) :=
  hx.andThen (fun a t hst ha => (hf a t hst ha).after hst hcomp) hRS

end Fits

namespace Sound

/-! ## Steps -/

variable {L : Law} {α β : Type} {P : State → α → Prop} {Q : State → β → Prop} {s t : State}

/-- Where nothing is done, everything is as it was. -/
theorem same (hL : L.Sound) (hs : L.holds s) : L.Allows L.inside s s := ⟨hs, hL.refl s⟩

/-- A value that is had in a state is still had later. -/
theorem later (hL : L.Sound) (hst : L.Allows L.inside s t) {v : Value} (hv : L.admits s v) :
    L.admits t v :=
  hL.keep (hL.widen hst.related) hv

/-- An act with which a step begins. -/
theorem act_first (hL : L.Sound) (hs : L.holds s) {v : Value} {w : World}
    (hact : World.Act s.world.heap (L.admits s) s.world v w) :
    L.Allows L.inside s (s.inWorld w) ∧ L.admits (s.inWorld w) v := by
  obtain ⟨hst, hv, -⟩ := hL.act (hL.same hs) hact
  exact ⟨hst, hv⟩

/-- A step may rely on what holds behind the step before it. -/
theorem bind (hL : L.Sound) {x : Eval α} {f : α → Eval β} (hx : L.Fits L.inside P s (x s))
    (hf : ∀ a t, L.Allows L.inside s t → P t a → L.Fits L.inside Q t (f a t)) :
    L.Fits L.inside Q s ((x >>= f) s) :=
  hx.bind hf id hL.trans

/-- What a statement does behind an expression. -/
theorem behind (hL : L.Sound) {x : Eval α} {f : α → Eval β} (hx : L.Fits L.inside P s (x s))
    (hf : ∀ a t, L.Allows L.inside s t → P t a → L.Fits L.around Q t (f a t)) :
    L.Fits L.around Q s ((x >>= f) s) :=
  hx.bind hf hL.widen fun hst htu => hL.chain (hL.widen hst) htu

/-- What a statement does behind another one. -/
theorem further (hL : L.Sound) {x : Eval α} {f : α → Eval β} (hx : L.Fits L.around P s (x s))
    (hf : ∀ a t, L.Allows L.around s t → P t a → L.Fits L.around Q t (f a t)) :
    L.Fits L.around Q s ((x >>= f) s) :=
  hx.bind hf id hL.chain

/-- What is allowed inside is allowed around. -/
theorem widened (hL : L.Sound) {r : Outcome α} (h : L.Fits L.inside P s r) :
    L.Fits L.around P s r :=
  h.mono (fun _ => hL.widen) fun _ _ => id

/-- A value that is admitted may be had. -/
theorem fits_pure (hL : L.Sound) (hs : L.holds s) {a : α} (ha : P s a) :
    L.Fits L.inside P s ((pure a : Eval α) s) :=
  .done (hL.same hs) ha

/-- A fault may be met anywhere. -/
theorem fits_fail (hL : L.Sound) (hs : L.holds s) (f : Fault) :
    L.Fits L.inside P s ((Eval.fail f : Eval α) s) :=
  .unwound (hL.same hs) fun _ h => nomatch h

/-- A result fits if its value is admitted. -/
theorem fits_ofExcept (hL : L.Sound) (hs : L.holds s) {r : Except Fault α}
    (hr : Answers (P s) r) : L.Fits L.inside P s (Eval.ofExcept r s) := by
  cases r with
  | ok a => exact hL.fits_pure hs (hr a rfl)
  | error f => exact hL.fits_fail hs f

/-- Looking at the state. -/
theorem fits_look (hL : L.Sound) (hs : L.holds s) (f : State → α) :
    L.Fits L.inside (fun t a => t = s ∧ a = f s) s (Eval.look f s) :=
  .done (hL.same hs) ⟨rfl, rfl⟩

/-- A change of the world that answers a result. -/
theorem fits_tryWorld {f : World → Except Fault α × World} {r : Except Fault α} {w : World}
    (hf : f t.world = (r, w)) (hw : L.Allows L.inside s (t.inWorld w))
    (hr : Answers (P (t.inWorld w)) r) : L.Fits L.inside P s (Eval.tryWorld f t) := by
  have hdone : Eval.tryWorld f t = Eval.ofExcept r (t.inWorld w) := by
    change Eval.ofExcept (f t.world).1 (t.inWorld (f t.world).2) = _
    rw [hf]
  rw [hdone]
  cases r with
  | ok a => exact .done hw (hr a rfl)
  | error e => exact .unwound hw fun _ h => nomatch h

/-- A change of the world forgets nothing of the nodes. -/
theorem tryWorld_memo {f : World → Except Fault α × World} {a : α} {t : State}
    (h : Eval.tryWorld f s = .done a t) : t.memo = s.memo := by
  have hstate := Eval.state?_tryWorld f s
  rw [h] at hstate
  cases hstate
  rfl

/-- A change of the heap that fails and changes nothing. -/
theorem fits_refused (hst : L.Allows L.inside s t) {f : Heap → Except Fault α × Heap}
    {e : Fault} (hf : f t.world.heap = (.error e, t.world.heap)) :
    L.Fits L.inside P s (Eval.tryHeap f t) := by
  have hworld : World.onHeap f t.world = (.error e, t.world) := by
    change ((f t.world.heap).1, t.world.withHeap (f t.world.heap).2) = _
    rw [hf]
    rfl
  exact fits_tryWorld hworld hst (answers_error e)

/-- A change of the heap that is an act, whatever it answers. -/
theorem fits_actOnHeap (hL : L.Sound) (hst : L.Allows L.inside s t)
    {f : Heap → Except Fault α × Heap} {r : Except Fault α} {h : Heap} {v : Value}
    (hf : f t.world.heap = (r, h))
    (hact : World.Act s.world.heap (L.admits t) t.world v (t.world.withHeap h))
    (hr : Answers (P (t.inWorld (t.world.withHeap h))) r) :
    L.Fits L.inside P s (Eval.tryHeap f t) := by
  have hworld : World.onHeap f t.world = (r, t.world.withHeap h) := by
    change ((f t.world.heap).1, t.world.withHeap (f t.world.heap).2) = _
    rw [hf]
  exact fits_tryWorld hworld (hL.act hst hact).1 hr

/-- Making the value of a plain result, in a world that was come to before. -/
theorem fits_finish (hL : L.Sound) {f : World → Except Fault Value × World} {w : World}
    {r : Except Fault Product} (hw : L.Allows L.inside s (s.inWorld w))
    (hf : f s.world = w.finish r) (hr : Answers Product.Plain r) :
    L.Fits L.inside L.admits s (Eval.tryWorld f s) := by
  cases r with
  | error e => exact fits_tryWorld hf hw (answers_error e)
  | ok p =>
    cases p with
    | value v => exact fits_tryWorld hf hw (answers_ok (hL.plain (hr _ rfl)))
    | text content =>
      obtain ⟨hst, hv, -⟩ := hL.act hw (.text content)
      exact fits_tryWorld hf hst (answers_ok hv)

/-- So does a product, which is plain or a new text. -/
theorem fits_produce (hL : L.Sound) (hs : L.holds s) {result : Heap → Except Fault Product}
    (hr : Answers Product.Plain (result s.world.heap)) :
    L.Fits L.inside L.admits s (Eval.produce result s) :=
  hL.fits_finish (hL.same hs) rfl hr

/-- A native function that only computes. -/
theorem fits_computed (hL : L.Sound) (hs : L.holds s) {f : World → Except Fault Value × World}
    {r : Except Fault Value} (hf : f s.world = (r, s.world)) (hr : Answers Value.Plain r) :
    L.Fits L.inside L.admits s (Eval.tryWorld f s) :=
  fits_tryWorld hf (hL.same hs) fun v hv => hL.plain (hr v hv)

/-! ## Native functions -/

/-- Whatever a call of a list answers was in the list, or is plain. -/
theorem list_result (hL : L.Sound) (hs : L.holds s) {r : ListRef} {m : ListMethod}
    (hr : L.admits s (.function (.native (.list r m)))) (call : ListCall) :
    Answers (L.admits s) (call.result (s.world.heap.items r)) := by
  cases call with
  | len => exact answers_ok (hL.plain (.int _))
  | item index =>
    refine answers_map (fun i => ?_) _
    cases hi : (s.world.heap.items r)[i]? with
    | none => exact hL.plain .null
    | some v => exact hL.lead hs hr (.listed (Array.mem_of_getElem? hi))
  | assign index v => exact answers_map (fun i => hL.plain .null) _
  | push v => exact answers_ok (hL.plain .null)
  | pop =>
    unfold ListCall.result
    dsimp only
    split
    · rename_i v hv
      exact answers_ok (hL.lead hs hr (.listed (Array.mem_of_back? hv)))
    · exact answers_error _

/-- The method of a list deals in its arguments and in the items of that list. -/
theorem fits_list (hL : L.Sound) (hs : L.holds s) (r : ListRef) (m : ListMethod)
    (hr : L.admits s (.function (.native (.list r m)))) {args : List Value}
    (hargs : ∀ a ∈ args, L.admits s a) :
    L.Fits L.inside L.admits s (Eval.tryHeap (m.apply r args) s) := by
  cases hcall : m.call s.world.heap args with
  | error e =>
    have happly : m.apply r args s.world.heap = (.error e, s.world.heap) := by
      unfold ListMethod.apply
      rw [hcall]
    exact fits_refused (hL.same hs) happly
  | ok call =>
    have happly : m.apply r args s.world.heap =
        (call.result (s.world.heap.items r), s.world.heap.modifyItems r call.after) := by
      unfold ListMethod.apply
      rw [hcall]
    have hstored : ∀ v ∈ call.after (s.world.heap.items r),
        v ∈ s.world.heap.items r ∨ L.admits s v := by
      intro v hv
      rcases ListCall.mem_after hv with h | h
      · exact Or.inl h
      · exact Or.inr (hargs v (ListMethod.stored_mem hcall h))
    have hact : World.Act s.world.heap (L.admits s) s.world .null _ := .items r call.after hstored
    refine hL.fits_actOnHeap (hL.same hs) happly hact ?_
    intro v hv
    exact hL.later (hL.act_first hs hact).1 (hL.list_result hs hr call v hv)

/-- The method of a map deals in its arguments and in what the map holds. -/
theorem fits_map (hL : L.Sound) (hs : L.holds s) (t : TableRef) (m : MapMethod)
    (ht : L.admits s (.function (.native (.map t m)))) {args : List Value}
    (hargs : ∀ a ∈ args, L.admits s a) :
    L.Fits L.inside L.admits s (Eval.tryHeap (m.apply t args) s) := by
  cases hcall : m.call args with
  | error e =>
    have happly : m.apply t args s.world.heap = (.error e, s.world.heap) := by
      unfold MapMethod.apply
      rw [hcall]
    exact fits_refused (hL.same hs) happly
  | ok call =>
    have happly : m.apply t args s.world.heap =
        (.ok (call.result (s.world.heap.table t)), s.world.heap.modifyTable t call.after) := by
      unfold MapMethod.apply
      rw [hcall]
    have hstored : ∀ k v, (call.after (s.world.heap.table t)).get? k = some v →
        (s.world.heap.table t).get? k = some v ∨ L.admits s v := by
      intro k v hv
      rcases MapCall.get?_after hv with h | h
      · exact Or.inl h
      · exact Or.inr (hargs v (MapMethod.stored_mem hcall h))
    have hresult : L.admits s (call.result (s.world.heap.table t)) := by
      cases call with
      | contains key => exact hL.plain (.bool _)
      | lookup key =>
        change L.admits s (((s.world.heap.table t).get? (MapKey.ofValue key)).getD .null)
        cases hk : (s.world.heap.table t).get? (MapKey.ofValue key) with
        | none => exact hL.plain .null
        | some v => exact hL.lead hs ht (.entry hk)
      | store key v => exact hargs v (MapMethod.stored_mem hcall rfl)
    have hact : World.Act s.world.heap (L.admits s) s.world .null _ :=
      .entries t call.after hstored
    have hafter := hL.later (hL.act_first hs hact).1 hresult
    exact hL.fits_actOnHeap (hL.same hs) happly hact (answers_ok hafter)

/-- A map is made with its table, its name and its functions. -/
theorem fits_newMap (hL : L.Sound) (hs : L.holds s) :
    L.Fits L.inside L.admits s
      (Eval.tryHeap (fun h => let (v, h) := h.newMap; (.ok v, h)) s) := by
  let h := s.world.heap
  have htable := fun m => hL.act_first hs (World.Act.table m)
  let u := s.inWorld (s.world.withHeap h.newTable.2)
  have hsu : L.Allows L.inside s u := (htable .contains).1
  obtain ⟨hname, htext⟩ := hL.act_first hsu.holds (.text "map")
  let v := u.inWorld (u.world.withHeap (u.world.heap.newText "map").2)
  let members := MapMethod.all.map fun m => (m.name, Value.function (.native (.map h.newTable.1 m)))
  let b : Bag := ⟨(Heap.nameProperty, (u.world.heap.newText "map").1) :: members⟩
  have hmembers : ∀ x p, b.get? x = some p → L.admits v p := by
    intro x p hp
    rcases List.mem_cons.1 (Assoc.mem_of_get? hp) with hfirst | hmem
    · cases hfirst
      exact htext
    · obtain ⟨m, -, hm⟩ := List.mem_map.1 hmem
      cases hm
      exact hL.later hname (htable m).2
  obtain ⟨hobject, hv⟩ := hL.act_first hname.holds (.object b hmembers)
  have hall := hL.trans (hL.trans hsu.related hname.related) hobject.related
  exact .done ⟨hobject.holds, hall⟩ hv

/-- A global function returns plain values, new texts and new maps. -/
theorem fits_global (hL : L.Sound) (hs : L.holds s) (f : GlobalFunction) {args : List Value} :
    L.Fits L.inside L.admits s (Eval.tryWorld (f.invoke args) s) := by
  have hnull : ∀ t, Answers (L.admits t) (.ok .null) := fun t => answers_ok (hL.plain .null)
  unfold GlobalFunction.invoke
  split
  · exact fits_tryWorld rfl (hL.act_first hs (.print _)).1 (hnull _)
  · exact fits_tryWorld rfl (hL.act_first hs (.eprint _)).1 (hnull _)
  · -- The word is read first, and a string is made of it then.
    exact hL.fits_finish (hL.act_first hs .input).1 rfl (answers_ok (Product.plain_word _))
  · exact fits_tryWorld rfl (hL.act_first hs .clock).1 (answers_ok (hL.plain (.int _)))
  · exact hL.fits_computed hs rfl (Conversion.plain_toInt _ _)
  · exact hL.fits_computed hs rfl (Conversion.plain_toFloat _ _)
  · exact hL.fits_finish (hL.same hs) rfl (answers_ok trivial)
  · exact hL.fits_computed hs rfl (answers_ok (.bool _))
  · exact hL.fits_newMap hs
  · exact hL.fits_computed hs rfl (answers_wrongCount _ _)

/-- A native function that is had, called with values that are had. -/
theorem fits_native (hL : L.Sound) (hs : L.holds s) {op : Native}
    (hop : L.admits s (.function (.native op))) {args : List Value}
    (hargs : ∀ a ∈ args, L.admits s a) :
    L.Fits L.inside L.admits s (Eval.tryWorld (op.invoke args) s) := by
  cases op with
  | text owner m => exact hL.fits_finish (hL.same hs) rfl (TextMethod.plain_apply _ _ _ _)
  | list r m => exact hL.fits_list hs r m hop hargs
  | map t m => exact hL.fits_map hs t m hop hargs
  | math f => exact hL.fits_computed hs rfl (MathFunction.plain_apply _ _ _)
  | global f => exact hL.fits_global hs f

end Sound

/-! ## Functions of an embedder -/

/-- What the functions of an embedder do with values that are had is lawful. -/
def Covers (L : Law) (host : Host) : Prop :=
  ∀ (s : State) (f : HostFunction) (args : List Value), L.holds s → (∀ a ∈ args, L.admits s a) →
    L.Fits L.inside L.admits s (Eval.tryWorld (host.invoke f args) s)

/-- A law under which every value may be had covers an embedder if it allows the worlds that the
functions leave. -/
theorem covers_of_allows {L : Law} (hadmits : ∀ s v, L.admits s v) {host : Host}
    (hworld : ∀ s f args, L.holds s →
      L.Allows L.inside s (s.inWorld (host.invoke f args s.world).2)) : L.Covers host := by
  intro s f args hs _
  exact Sound.fits_tryWorld rfl (hworld s f args hs) fun v _ => hadmits _ v

/-- Acts one after the other are lawful, and so is what comes of them. -/
theorem Sound.allows_acts {L : Law} (hL : L.Sound) {s : State} {A : Value → Prop} {w w' : World}
    {r : Except Fault Value} (h : World.Acts s.world.heap A w r w') :
    L.Allows L.inside s (s.inWorld w) → (∀ v, A v → L.admits (s.inWorld w) v) →
    L.Allows L.inside s (s.inWorld w') ∧ Answers (L.admits (s.inWorld w')) r := by
  induction h with
  | answer hv => exact fun hw hA => ⟨hw, answers_ok (hA _ hv)⟩
  | fail f => exact fun hw _ => ⟨hw, answers_error f⟩
  | plain hv _ ih =>
    refine fun hw hA => ih hw fun p hp => ?_
    rcases hp with hp | rfl
    · exact hA p hp
    · exact hL.plain hv
  | follow ho hl _ ih =>
    refine fun hw hA => ih hw fun p hp => ?_
    rcases hp with hp | rfl
    · exact hA p hp
    · exact hL.lead hw.holds (hA _ ho) hl
  | act hact _ ih =>
    intro hw hA
    obtain ⟨hu, hv, hkept⟩ := hL.act hw (hact.mono hA)
    refine ih hu fun p hp => ?_
    rcases hp with hp | rfl
    · exact hkept p (hA p hp)
    · exact hv

/-- Every law that is sound covers the functions of a modest embedder. -/
theorem Sound.covers {L : Law} (hL : L.Sound) {host : Host} (hhost : host.Modest) :
    L.Covers host := by
  intro s f args hs hargs
  obtain ⟨hst, hr⟩ := hL.allows_acts (hhost f args s.world) (hL.same hs) hargs
  exact fits_tryWorld rfl hst hr

/-! ## One level of a walk -/

/-- All that is asked of a walker keeps to a law. -/
structure Kept (L : Law) (w : Walker) : Prop where
  eval {s : State} (e : Expr) : L.holds s → L.Fits L.inside L.admits s (w.eval e s)
  exec {s : State} (t : Stmt) : L.holds s → L.Fits L.around Any s (w.exec t s)

namespace Sound

open Walker

variable {L : Law} {w : Walker} {config : Config} {s : State}

/-- Statements in a row: each starts where the one before it has left off. -/
theorem fits_execAll (hL : L.Sound) (hw : L.Kept w) (ts : List Stmt) :
    ∀ {s}, L.holds s → L.Fits L.around Any s (w.execAll ts s) := by
  induction ts with
  | nil => exact fun hs => hL.widened (hL.fits_pure hs trivial)
  | cons t ts ih => exact fun hs => hL.further (hw.exec t hs) fun _ u hsu _ => ih hsu.holds

/-- The values of arguments stay admitted while the others are evaluated. -/
theorem fits_evalAll (hL : L.Sound) (hw : L.Kept w) (es : List Expr) :
    ∀ {s}, L.holds s →
      L.Fits L.inside (fun t vs => ∀ v ∈ vs, L.admits t v) s (w.evalAll es s) := by
  induction es with
  | nil => exact fun hs => hL.fits_pure hs fun v hv => nomatch hv
  | cons e es ih =>
    intro s hs
    refine hL.bind (hw.eval e hs) fun v t hst hv => ?_
    refine hL.bind (ih hst.holds) fun vs u htu hvs => ?_
    refine hL.fits_pure htu.holds fun a ha => ?_
    rcases List.mem_cons.1 ha with rfl | ha
    · exact hL.later htu hv
    · exact hvs a ha

/-- A change of the heap that is an act. -/
theorem fits_onHeap (hL : L.Sound) (hs : L.holds s) {α : Type} {f : Heap → α × Heap} {v : Value}
    (hact : World.Act s.world.heap (L.admits s) s.world v
      (s.world.withHeap (f s.world.heap).2)) :
    L.Fits L.inside (fun t a => a = (f s.world.heap).1 ∧ L.admits t v) s (Eval.onHeap f s) :=
  .done (hL.act_first hs hact).1 ⟨rfl, (hL.act_first hs hact).2⟩

/-- An item is admitted when it is pushed. -/
theorem fits_pushAll (hL : L.Sound) (hw : L.Kept w) (r : ListRef) (es : List Expr) :
    ∀ {s}, L.holds s → L.Fits L.inside Any s (w.pushAll r es s) := by
  induction es with
  | nil => exact fun hs => hL.fits_pure hs trivial
  | cons e es ih =>
    intro s hs
    refine hL.bind (hw.eval e hs) fun v t hst hv => ?_
    have hpush : ∀ a ∈ (t.world.heap.items r).push v, a ∈ t.world.heap.items r ∨ L.admits t a := by
      intro a ha
      rcases Array.mem_push.1 ha with ha | rfl
      · exact Or.inl ha
      · exact Or.inr hv
    exact hL.bind (hL.fits_onHeap hst.holds (.items r (·.push v) hpush)) fun _ u htu _ =>
      ih htu.holds

/-- What is remembered of a literal is admitted. -/
theorem fits_literal (hL : L.Sound) (hs : L.holds s) (id : NodeId)
    {meaning : Unit → Except Fault Product} (hm : Answers Product.Plain (meaning ())) :
    L.Fits L.inside L.admits s (Walker.literal id meaning s) := by
  refine hL.bind (hL.fits_look hs _) ?_
  rintro known t hst ⟨rfl, rfl⟩
  cases hknown : t.memo.literals.get? id with
  | some v => exact hL.fits_pure hs (hL.literal hs hknown)
  | none =>
    have hmade : L.Fits L.inside (fun u v => L.admits u v ∧ u.memo = t.memo) t
        (Eval.produce (fun _ => meaning ()) t) :=
      (hL.fits_produce hs hm).also fun v u => tryWorld_memo
    refine hL.bind hmade fun v u htu hv => ?_
    have hnone : u.memo.literals.get? id = none := by rw [hv.2, hknown]
    have hput := hL.putLiteral htu.holds hnone hv.1
    exact .done hput (hL.later hput hv.1)

/-- The list of a literal is remembered, or it is new. -/
theorem fits_listOf (hL : L.Sound) (hs : L.holds s) (id : NodeId) :
    L.Fits L.inside (fun t r => L.admits t (.list r)) s (Walker.listOf id s) := by
  refine hL.bind (hL.fits_look hs _) ?_
  rintro known t hst ⟨rfl, rfl⟩
  cases hknown : t.memo.lists.get? id with
  | some r => exact hL.fits_pure hs (hL.list hs hknown)
  | none =>
    obtain ⟨htu, hr⟩ := hL.act_first hs (.list #[] fun v hv => nomatch hv)
    have hput := hL.putList htu.holds hknown hr
    exact .done ⟨hput.holds, hL.trans htu.related hput.related⟩ (hL.later hput hr)

/-- A property is added to an object that was not there in `s`, or nothing is changed. -/
theorem fits_addProperty (hL : L.Sound) (hst : L.Allows L.inside s t) {r : ObjectRef}
    (hnew : s.world.heap.objects.size ≤ r.index) (hr : L.admits t (.object r)) (x : String)
    {v : Value} (hv : L.admits t v) :
    L.Fits L.inside (fun u _ => L.admits u (.object r)) s
      (Eval.tryHeap (Heap.addProperty (.object r) x v) t) := by
  rcases Heap.changeBag_cases (.object r) (fun b => Bag.add b x v) _ t.world.heap with
    ⟨f, hrefused⟩ | ⟨b, b', hb, hb', hadded⟩
  · exact fits_refused hst hrefused
  · have hact : World.Act s.world.heap (L.admits t) t.world .null _ :=
      .add r b b' x v hb hb' hnew hr hv
    obtain ⟨-, -, hkept⟩ := hL.act hst hact
    exact hL.fits_actOnHeap hst hadded hact (answers_ok (hkept _ hr))

/-- The members of an object literal are added to an object that the literal itself has made. -/
theorem fits_addAll (hL : L.Sound) (hw : L.Kept w) {r : ObjectRef}
    (hnew : s.world.heap.objects.size ≤ r.index) (ms : List Member) :
    ∀ {t}, L.Allows L.inside s t → L.admits t (.object r) →
      L.Fits L.inside (fun u _ => L.admits u (.object r)) s (w.addAll r ms t) := by
  induction ms with
  | nil => exact fun hst hr => .done hst hr
  | cons m ms ih =>
    intro t hst hr
    have hvalue := (hw.eval m.value hst.holds).alsoOf fun u htu => hL.later htu hr
    refine (hvalue.after hst hL.trans).andThen (fun v u hsu hv => ?_) id
    refine (hL.fits_addProperty hsu hnew hv.2 m.name.name hv.1).andThen (fun _ o hso hr => ?_) id
    exact ih hso hr

/-- Setting a property stores a value, or changes nothing. -/
theorem fits_setProperty (hL : L.Sound) (hs : L.holds s) {o : Value} (ho : L.admits s o)
    (x : String) {v : Value} (hv : L.admits s v) :
    L.Fits L.inside Any s (Eval.tryHeap (Heap.setProperty o x v) s) := by
  rcases Heap.changeBag_cases o (fun b => Bag.set b x v) _ s.world.heap with
    ⟨f, hrefused⟩ | ⟨b, b', hb, hb', hset⟩
  · exact fits_refused (hL.same hs) hrefused
  · have hact : World.Act s.world.heap (L.admits s) s.world .null _ :=
      .property o b b' x v hb hb' ho hv
    exact hL.fits_actOnHeap (hL.same hs) hset hact (answers_ok trivial)

/-! ### Calls -/

/-- Null is admitted in place of a fault. -/
theorem fits_contain (hL : L.Sound) (hs : L.holds s) (config : Config) (f : Fault) :
    L.Fits L.inside L.admits s (contain config f s) := by
  unfold contain
  split
  · exact hL.fits_fail hs f
  · exact hL.fits_pure hs (hL.plain .null)

/-- A call takes up whatever the body ends with; what is returned is its value. -/
theorem fits_finishCall (hL : L.Sound) {body : Eval Unit} {t : State}
    (hbody : L.Fits L.inside Any s (body t)) :
    L.Fits L.inside L.admits s (finishCall config body t) := by
  unfold finishCall
  generalize body t = r at hbody
  cases hbody with
  | done hsu _ => exact .done hsu (hL.plain .null)
  | @unwound e u hsu hv =>
    cases e with
    | «return» v => exact .done hsu (hv v rfl)
    | jump j => exact (hL.fits_contain hsu.holds config _).after hsu hL.trans
    | fault f => exact (hL.fits_contain hsu.holds config _).after hsu hL.trans
  | exhausted => exact .exhausted

/-- What is done in a new frame is seen from outside as what the law allows inside, at whatever depth
it is left. -/
theorem fits_left (hL : L.Sound) (hs : L.holds s) {parent : Scope} {bindings : Bindings}
    {depth : Nat} {r : Outcome Unit} (hr : L.Fits L.around Any (s.entered parent bindings depth) r)
    (level : State → Nat) :
    L.Fits L.inside Any s (r.onState fun t => t.placed s.scope (level t)) := by
  cases hr with
  | @done _ t hst _ => exact .done (hL.leave (level t) hs hst).1 trivial
  | @unwound u t hst hv =>
    obtain ⟨hallows, hadmits⟩ := hL.leave (level t) hs hst
    exact .unwound hallows fun v hu => hadmits v (hv v hu)
  | exhausted => exact .exhausted

/-- A body is executed in a new frame, with its arguments bound there. -/
theorem fits_callClosure (hL : L.Sound) (hw : L.Kept w) (hs : L.holds s) {c : Closure}
    (hc : L.admits s (.function (.closure c))) {args : List Value}
    (hargs : ∀ a ∈ args, L.admits s a) :
    L.Fits L.inside L.admits s (w.callClosure config c args s) := by
  rw [callClosure_apply]
  split
  · exact hL.fits_contain hs config _
  · have hbindings : ∀ b ∈ c.decl.params.zip args, L.admits s b.2 := by
      intro b hb
      exact hargs b.2 (List.of_mem_zip hb).2
    have hentered := hL.enter (s.depth + 1) hs (Or.inr ⟨c, rfl, hc⟩) hbindings
    have hbody := hL.fits_execAll hw c.decl.body.stmts hentered
    -- The level that is counted before the body is taken back from what the body leaves.
    have hleft := hL.fits_left hs hbody fun t => t.depth - 1
    refine hL.fits_finishCall (t := { s with frames := _ }) ?_
    rw [Eval.counted_apply, Eval.inScope_apply, Outcome.onState_onState]
    exact hleft

/-- By the kind of function. -/
theorem fits_call (hL : L.Sound) (hhost : L.Covers config.host) (hw : L.Kept w) (hs : L.holds s)
    {f : Callable} (hf : L.admits s (.function f)) {args : List Value}
    (hargs : ∀ a ∈ args, L.admits s a) :
    L.Fits L.inside L.admits s (w.call config f args s) := by
  unfold call
  split
  · cases f with
    | native op => exact hL.fits_native hs hf hargs
    | host f => exact hhost s f args hs hargs
    | closure c => exact hL.fits_callClosure hw hs hf hargs
  · exact hL.fits_fail hs _

theorem fits_asFunction (hL : L.Sound) (hs : L.holds s) {v : Value} (hv : L.admits s v) :
    L.Fits L.inside (fun t f => L.admits t (.function f)) s (asFunction v s) := by
  unfold asFunction
  split
  · exact hL.fits_pure hs hv
  · exact hL.bind (hL.fits_look hs _) fun f t hst _ => hL.fits_fail hst.holds f

/-! ### Loops -/

/-- A jump is no value, so nothing need be admitted behind it. -/
theorem fits_goesOn {body : Eval Unit} (hbody : L.Fits L.around Any s (body s)) :
    L.Fits L.around Any s (goesOn body s) := by
  unfold goesOn
  generalize body s = r at hbody
  cases hbody with
  | done hst _ => exact .done hst trivial
  | @unwound u t hst hv =>
    cases u with
    | «return» v => exact .unwound hst hv
    | jump j =>
      cases j with
      | «break» => exact .done hst trivial
      | «continue» => exact .done hst trivial
    | fault f => exact .unwound hst hv
  | exhausted => exact .exhausted

/-- By induction on the rounds. -/
theorem fits_repeated (hL : L.Sound) {round : Eval Bool}
    (hround : ∀ {s}, L.holds s → L.Fits L.around Any s (round s)) (n : Nat) :
    ∀ {s}, L.holds s → L.Fits L.around Any s (repeated round n s) := by
  induction n with
  | zero => exact fun _ => .exhausted
  | succ n ih =>
    intro s hs
    rw [repeated_succ]
    refine hL.further (hround hs) fun more t hst _ => ?_
    split
    · exact ih hst.holds
    · exact hL.widened (hL.fits_pure hst.holds trivial)

/-- A round is a test, a body and a step. -/
theorem fits_loop (hL : L.Sound) (hw : L.Kept w) (test : Expr) {step : Eval Unit}
    (hstep : ∀ {s}, L.holds s → L.Fits L.around Any s (step s)) (body : Stmt) (n : Nat)
    (hs : L.holds s) : L.Fits L.around Any s (repeated (w.round test step body) n s) := by
  refine hL.fits_repeated (fun {s} hs => ?_) n hs
  refine hL.behind (hw.eval test hs) fun v t hst _ => ?_
  split
  · refine hL.further (fits_goesOn (hw.exec body hst.holds)) fun more u htu _ => ?_
    split
    · refine hL.further (hstep htu.holds) fun _ r hur _ => ?_
      exact hL.widened (hL.fits_pure hur.holds trivial)
    · exact hL.widened (hL.fits_pure htu.holds trivial)
  · exact hL.widened (hL.fits_pure hst.holds trivial)

/-! ### Nodes -/

/-- What is read by its name is admitted. -/
theorem answers_read (hL : L.Sound) (hs : L.holds s) (x : String) :
    Answers (L.admits s) (s.frames.read s.scope x) :=
  fun _ => hL.name hs

/-- An expression keeps to a law if what is asked about its parts does. -/
theorem fits_evaluate (hL : L.Sound) (hhost : L.Covers config.host) (hw : L.Kept w)
    (hs : L.holds s) (e : Expr) : L.Fits L.inside L.admits s (w.evaluate config e s) := by
  unfold evaluate
  cases e with
  | int span id raw => exact hL.fits_literal hs id (answers_map (fun n => .int n) _)
  | float span id raw => exact hL.fits_literal hs id (answers_map (fun x => .float x) _)
  | string span id raw => exact hL.fits_literal hs id (answers_map (fun _ => trivial) _)
  | bool span b => exact hL.fits_pure hs (hL.plain (.bool b))
  | null span => exact hL.fits_pure hs (hL.plain .null)
  | list span id items =>
    refine hL.bind (hL.fits_listOf hs id) fun r t hst hr => ?_
    have hclear : World.Act t.world.heap (L.admits t) t.world .null
        (t.world.withHeap (t.world.heap.modifyItems r fun _ => #[])) :=
      .items r _ fun v hv => nomatch hv
    refine hL.bind (hL.fits_onHeap hst.holds hclear) fun _ u htu _ => ?_
    refine hL.bind (hL.fits_pushAll hw r items htu.holds) fun _ o huo _ => ?_
    exact hL.fits_pure huo.holds (hL.later huo (hL.later htu hr))
  | object span members =>
    have hempty : World.Act s.world.heap (L.admits s) s.world _ _ :=
      .object {} fun x v hv => nomatch hv
    have hmade := hL.fits_onHeap (f := Heap.newObject {}) hs hempty
    refine hmade.andThen (fun r t hst hr => ?_) id
    obtain ⟨rfl, hr⟩ := hr
    refine (hL.fits_addAll hw (Nat.le_refl _) members hst hr).andThen (fun _ u hsu hr => ?_) id
    exact .done hsu hr
  | name span x =>
    refine hL.bind (hL.fits_look hs _) ?_
    rintro r t hst ⟨rfl, rfl⟩
    exact hL.fits_ofExcept hs (hL.answers_read hs x)
  | property span target x =>
    refine hL.bind (hw.eval target hs) fun v t hst hv => ?_
    refine hL.bind (hL.fits_look hst.holds _) ?_
    rintro p u htu ⟨rfl, rfl⟩
    cases hp : u.world.heap.property? v x.name with
    | some p => exact hL.fits_pure htu.holds (hL.lead htu.holds hv (.property hp))
    | none => exact hL.fits_fail htu.holds _
  | call span callee args =>
    refine hL.bind (hw.eval callee hs) fun v t hst hv => ?_
    refine hL.bind (hL.fits_asFunction hst.holds hv) fun f u htu hf => ?_
    refine hL.bind (hL.fits_evalAll hw args htu.holds) fun values o huo hvalues => ?_
    exact hL.fits_call hhost hw huo.holds (hL.later huo hf) hvalues
  | lambda span decl =>
    obtain ⟨hst, hv⟩ := hL.closure "" decl hs
    exact .done hst hv
  | binary span op left right =>
    refine hL.bind (hw.eval left hs) fun a t hst ha => ?_
    refine hL.bind (hw.eval right hst.holds) fun b u htu hb => ?_
    exact hL.fits_produce htu.holds (Operator.plain_binary _ op a b)
  | unary span op operand =>
    refine hL.bind (hw.eval operand hs) fun a t hst ha => ?_
    exact hL.fits_produce hst.holds (Operator.plain_unary _ op a)
  | logical span op left right =>
    refine hL.bind (hw.eval left hs) fun a t hst ha => ?_
    have choice : ∀ decided : Bool,
        L.Fits L.inside L.admits t ((if decided then pure a else w.eval right) t) := by
      intro decided
      split
      · exact hL.fits_pure hst.holds ha
      · exact hw.eval right hst.holds
    cases op <;> exact choice _
  | coalesce span left right =>
    refine hL.bind (hw.eval left hs) fun a t hst ha => ?_
    split
    · exact hw.eval right hst.holds
    · exact hL.fits_pure hst.holds ha

theorem fits_noteDefinition (hL : L.Sound) (hs : L.holds s) (id : NodeId) (name : String) :
    L.Fits L.inside Any s (noteDefinition id name s) := by
  refine hL.bind (hL.fits_look hs _) ?_
  rintro known t hst ⟨rfl, rfl⟩
  split
  · exact hL.fits_pure hs trivial
  · refine hL.bind (hL.fits_look hs _) ?_
    rintro taken u htu ⟨rfl, rfl⟩
    split
    · exact hL.fits_fail hs _
    · exact .done (hL.putDefined id hs) trivial

/-- A block is executed in a new frame. -/
theorem fits_execBlock (hL : L.Sound) (hw : L.Kept w) (hs : L.holds s) (b : Block) :
    L.Fits L.inside Any s (w.execBlock b s) := by
  have hentered : L.holds (s.entered s.scope [] s.depth) :=
    hL.enter s.depth hs (Or.inl rfl) fun _ h => nomatch h
  have hbody := hL.fits_execAll hw b.stmts hentered
  exact hL.fits_left hs hbody State.depth

/-- A statement keeps to a law if what is asked about its parts does. -/
theorem fits_execute (hL : L.Sound) (hw : L.Kept w) (hs : L.holds s) (t : Stmt) :
    L.Fits L.around Any s (w.execute t s) := by
  have unwinds : ∀ {t} (u : Unwind), L.holds t → (∀ v, u = .return v → L.admits t v) →
      L.Fits L.around (α := Unit) Any t (Eval.unwind u t) := by
    intro t u ht hu
    exact hL.widened (.unwound (hL.same ht) hu)
  unfold execute
  cases t with
  | expr e =>
    refine hL.behind (hw.eval e hs) fun v t hst _ => ?_
    exact hL.widened (hL.fits_pure hst.holds trivial)
  | assign span x e =>
    refine hL.behind (hL.fits_look hs _) ?_
    rintro target t hst ⟨rfl, rfl⟩
    refine hL.behind (hw.eval e hs) fun v u htu hv => ?_
    exact .done (hL.assign hs htu hv) trivial
  | assignProperty span target x e =>
    refine hL.behind (hw.eval target hs) fun o t hst ho => ?_
    refine hL.behind (hw.eval e hst.holds) fun v u htu hv => ?_
    exact hL.widened (hL.fits_setProperty htu.holds (hL.later htu ho) x.name hv)
  | define span id x decl =>
    refine hL.behind (hL.fits_noteDefinition hs id x.name) fun _ t hst _ => ?_
    refine hL.behind (hL.fits_look hst.holds _) ?_
    rintro scope u htu ⟨rfl, rfl⟩
    obtain ⟨hur, hf⟩ := hL.closure x.name decl htu.holds
    have hbound := hL.define x.name hur.holds hf
    exact .done ⟨hbound.holds, hL.chain (hL.widen hur.related) hbound.related⟩ trivial
  | cond span test yes no =>
    refine hL.behind (hw.eval test hs) fun v t hst _ => ?_
    split
    · exact hw.exec yes hst.holds
    · cases no with
      | some no => exact hw.exec no hst.holds
      | none => exact hL.widened (hL.fits_pure hst.holds trivial)
  | «while» span test body =>
    refine hL.fits_loop hw test (fun hs => ?_) body w.rounds hs
    exact hL.widened (hL.fits_pure hs trivial)
  | «for» span init test step body =>
    refine hL.further (hw.exec init hs) fun _ t hst _ => ?_
    exact hL.fits_loop hw test (hw.exec step) body w.rounds hst.holds
  | «break» span => exact unwinds _ hs fun v h => nomatch h
  | «continue» span => exact unwinds _ hs fun v h => nomatch h
  | «return» span value =>
    cases value with
    | none =>
      refine unwinds _ hs fun v h => ?_
      cases h
      exact hL.plain .null
    | some e =>
      refine hL.behind (hw.eval e hs) fun a t hst ha => ?_
      refine unwinds _ hst.holds fun v h => ?_
      cases h
      exact ha
  | write span e =>
    refine hL.behind (hw.eval e hs) fun v t hst _ => ?_
    exact hL.widened (.done (hL.act_first hst.holds (.print _)).1 trivial)
  | block b => exact hL.widened (hL.fits_execBlock hw hs b)

/-! ## Every level -/

/-- **Evaluations of every depth keep to a law that is sound.** -/
theorem kept_walker (hL : L.Sound) (hhost : L.Covers config.host) (n : Nat) :
    L.Kept (walker config n) := by
  induction n with
  | zero => exact ⟨fun e _ => .exhausted, fun t _ => .exhausted⟩
  | succ n ih =>
    exact ⟨fun e hs => hL.fits_evaluate hhost ih hs e, fun t hs => hL.fits_execute ih hs t⟩

end Sound

/-! ## Two laws at once -/

/-- What two laws ask for. -/
def both (L M : Law) : Law where
  holds s := L.holds s ∧ M.holds s
  admits s v := L.admits s v ∧ M.admits s v
  inside s t := L.inside s t ∧ M.inside s t
  around s t := L.around s t ∧ M.around s t

variable {L M : Law} {R S : State → State → Prop} {s t : State}

/-- What two laws allow is allowed by both together. -/
theorem Allows.both (hL : L.Allows R s t) (hM : M.Allows S s t) :
    (L.both M).Allows (fun s t => R s t ∧ S s t) s t :=
  ⟨⟨hL.holds, hM.holds⟩, ⟨hL.related, hM.related⟩⟩

theorem Allows.left (h : (L.both M).Allows (fun s t => R s t ∧ S s t) s t) : L.Allows R s t :=
  ⟨h.holds.1, h.related.1⟩

theorem Allows.right (h : (L.both M).Allows (fun s t => R s t ∧ S s t) s t) : M.Allows S s t :=
  ⟨h.holds.2, h.related.2⟩

/-- Two sound laws are sound together. -/
theorem Sound.both (hL : L.Sound) (hM : M.Sound) : (L.both M).Sound where
  refl s := ⟨hL.refl s, hM.refl s⟩
  trans h h' := ⟨hL.trans h.1 h'.1, hM.trans h.2 h'.2⟩
  widen h := ⟨hL.widen h.1, hM.widen h.2⟩
  chain h h' := ⟨hL.chain h.1 h'.1, hM.chain h.2 h'.2⟩
  keep h hv := ⟨hL.keep h.1 hv.1, hM.keep h.2 hv.2⟩
  plain hv := ⟨hL.plain hv, hM.plain hv⟩
  name hs hv := ⟨hL.name hs.1 hv, hM.name hs.2 hv⟩
  lead hs ho hv := ⟨hL.lead hs.1 ho.1 hv, hM.lead hs.2 ho.2 hv⟩
  literal hs hv := ⟨hL.literal hs.1 hv, hM.literal hs.2 hv⟩
  list hs hr := ⟨hL.list hs.1 hr, hM.list hs.2 hr⟩
  act hst hact := by
    obtain ⟨hleft, hv, hkept⟩ := hL.act hst.left (hact.mono fun _ => And.left)
    obtain ⟨hright, hv', hkept'⟩ := hM.act hst.right (hact.mono fun _ => And.right)
    exact ⟨hleft.both hright, ⟨hv, hv'⟩, fun p hp => ⟨hkept p hp.1, hkept' p hp.2⟩⟩
  closure name decl hs := by
    obtain ⟨hst, hv⟩ := hL.closure name decl hs.1
    obtain ⟨hst', hv'⟩ := hM.closure name decl hs.2
    exact ⟨hst.both hst', hv, hv'⟩
  putLiteral hs hnone hv := (hL.putLiteral hs.1 hnone hv.1).both (hM.putLiteral hs.2 hnone hv.2)
  putList hs hnone hr := (hL.putList hs.1 hnone hr.1).both (hM.putList hs.2 hnone hr.2)
  putDefined id hs := (hL.putDefined id hs.1).both (hM.putDefined id hs.2)
  assign hs hst hv := (hL.assign hs.1 hst.left hv.1).both (hM.assign hs.2 hst.right hv.2)
  define x _ hs hv := (hL.define x hs.1 hv.1).both (hM.define x hs.2 hv.2)
  enter depth hs hparent hbindings := by
    refine ⟨hL.enter depth hs.1 ?_ fun b hb => (hbindings b hb).1,
      hM.enter depth hs.2 ?_ fun b hb => (hbindings b hb).2⟩
    · exact hparent.imp_right fun ⟨c, hc, hv⟩ => ⟨c, hc, hv.1⟩
    · exact hparent.imp_right fun ⟨c, hc, hv⟩ => ⟨c, hc, hv.2⟩
  leave depth hs hst := by
    obtain ⟨hback, hv⟩ := hL.leave depth hs.1 hst.left
    obtain ⟨hback', hv'⟩ := hM.leave depth hs.2 hst.right
    exact ⟨hback.both hback', fun v h => ⟨hv v h.1, hv' v h.2⟩⟩

end Law

end SmallScript
