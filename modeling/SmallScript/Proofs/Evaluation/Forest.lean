/-
  The forest of frames.

  Scopes are made in two ways, with nothing around them or right inside another, and are handed
  around from then on.  A forest is the frames together with all scopes that were made.  What is
  around a frame is then found by following the links to the frames right around it, as the
  searches for a name do; that this ends, and always in the same way, is not a matter of one scope
  but of how the forest has grown: a link leads to a frame that was opened earlier, and no frame is
  opened twice (`Forest.Rooted`).
-/
import SmallScript.Proofs.Evaluation.Names
import SmallScript.Proofs.Evaluation.Standing

namespace SmallScript

/-! ## Searches for a name -/

namespace Frames

variable {fs gs : Frames} {s : Scope} {x : String} {v : Value} {e : Fault}
  {compute : Frames → Except Fault Value × Frames}

theorem firstBinding?_append {g : FrameRef} {inner outer : List FrameRef}
    (hinner : ∀ f ∈ inner, fs.local? f x = none) (hg : (fs.local? g x).isSome) :
    fs.firstBinding? x (inner ++ g :: outer) = some g := by
  induction inner with
  | nil => exact if_pos hg
  | cons f inner ih =>
    have hf : ¬ (fs.local? f x).isSome :=
      Option.not_isSome_iff_eq_none.2 (hinner f List.mem_cons_self)
    exact (if_neg hf).trans (ih fun f' hf' => hinner f' (List.mem_cons_of_mem f hf'))

/-- What is found is the first frame of the chain that binds the name. -/
theorem find?_eq_some {g : FrameRef} : fs.find? s x = some g ↔
    ∃ inner outer, s.chain = inner ++ g :: outer ∧ (∀ f ∈ inner, fs.local? f x = none) ∧
      (fs.local? g x).isSome := by
  constructor
  · intro h
    obtain ⟨inner, outer, hchain, hinner, hg⟩ := firstBinding?_eq_some h
    exact ⟨inner, outer, hchain, fun f hf => local?_of_not_binds (hinner f hf), hg⟩
  · rintro ⟨inner, outer, hchain, hinner, hg⟩
    unfold find?
    rw [hchain]
    exact firstBinding?_append hinner hg

theorem find?_eq_none : fs.find? s x = none ↔ ∀ f ∈ s.chain, fs.local? f x = none := by
  constructor
  · exact fun h f hf => local?_of_not_binds (firstBinding?_eq_none h f hf)
  · intro h
    cases hfind : fs.find? s x with
    | none => rfl
    | some g =>
      obtain ⟨inner, outer, hchain, -, hg⟩ := find?_eq_some.1 hfind
      have hmem : g ∈ s.chain := hchain ▸ List.mem_append_right inner List.mem_cons_self
      rw [h g hmem] at hg
      cases hg

/-- The two searches along the chain agree where something is found. -/
theorem read_eq_ok :
    fs.read s x = .ok v ↔ ∃ g, fs.find? s x = some g ∧ fs.local? g x = some v := by
  have hvalue : fs.firstValue? x s.chain = (fs.find? s x).bind fun g => fs.local? g x :=
    fs.firstValue?_eq x s.chain
  unfold read
  rw [hvalue, ← Option.bind_eq_some_iff]
  cases (fs.find? s x).bind fun g => fs.local? g x with
  | none => exact iff_of_false (fun h => by cases h) (fun h => by cases h)
  | some w => simp only [Except.ok.injEq, Option.some.injEq]

/-- So they do where nothing is found, and there is no other failure. -/
theorem read_eq_error :
    fs.read s x = .error e ↔ e = .undefinedVariable x ∧ fs.find? s x = none := by
  cases hfind : fs.find? s x with
  | none =>
    have hvalue : fs.firstValue? x s.chain = none :=
      (fs.firstValue?_eq x s.chain).trans (congrArg (Option.bind · _) hfind)
    unfold read
    rw [hvalue]
    simp only [Except.error.injEq, and_true, eq_comm]
  | some g =>
    obtain ⟨-, -, -, -, hg⟩ := find?_eq_some.1 hfind
    obtain ⟨v, hv⟩ := Option.isSome_iff_exists.1 hg
    have hread : fs.read s x = .ok v := read_eq_ok.2 ⟨g, hfind, hv⟩
    rw [hread]
    exact iff_of_false (fun h => by cases h) (fun h => by cases h.2)

theorem write_of_ok (h : compute fs = (.ok v, gs)) :
    fs.write s x compute = (.ok (), gs.define (fs.owner s x) x v) := by
  unfold write
  rw [h]

theorem write_of_error (h : compute fs = (.error e, gs)) :
    fs.write s x compute = (.error e, gs) := by
  unfold write
  rw [h]

/-- An assignment opens no frames beyond those of its computation. -/
theorem size_write {r : Except Fault Value} (h : compute fs = (r, gs)) :
    (fs.write s x compute).2.bags.size = gs.bags.size := by
  cases r with
  | ok v =>
    rw [write_of_ok h]
    exact size_define _ _ _ _
  | error e => rw [write_of_error h]

end Frames

/-! ## Forests -/

/-- Frames with all scopes that were made for them. -/
structure Forest where
  frames : Frames := {}
  scopes : List Scope := []

namespace Forest

/-- What can be done with a forest, one after the other: scopes are made, and names are bound
through scopes that there are.  The computation of an assignment is one of the frames only, but does
the same to the forest as something that can be done. -/
inductive Becomes : Forest → Forest → Prop where
  | refl {F : Forest} : Becomes F F
  | global {F G : Forest} :
      Becomes F G → Becomes F ⟨G.frames.openGlobal.2, G.frames.openGlobal.1 :: G.scopes⟩
  | child {F G : Forest} {s : Scope} : Becomes F G → s ∈ G.scopes →
      Becomes F ⟨(G.frames.openChild s).2, (G.frames.openChild s).1 :: G.scopes⟩
  | define {F G : Forest} {s : Scope} (x : String) (v : Value) : Becomes F G → s ∈ G.scopes →
      Becomes F ⟨G.frames.define s.frame x v, G.scopes⟩
  | install {F G : Forest} {s : Scope} (bindings : Bindings) : Becomes F G → s ∈ G.scopes →
      Becomes F ⟨G.frames.defineAll s.frame bindings, G.scopes⟩
  | write {F G H : Forest} {s : Scope} (x : String)
      {compute : Frames → Except Fault Value × Frames} {r : Except Fault Value} :
      Becomes F G → s ∈ G.scopes → Becomes G H → compute G.frames = (r, H.frames) →
      Becomes F ⟨(G.frames.write s x compute).2, H.scopes⟩

variable {F G : Forest}

/-- The link from a frame to the one right around it. -/
def Link (F : Forest) (f g : FrameRef) : Prop :=
  ∃ s ∈ F.scopes, s.frame = f ∧ ∃ p, s.parent? = some p ∧ p.frame = g

/-- The frames on the way along the links, until there is none. -/
inductive Chain (F : Forest) : FrameRef → List FrameRef → Prop where
  | root {f : FrameRef} : (∀ g, ¬ F.Link f g) → Chain F f [f]
  | inside {f g : FrameRef} {fs : List FrameRef} : F.Link f g → Chain F g fs → Chain F f (f :: fs)

/-! ## How a forest has grown -/

/-- A forest that has grown from nothing. -/
structure Rooted (F : Forest) : Prop where
  stands : ∀ s ∈ F.scopes, s.Stands F.frames.bags.size
  unique : ∀ s ∈ F.scopes, ∀ t ∈ F.scopes, s.frame = t.frame → s = t
  parent : ∀ s ∈ F.scopes, ∀ p, s.parent? = some p → p ∈ F.scopes
  framed : ∀ f : FrameRef, f.index < F.frames.bags.size → ∃ s ∈ F.scopes, s.frame = f

theorem rooted_empty : Rooted {} where
  stands _ hs := absurd hs List.not_mem_nil
  unique _ hs := absurd hs List.not_mem_nil
  parent _ hs := absurd hs List.not_mem_nil
  framed f hf := absurd hf (Nat.not_lt_zero f.index)

namespace Rooted

variable {s : Scope}

/-- A frame is opened inside frames that are there. -/
theorem opened (hF : F.Rooted) {outer : List FrameRef}
    (hstands : (F.frames.openFrame outer).1.Stands (F.frames.bags.size + 1))
    (hparent : ∀ p, (F.frames.openFrame outer).1.parent? = some p → p ∈ F.scopes) :
    Rooted ⟨(F.frames.openFrame outer).2, (F.frames.openFrame outer).1 :: F.scopes⟩ := by
  have hsize : (F.frames.openFrame outer).2.bags.size = F.frames.bags.size + 1 := Array.size_push _
  -- The new frame is not that of a scope there was.
  have hnew : ∀ s ∈ F.scopes, s.frame ≠ (F.frames.openFrame outer).1.frame := by
    intro s hs heq
    have hlt := (hF.stands s hs).frame
    rw [heq] at hlt
    exact Nat.lt_irrefl _ hlt
  refine ⟨fun s hs => ?_, fun s hs t ht heq => ?_, fun s hs p hp => ?_, fun f hf => ?_⟩
  · change s.Stands (F.frames.openFrame outer).2.bags.size
    rw [hsize]
    rcases List.mem_cons.1 hs with rfl | hs
    · exact hstands
    · exact (hF.stands s hs).mono (Nat.le_succ _)
  · rcases List.mem_cons.1 hs with rfl | hs <;> rcases List.mem_cons.1 ht with rfl | ht
    · rfl
    · exact absurd heq.symm (hnew t ht)
    · exact absurd heq (hnew s hs)
    · exact hF.unique s hs t ht heq
  · refine List.mem_cons_of_mem _ ?_
    rcases List.mem_cons.1 hs with rfl | hs
    · exact hparent p hp
    · exact hF.parent s hs p hp
  · change f.index < (F.frames.openFrame outer).2.bags.size at hf
    rw [hsize] at hf
    rcases Nat.lt_succ_iff_lt_or_eq.1 hf with hlt | heq
    · obtain ⟨s, hs, hframe⟩ := hF.framed f hlt
      exact ⟨s, List.mem_cons_of_mem _ hs, hframe⟩
    · exact ⟨_, List.mem_cons_self, congrArg FrameRef.mk heq.symm⟩

theorem global (hF : F.Rooted) :
    Rooted ⟨F.frames.openGlobal.2, F.frames.openGlobal.1 :: F.scopes⟩ := by
  refine hF.opened ⟨Nat.lt_succ_self _, List.pairwise_singleton _ _⟩ fun p hp => ?_
  exact absurd hp (Option.not_mem_none p)

theorem child (hF : F.Rooted) (hs : s ∈ F.scopes) :
    Rooted ⟨(F.frames.openChild s).2, (F.frames.openChild s).1 :: F.scopes⟩ := by
  refine hF.opened (hF.stands s hs).child fun p hp => ?_
  cases hp
  exact hs

/-- Binding names leaves the forest as it has grown. -/
theorem rebound (hF : F.Rooted) {frames : Frames} (hsize : frames.bags.size = F.frames.bags.size) :
    Rooted ⟨frames, F.scopes⟩ where
  stands s hs := hsize ▸ hF.stands s hs
  unique := hF.unique
  parent := hF.parent
  framed f hf := hF.framed f (hsize ▸ hf)

end Rooted

/-- What is done with a forest leaves it grown, and keeps its scopes. -/
theorem Becomes.rooted (h : F.Becomes G) (hF : F.Rooted) : G.Rooted ∧ F.scopes ⊆ G.scopes := by
  induction h with
  | refl => exact ⟨hF, fun _ hs => hs⟩
  | global _ ih =>
    obtain ⟨hG, hsub⟩ := ih hF
    exact ⟨hG.global, fun s hs => List.mem_cons_of_mem _ (hsub hs)⟩
  | child _ hs ih =>
    obtain ⟨hG, hsub⟩ := ih hF
    exact ⟨hG.child hs, fun s hs => List.mem_cons_of_mem _ (hsub hs)⟩
  | define x v _ _ ih =>
    obtain ⟨hG, hsub⟩ := ih hF
    exact ⟨hG.rebound (Frames.size_define _ _ x v), hsub⟩
  | install bindings _ _ ih =>
    obtain ⟨hG, hsub⟩ := ih hF
    exact ⟨hG.rebound (Frames.size_defineAll _ bindings _), hsub⟩
  | write x _ _ _ hcompute ih ihcompute =>
    obtain ⟨hG, hsub⟩ := ih hF
    obtain ⟨hH, hsub'⟩ := ihcompute hG
    exact ⟨hH.rebound (Frames.size_write hcompute), fun s hs => hsub' (hsub hs)⟩

/-! ## Along the links -/

namespace Rooted

variable {s : Scope} {f g : FrameRef} {fs : List FrameRef}

/-- The links of a frame are those of its one scope. -/
theorem link_iff (hF : F.Rooted) (hs : s ∈ F.scopes) :
    F.Link s.frame g ↔ ∃ p, s.parent? = some p ∧ p.frame = g := by
  constructor
  · rintro ⟨t, ht, hframe, hparent⟩
    rw [hF.unique t ht s hs hframe] at hparent
    exact hparent
  · exact fun hparent => ⟨s, hs, rfl, hparent⟩

/-- A link leads to a frame that was opened earlier. -/
theorem lt_of_link (hF : F.Rooted) (h : F.Link f g) : g.index < f.index := by
  obtain ⟨s, hs, rfl, p, hp, rfl⟩ := h
  have houtward := (List.pairwise_cons.1 (hF.stands s hs).outward).1
  unfold Scope.parent? at hp
  split at hp
  · cases hp
  · rename_i f fs houter
    cases hp
    exact houtward f (houter ▸ List.mem_cons_self)

/-- Along the links one comes to the frames of the scope, and nowhere else. -/
theorem chain_iff (hF : F.Rooted) (hs : s ∈ F.scopes) : F.Chain s.frame fs ↔ fs = s.chain := by
  obtain ⟨f, outer⟩ := s
  induction outer generalizing f fs with
  | nil =>
    have hnone : ∀ g, ¬ F.Link f g := by
      intro g hlink
      obtain ⟨p, hp, -⟩ := (hF.link_iff hs).1 hlink
      exact absurd hp (Option.not_mem_none p)
    constructor
    · intro h
      cases h with
      | root _ => rfl
      | inside hlink _ => exact absurd hlink (hnone _)
    · rintro rfl
      exact .root hnone
  | cons g outer ih =>
    have hparent : (⟨g, outer⟩ : Scope) ∈ F.scopes := hF.parent _ hs _ rfl
    have hlink : F.Link f g := (hF.link_iff hs).2 ⟨_, rfl, rfl⟩
    constructor
    · intro h
      cases h with
      | root hnone => exact absurd hlink (hnone g)
      | inside hother hrest =>
        obtain ⟨p, hp, rfl⟩ := (hF.link_iff hs).1 hother
        cases hp
        exact congrArg (f :: ·) ((ih _ hparent).1 hrest)
    · rintro rfl
      exact .inside hlink ((ih _ hparent).2 rfl)

end Rooted

/-- **Searches along chains.**  In a forest that has grown from nothing each frame has one scope.
Its links lead to frames that were opened earlier; along them one comes to the frames of the scope,
and whatever is done with the forest later, still to those.  What is found is the first of them that
binds the name; `read` gives what that one binds it to, and fails just where none is found.  An
assignment whose computation succeeds binds the name where it was found before the computation, or
else in the frame of the scope, and changes nothing else that the computation left; one whose
computation fails leaves what the computation left. -/
theorem searches_along_chains (hF : Becomes {} F) :
    (∀ f : FrameRef, f.index < F.frames.bags.size → ∃! s, s ∈ F.scopes ∧ s.frame = f) ∧
    (∀ f g, F.Link f g → g.index < f.index ∧ f.index < F.frames.bags.size) ∧
    ∀ s ∈ F.scopes,
      (s.depth + 1 = s.chain.length ∧
        ∀ G, F.Becomes G → s ∈ G.scopes ∧ ∀ fs, G.Chain s.frame fs ↔ fs = s.chain) ∧
      ∀ x,
        ((∀ g, F.frames.find? s x = some g ↔ ∃ inner outer, s.chain = inner ++ g :: outer ∧
            (∀ f ∈ inner, F.frames.local? f x = none) ∧ (F.frames.local? g x).isSome) ∧
          (F.frames.find? s x = none ↔ ∀ f ∈ s.chain, F.frames.local? f x = none)) ∧
        ((∀ v, F.frames.read s x = .ok v ↔
            ∃ g, F.frames.find? s x = some g ∧ F.frames.local? g x = some v) ∧
          ∀ e, F.frames.read s x = .error e ↔
            e = .undefinedVariable x ∧ F.frames.find? s x = none) ∧
        ∀ H, F.Becomes H → ∀ compute,
          (∀ v, compute F.frames = (.ok v, H.frames) → ∃ after,
            F.frames.write s x compute = (.ok (), after) ∧ ∀ g y, after.local? g y =
              if g = (F.frames.find? s x).getD s.frame ∧ y = x then some v
              else H.frames.local? g y) ∧
          ∀ e, compute F.frames = (.error e, H.frames) →
            F.frames.write s x compute = (.error e, H.frames) := by
  have hroot : F.Rooted := (hF.rooted rooted_empty).1
  refine ⟨fun f hf => ?_, fun f g hlink => ?_, fun s hs => ⟨⟨rfl, fun G hG => ?_⟩, fun x => ?_⟩⟩
  · obtain ⟨s, hs, hframe⟩ := hroot.framed f hf
    refine ⟨s, ⟨hs, hframe⟩, fun t ht => ?_⟩
    exact hroot.unique t ht.1 s hs (ht.2.trans hframe.symm)
  · refine ⟨hroot.lt_of_link hlink, ?_⟩
    obtain ⟨s, hs, rfl, -⟩ := hlink
    exact (hroot.stands s hs).frame
  · obtain ⟨hG, hsub⟩ := hG.rooted hroot
    exact ⟨hsub hs, fun fs => hG.chain_iff (hsub hs)⟩
  refine ⟨⟨fun g => Frames.find?_eq_some, Frames.find?_eq_none⟩,
    ⟨fun v => Frames.read_eq_ok, fun e => Frames.read_eq_error⟩,
    fun H hH compute => ⟨fun v hv => ⟨_, Frames.write_of_ok hv, fun g y => ?_⟩,
      fun e he => Frames.write_of_error he⟩⟩
  -- The frame that was found is still there when the value has been computed.
  have howner : (F.frames.owner s x).index < H.frames.bags.size := by
    obtain ⟨hHroot, hsub⟩ := hH.rooted hroot
    have hchain := (F.frames.assigns_owner s x).mem_chain
    exact (hHroot.stands s (hsub hs)).lt_size _ hchain
  rw [Frames.local?_define]
  refine if_congr ?_ rfl rfl
  change F.frames.owner s x = g ∧ x = y ∧ _ ↔ g = F.frames.owner s x ∧ y = x
  exact ⟨fun h => ⟨h.1.symm, h.2.1.symm⟩, fun h => ⟨h.1.symm, h.2.symm, howner⟩⟩

/-- A global frame that binds `a`, and a frame inside it. -/
def nested : Forest where
  frames := ⟨#[⟨[("a", .null)]⟩, ⟨[]⟩]⟩
  scopes := [⟨⟨1⟩, [⟨0⟩]⟩, ⟨⟨0⟩, []⟩]

theorem becomes_nested : Becomes {} nested :=
  Becomes.child (s := ⟨⟨0⟩, []⟩)
    (.define (s := ⟨⟨0⟩, []⟩) "a" .null (.global .refl) List.mem_cons_self) List.mem_cons_self

/-- What binds `z` in the global frame, and then gives or throws something. -/
def bindingZ (r : Except Fault Value) (fs : Frames) : Except Fault Value × Frames :=
  (r, fs.define ⟨0⟩ "z" .null)

/-- Inside, `a` is found in the global frame; `z` is bound inside, as it was bound nowhere before
the computation that binds it in the global frame, and it is not bound inside if that fails. -/
theorem searches_in_nested :
    Becomes {} nested ∧ nested.Chain ⟨1⟩ [⟨1⟩, ⟨0⟩] ∧
    nested.frames.read ⟨⟨1⟩, [⟨0⟩]⟩ "a" = .ok .null ∧
    (∃ after, nested.frames.write ⟨⟨1⟩, [⟨0⟩]⟩ "z" (bindingZ (.ok (.bool true))) = (.ok (), after) ∧
      after.local? ⟨1⟩ "z" = some (.bool true) ∧ after.local? ⟨0⟩ "z" = some .null) ∧
    nested.frames.write ⟨⟨1⟩, [⟨0⟩]⟩ "z" (bindingZ (.error .divisionByZero)) =
      (.error .divisionByZero, nested.frames.define ⟨0⟩ "z" .null) := by
  have hz : nested.Becomes ⟨nested.frames.define ⟨0⟩ "z" .null, nested.scopes⟩ :=
    .define (s := ⟨⟨0⟩, []⟩) "z" .null .refl (List.mem_cons_of_mem _ List.mem_cons_self)
  obtain ⟨-, -, hscopes⟩ := searches_along_chains becomes_nested
  obtain ⟨⟨-, hchain⟩, hnames⟩ := hscopes ⟨⟨1⟩, [⟨0⟩]⟩ List.mem_cons_self
  obtain ⟨-, ⟨hread, -⟩, -⟩ := hnames "a"
  obtain ⟨-, -, hwrite⟩ := hnames "z"
  obtain ⟨after, hafter, hlocal⟩ := (hwrite _ hz (bindingZ (.ok (.bool true)))).1 _ rfl
  refine ⟨becomes_nested, ((hchain nested .refl).2 _).2 rfl, (hread .null).2 ⟨⟨0⟩, rfl, rfl⟩,
    ⟨after, hafter, (hlocal _ _).trans rfl, (hlocal _ _).trans rfl⟩,
    (hwrite _ hz (bindingZ (.error .divisionByZero))).2 _ rfl⟩

end Forest

end SmallScript
