/-
  Which names are bound where.

  Only a statement brings a name into a frame, and only into the frame it is executed in.  What an
  expression, a call or a block does, it does to names that are bound already, or in frames of its
  own; and a name that is bound stays bound.  As a law (`namesLaw`) this goes through every
  evaluation.

  It makes the meaning of an assignment simple.  The frame is chosen before the value is computed,
  and the computation may bind the same name elsewhere, but not in the frames between: they are
  there already, and the computation is an expression.  So the name is read back from the frame
  that was chosen.
-/
import SmallScript.Proofs.Evaluation.Law

namespace SmallScript

/-! ## Names in frames -/

namespace Frames

/-- A frame itself binds a name. -/
def Binds (fs : Frames) (f : FrameRef) (x : String) : Prop := (fs.local? f x).isSome

variable {fs gs hs : Frames} {f g : FrameRef} {x y : String}

theorem Binds.lt_size (h : fs.Binds f x) : f.index < fs.bags.size := by
  obtain ⟨v, hv⟩ := Option.isSome_iff_exists.1 h
  exact lt_size_of_local? hv

theorem Binds.congr (h : gs.local? f x = fs.local? f x) : gs.Binds f x ↔ fs.Binds f x := by
  unfold Binds
  rw [h]

theorem local?_of_not_binds (h : ¬ fs.Binds f x) : fs.local? f x = none :=
  Option.not_isSome_iff_eq_none.1 h

theorem binds_define {v : Value} :
    (fs.define f x v).Binds g y ↔ (f = g ∧ x = y ∧ f.index < fs.bags.size) ∨ fs.Binds g y := by
  unfold Binds
  rw [local?_define]
  split
  · rename_i h
    exact iff_of_true rfl (Or.inl h)
  · rename_i h
    exact ⟨Or.inr, fun h' => h'.resolve_left h⟩

/-- Each frame that is there binds the same names afterwards; there may be new frames. -/
structure SameNames (fs gs : Frames) : Prop where
  size : fs.bags.size ≤ gs.bags.size
  names : ∀ g, g.index < fs.bags.size → ∀ x, gs.Binds g x ↔ fs.Binds g x

/-- One frame may bind more names afterwards; there may be new frames. -/
structure AddsNamesIn (f : FrameRef) (fs gs : Frames) : Prop where
  size : fs.bags.size ≤ gs.bags.size
  names : ∀ g, g ≠ f → g.index < fs.bags.size → ∀ x, gs.Binds g x ↔ fs.Binds g x
  kept : ∀ g x, fs.Binds g x → gs.Binds g x

theorem SameNames.refl (fs : Frames) : SameNames fs fs := ⟨Nat.le_refl _, fun _ _ _ => Iff.rfl⟩

theorem SameNames.trans (h : SameNames fs gs) (h' : SameNames gs hs) : SameNames fs hs := by
  refine ⟨Nat.le_trans h.size h'.size, fun g hg x => ?_⟩
  have hg' : g.index < gs.bags.size := Nat.lt_of_lt_of_le hg h.size
  rw [h'.names g hg' x, h.names g hg x]

theorem SameNames.kept (h : SameNames fs gs) (hb : fs.Binds g x) : gs.Binds g x :=
  (h.names g hb.lt_size x).2 hb

theorem SameNames.addsNamesIn (h : SameNames fs gs) : AddsNamesIn f fs gs :=
  ⟨h.size, fun g _ => h.names g, fun _ _ => h.kept⟩

theorem AddsNamesIn.trans (h : AddsNamesIn f fs gs) (h' : AddsNamesIn f gs hs) :
    AddsNamesIn f fs hs := by
  refine ⟨Nat.le_trans h.size h'.size, fun g hgf hg x => ?_, fun g x hb => ?_⟩
  · have hg' : g.index < gs.bags.size := Nat.lt_of_lt_of_le hg h.size
    rw [h'.names g hgf hg' x, h.names g hgf hg x]
  · exact h'.kept g x (h.kept g x hb)

/-- Binding a name in a frame brings it nowhere else. -/
theorem addsNamesIn_define (fs : Frames) (f : FrameRef) (x : String) (v : Value) :
    AddsNamesIn f fs (fs.define f x v) := by
  refine ⟨Nat.le_of_eq (size_define fs f x v).symm, fun g hgf _ y => ?_, fun g y hb => ?_⟩
  · rw [binds_define]
    constructor
    · rintro (⟨hfg, -, -⟩ | hb)
      · exact absurd hfg.symm hgf
      · exact hb
    · exact Or.inr
  · exact binds_define.2 (Or.inr hb)

/-- Binding a name where it is bound brings it nowhere. -/
theorem sameNames_define {v : Value} (hb : fs.Binds f x) : SameNames fs (fs.define f x v) := by
  refine ⟨Nat.le_of_eq (size_define fs f x v).symm, fun g _ y => ?_⟩
  rw [binds_define]
  constructor
  · rintro (⟨rfl, rfl, -⟩ | hb)
    · exact hb
    · exact hb
  · exact Or.inr

/-! ## The frame that an assignment binds -/

/-- The frame in which an assignment to `x` binds: the innermost frame of the scope that binds `x`
already, or else the frame of the scope itself. -/
inductive Assigns (fs : Frames) (s : Scope) (x : String) : FrameRef → Prop where
  | bound {g : FrameRef} {inner outer : List FrameRef} :
      s.chain = inner ++ g :: outer → (∀ f ∈ inner, ¬ fs.Binds f x) → fs.Binds g x →
      Assigns fs s x g
  | free : (∀ f ∈ s.chain, ¬ fs.Binds f x) → Assigns fs s x s.frame

theorem firstBinding?_eq_some {chain : List FrameRef} (h : fs.firstBinding? x chain = some g) :
    ∃ inner outer, chain = inner ++ g :: outer ∧ (∀ f ∈ inner, ¬ fs.Binds f x) ∧ fs.Binds g x := by
  induction chain with
  | nil => cases h
  | cons f rest ih =>
    unfold firstBinding? at h
    by_cases hf : (fs.bag f).contains x = true
    · rw [if_pos hf] at h
      cases h
      exact ⟨[], rest, rfl, (fun _ hmem => absurd hmem List.not_mem_nil), hf⟩
    · rw [if_neg hf] at h
      obtain ⟨inner, outer, hrest, hinner, hg⟩ := ih h
      refine ⟨f :: inner, outer, by rw [hrest]; rfl, fun f' hf' => ?_, hg⟩
      rcases List.mem_cons.1 hf' with rfl | hmem
      · exact hf
      · exact hinner f' hmem

theorem firstBinding?_eq_none {chain : List FrameRef} (h : fs.firstBinding? x chain = none) :
    ∀ f ∈ chain, ¬ fs.Binds f x := by
  induction chain with
  | nil => exact fun _ hmem => absurd hmem List.not_mem_nil
  | cons f rest ih =>
    unfold firstBinding? at h
    by_cases hf : (fs.bag f).contains x = true
    · rw [if_pos hf] at h
      cases h
    · rw [if_neg hf] at h
      intro f' hf'
      rcases List.mem_cons.1 hf' with rfl | hmem
      · exact hf
      · exact ih h f' hmem

theorem assigns_owner (fs : Frames) (s : Scope) (x : String) : fs.Assigns s x (fs.owner s x) := by
  unfold owner
  cases hfind : fs.find? s x with
  | none => exact .free (firstBinding?_eq_none hfind)
  | some g =>
    obtain ⟨inner, outer, hchain, hinner, hg⟩ := firstBinding?_eq_some hfind
    exact .bound hchain hinner hg

/-- It is one of the frames of the scope. -/
theorem Assigns.mem_chain {s : Scope} (h : fs.Assigns s x g) : g ∈ s.chain := by
  cases h with
  | bound hchain _ _ =>
    rw [hchain]
    exact List.mem_append_right _ List.mem_cons_self
  | free _ => exact List.mem_cons_self

/-- A name is looked up behind the frames that do not bind it. -/
theorem firstValue?_append {inner outer : List FrameRef} {v : Value}
    (hinner : ∀ f ∈ inner, ¬ fs.Binds f x) (hg : fs.local? g x = some v) :
    fs.firstValue? x (inner ++ g :: outer) = some v := by
  induction inner with
  | nil =>
    rw [List.nil_append]
    unfold firstValue?
    rw [hg]
  | cons f rest ih =>
    rw [List.cons_append]
    unfold firstValue?
    rw [local?_of_not_binds (hinner f List.mem_cons_self)]
    exact ih fun f' hf' => hinner f' (List.mem_cons_of_mem f hf')

/-- **Reading back.**  If the frames of a scope are there, and bind the names they bound when the
frame of an assignment was chosen, then what is bound in that frame is read in the scope. -/
theorem Assigns.read {s : Scope} {v : Value} (h : fs.Assigns s x g)
    (hthere : ∀ f ∈ s.chain, f.index < fs.bags.size) (hnames : SameNames fs gs) :
    (gs.define g x v).read s x = .ok v := by
  have hbound : g.index < fs.bags.size → (gs.define g x v).local? g x = some v := by
    intro hg
    rw [local?_define, if_pos ⟨rfl, rfl, Nat.lt_of_lt_of_le hg hnames.size⟩]
  have hvalue : (gs.define g x v).firstValue? x s.chain = some v := by
    cases h with
    | @bound _ inner outer hchain hinner hg =>
      rw [hchain]
      refine firstValue?_append (fun f hf hb => ?_) (hbound hg.lt_size)
      -- The frames before the chosen one are there, so the name has not come into them.
      have hfree := hinner f hf
      have hlt : f.index < fs.bags.size := hthere f (by rw [hchain]; exact List.mem_append_left _ hf)
      rcases binds_define.1 hb with ⟨rfl, -, -⟩ | hb
      · exact hfree hg
      · exact hfree ((hnames.names f hlt x).1 hb)
    | free hfree =>
      have hframe := hbound (hthere s.frame List.mem_cons_self)
      have hnone : ∀ f ∈ ([] : List FrameRef), ¬ (gs.define s.frame x v).Binds f x :=
        fun _ hmem => absurd hmem List.not_mem_nil
      exact firstValue?_append hnone hframe
  unfold Frames.read
  rw [hvalue]

end Frames

/-! ## The law -/

/-- Expressions, calls and blocks bring no name into a frame that is there, statements bring names
only into the frame they are executed in, and no name is lost. -/
def namesLaw : Law where
  holds _ := True
  admits _ _ := True
  inside s t := t.scope = s.scope ∧ s.frames.SameNames t.frames
  around s t := t.scope = s.scope ∧ s.frames.AddsNamesIn s.scope.frame t.frames

theorem namesLaw_sound : namesLaw.Sound where
  refl s := ⟨rfl, .refl _⟩
  trans h h' := ⟨h'.1.trans h.1, h.2.trans h'.2⟩
  widen h := ⟨h.1, h.2.addsNamesIn⟩
  chain h h' := ⟨h'.1.trans h.1, h.2.trans (h.1 ▸ h'.2)⟩
  keep _ _ := trivial
  plain _ := trivial
  name _ _ := trivial
  lead _ _ _ := trivial
  literal _ _ := trivial
  list _ _ := trivial
  act hst _ := ⟨⟨trivial, hst.related⟩, trivial, fun _ _ => trivial⟩
  closure _ _ _ := ⟨⟨trivial, rfl, .refl _⟩, trivial⟩
  putLiteral _ _ _ := ⟨trivial, rfl, .refl _⟩
  putList _ _ _ := ⟨trivial, rfl, .refl _⟩
  putDefined _ _ := ⟨trivial, rfl, .refl _⟩
  assign := by
    intro s t x v _ hst _
    refine ⟨trivial, rfl, ?_⟩
    obtain ⟨hscope, hnames⟩ := hst.related
    have htarget := s.frames.assigns_owner s.scope x
    change Frames.AddsNamesIn t.scope.frame t.frames (t.frames.define _ x v)
    rw [hscope]
    generalize s.frames.owner s.scope x = g at htarget
    cases htarget with
    | bound _ _ hb => exact (Frames.sameNames_define (hnames.kept hb)).addsNamesIn
    | free _ => exact Frames.addsNamesIn_define _ _ _ _
  define x _ _ _ := ⟨trivial, rfl, Frames.addsNamesIn_define _ _ _ _⟩
  enter _ _ _ _ := trivial
  leave := by
    intro s t parent bindings depth _ _ hst
    refine ⟨⟨trivial, rfl, ?_⟩, fun _ _ => trivial⟩
    obtain ⟨-, hnames⟩ := hst.related
    have hsize := hnames.size
    rw [State.size_entered] at hsize
    refine ⟨by change _ ≤ t.frames.bags.size; omega, fun g hg x => ?_⟩
    have hne : g ≠ (s.entered parent bindings depth).scope.frame := by
      rintro rfl
      exact Nat.lt_irrefl _ hg
    have hlt : g.index < (s.entered parent bindings depth).frames.bags.size := by
      rw [State.size_entered]
      omega
    exact (hnames.names g hne hlt x).trans (Frames.Binds.congr (s.local?_entered _ _ _ hg x))

/-! ## Who brings in names -/

/-- No function of an embedder sees the frames. -/
theorem namesLaw_covers (host : Host) : namesLaw.Covers host :=
  Law.covers_of_allows (fun _ _ => trivial) fun _ _ _ _ => ⟨trivial, rfl, .refl _⟩

/-- The law for all that can be done with a walker. -/
theorem namesLaw_walker (config : Config) (n : Nat) : namesLaw.Kept (walker config n) :=
  namesLaw_sound.kept_walker (namesLaw_covers config.host) n

/-- An outcome of an expression, a call or a block brings no name into a frame that was there. -/
theorem sameNames_of_fits {α : Type} {P : State → α → Prop} {s t : State} {r : Outcome α}
    (h : namesLaw.Fits namesLaw.inside P s r) (ht : r.state? = some t) :
    s.frames.SameNames t.frames :=
  (h.state ht).related.2

/-- An outcome of a statement brings names only into the frame in which it was executed. -/
theorem addsNamesIn_of_fits {α : Type} {P : State → α → Prop} {s t : State} {r : Outcome α}
    (h : namesLaw.Fits namesLaw.around P s r) (ht : r.state? = some t) :
    s.frames.AddsNamesIn s.scope.frame t.frames :=
  (h.state ht).related.2

theorem sameNames_eval {config : Config} {n : Nat} {e : Expr} {s t : State}
    (ht : ((walker config n).eval e s).state? = some t) : s.frames.SameNames t.frames :=
  sameNames_of_fits ((namesLaw_walker config n).eval e trivial) ht

theorem sameNames_block {config : Config} {n : Nat} {b : Block} {s t : State}
    (ht : ((walker config n).exec (.block b) s).state? = some t) : s.frames.SameNames t.frames := by
  cases n with
  | zero => cases ht
  | succ n =>
    have hblock := namesLaw_sound.fits_execBlock (namesLaw_walker config n) (s := s) trivial b
    exact sameNames_of_fits hblock ht

/-- **Who brings in names.**  However they end, expressions, calls and blocks leave every frame that
was there with the names it had; statements and programs add names only to the frame in which they
are executed; and nothing takes a name away. -/
theorem names_brought_in (config : Config) (n : Nat) (s t : State) :
    (∀ e, ((walker config n).eval e s).state? = some t → s.frames.SameNames t.frames) ∧
    (∀ f args, ((walker config n).call config f args s).state? = some t →
      s.frames.SameNames t.frames) ∧
    (∀ b, ((walker config n).exec (.block b) s).state? = some t → s.frames.SameNames t.frames) ∧
    (∀ stmt, ((walker config n).exec stmt s).state? = some t →
      s.frames.AddsNamesIn s.scope.frame t.frames) ∧
    (∀ p, (Interpreter.run config p s).state? = some t →
      s.frames.AddsNamesIn s.globals.frame t.frames) := by
  have hw := namesLaw_walker config n
  refine ⟨?_, ?_, ?_, ?_, ?_⟩
  · intro e ht
    exact sameNames_eval ht
  · intro f args ht
    have hcall : namesLaw.Fits namesLaw.inside namesLaw.admits s
        ((walker config n).call config f args s) :=
      namesLaw_sound.fits_call (namesLaw_covers config.host) hw trivial trivial fun _ _ => trivial
    exact sameNames_of_fits hcall ht
  · intro b ht
    exact sameNames_block ht
  · intro stmt ht
    exact addsNamesIn_of_fits (hw.exec stmt trivial) ht
  · intro p ht
    have hlast := namesLaw_walker config Interpreter.levels
    have hall := namesLaw_sound.fits_execAll hlast p.stmts (s := s.ready) trivial
    exact addsNamesIn_of_fits hall ht

/-- A global frame that binds `a`. -/
def bindsA : State where
  world := {}
  frames := ⟨#[⟨[("a", .null)]⟩]⟩
  memo := {}
  scope := ⟨⟨0⟩, []⟩
  globals := ⟨⟨0⟩, []⟩
  depth := 0

/-- The block `{ a = true; b = null; -a; }`, which ends with a fault. -/
def rebinding : Block where
  stmts :=
    [.assign default ⟨"a", default⟩ (.bool default true),
      .assign default ⟨"b", default⟩ (.null default),
      .expr (.unary default .minus (.name default "a"))]
  span := default

/-- The name `a` has another value behind the block, and no name has come into the global frame. -/
theorem names_of_rebinding : ∃ f t,
    (walker {} 4).exec (.block rebinding) bindsA = .unwound (.fault f) t ∧
      t.frames.local? ⟨0⟩ "a" = some (.bool true) ∧ bindsA.frames.SameNames t.frames := by
  refine ⟨_, _, rfl, rfl, ?_⟩
  exact (names_brought_in {} 4 bindsA _).2.2.1 rebinding rfl

/-! ## What an assignment does -/

/-- An assignment chooses a frame, computes the value, and binds the name in that frame. -/
theorem exec_assign (config : Config) (n : Nat) (span : Span) (x : Ident) (e : Expr) (s : State) :
    (walker config (n + 1)).exec (.assign span x e) s =
      match (walker config n).eval e s with
      | .done v t => .done () (t.bound (s.frames.owner s.scope x.name) x.name v)
      | .unwound u t => .unwound u t
      | .exhausted => .exhausted := by
  change Eval.bind ((walker config n).eval e) _ s = _
  unfold Eval.bind
  cases (walker config n).eval e s with
  | done v t => rfl
  | unwound u t => rfl
  | exhausted => rfl

/-- **Assignment.**  Where the frames of the scope are there (as in all scopes that stand), `x = e` is
done just if `e` is: the value of `e` is bound in the nearest frame that bound `x` before, or else in
the frame of the scope; it is read back; nothing else differs from the state behind `e`.  If `e` ends
in another way, then so does `x = e`, in the same state. -/
theorem assignment (config : Config) (n : Nat) (span : Span) (x : Ident) (e : Expr) (s : State)
    (hthere : ∀ f ∈ s.scope.chain, f.index < s.frames.bags.size) :
    (∀ t', (walker config (n + 1)).exec (.assign span x e) s = .done () t' →
      ∃ v t, (walker config n).eval e s = .done v t) ∧
    (∀ v t, (walker config n).eval e s = .done v t →
      ∃ t' g, (walker config (n + 1)).exec (.assign span x e) s = .done () t' ∧
        t'.frames.read t'.scope x.name = .ok v ∧ t'.scope = s.scope ∧
        s.frames.Assigns s.scope x.name g ∧ t'.frames.local? g x.name = some v ∧
        (∀ f y, ¬ (f = g ∧ y = x.name) → t'.frames.local? f y = t.frames.local? f y) ∧
        t' = { t with frames := t'.frames }) ∧
    (∀ u t, (walker config n).eval e s = .unwound u t →
      (walker config (n + 1)).exec (.assign span x e) s = .unwound u t) := by
  rw [exec_assign]
  refine ⟨?_, ?_, ?_⟩
  · intro t' h
    cases he : (walker config n).eval e s with
    | done v t => exact ⟨v, t, rfl⟩
    | unwound u t =>
      rw [he] at h
      cases h
    | exhausted =>
      rw [he] at h
      cases h
  · intro v t hv
    have hnames : s.frames.SameNames t.frames := sameNames_eval (congrArg Outcome.state? hv)
    have hback := steady_walker config n (.expr e) s t (congrArg Outcome.state? hv)
    have hscope : t.scope = s.scope := hback.scope
    have htarget := s.frames.assigns_owner s.scope x.name
    generalize s.frames.owner s.scope x.name = g at htarget ⊢
    have hg : g.index < t.frames.bags.size :=
      Nat.lt_of_lt_of_le (hthere g htarget.mem_chain) hnames.size
    rw [hv]
    refine ⟨t.bound g x.name v, g, rfl, ?_, hscope, htarget, ?_, ?_, rfl⟩
    · change (t.frames.define g x.name v).read t.scope x.name = .ok v
      rw [hscope]
      exact htarget.read hthere hnames
    · change (t.frames.define g x.name v).local? g x.name = some v
      rw [Frames.local?_define, if_pos ⟨rfl, rfl, hg⟩]
    · intro f y hne
      change (t.frames.define g x.name v).local? f y = t.frames.local? f y
      rw [Frames.local?_define, if_neg]
      rintro ⟨rfl, rfl, -⟩
      exact hne ⟨rfl, rfl⟩
  · intro u t hu
    rw [hu]

/-- The function `fn () { a = true; fn a() {} b = null; return false; }`, made in the global
scope. -/
def shadowing : Closure where
  id := 0
  name := ""
  scope := ⟨⟨0⟩, []⟩
  decl :=
    { params := []
      body :=
        { stmts :=
            [.assign default ⟨"a", default⟩ (.bool default true),
              .define default default ⟨"a", default⟩ ⟨[], ⟨[], default⟩⟩,
              .assign default ⟨"b", default⟩ (.null default),
              .return default (some (.bool default false))]
          span := default } }

/-- A frame that binds `f` to `shadowing`, inside a global frame that binds `a`. -/
def besideShadowing : State where
  world := {}
  frames := ⟨#[⟨[("a", .null)]⟩, ⟨[("f", .function (.closure shadowing))]⟩]⟩
  memo := {}
  scope := ⟨⟨1⟩, [⟨0⟩]⟩
  globals := ⟨⟨0⟩, []⟩
  depth := 0

/-- In `a = f();` the call binds `a` in the global frame and in a frame of its own, but it is what
the call returns that is read behind the assignment. -/
theorem assignment_of_shadowing : ∃ t g,
    (∀ f ∈ besideShadowing.scope.chain, f.index < besideShadowing.frames.bags.size) ∧
      (walker {} 5).exec
        (.assign default ⟨"a", default⟩ (.call default (.name default "f") [])) besideShadowing =
          .done () t ∧
      t.frames.read t.scope "a" = .ok (.bool false) ∧
      besideShadowing.frames.Assigns besideShadowing.scope "a" g ∧
      t.frames.local? g "a" = some (.bool false) := by
  have hthere : ∀ f ∈ besideShadowing.scope.chain, f.index < besideShadowing.frames.bags.size := by
    decide
  obtain ⟨t, g, hexec, hread, -, hassigns, hlocal, -⟩ :=
    (assignment {} 4 default ⟨"a", default⟩ (.call default (.name default "f") []) besideShadowing
      hthere).2.1 (.bool false) _ rfl
  exact ⟨t, g, hthere, hexec, hread, hassigns, hlocal⟩

end SmallScript
