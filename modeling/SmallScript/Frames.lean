/-
  Frames: which names are bound where.

  Frames are numbered in the order in which they are opened and none is ever taken away.  A scope
  knows its frame and the frames around it, so the chain of a scope never changes; what does change
  is what its frames bind.  `local?` is the view, all lookups follow the chain.
-/
import SmallScript.Heap.Show
import SmallScript.Library

namespace SmallScript

/-- The frames of a scope, the nearest first. -/
def Scope.chain (s : Scope) : List FrameRef := s.frame :: s.outer

/-- How many frames there are around the nearest. -/
def Scope.depth (s : Scope) : Nat := s.outer.length

/-- The scope around the nearest frame. -/
def Scope.parent? (s : Scope) : Option Scope :=
  match s.outer with
  | [] => none
  | f :: fs => some ⟨f, fs⟩

structure Frames where
  bags : Array Bag := #[]

namespace Frames

instance : Inhabited Frames := ⟨{}⟩

/-! ## Opening frames -/

/-- A scope with a new frame that nothing is bound in, inside the frames `outer`. -/
def openFrame (outer : List FrameRef) (fs : Frames) : Scope × Frames :=
  let index := fs.bags.size
  (⟨⟨index⟩, outer⟩, ⟨fs.bags.push {}⟩)

/-- A scope with nothing around it. -/
def openGlobal (fs : Frames) : Scope × Frames := fs.openFrame []

/-- A scope right inside another. -/
def openChild (s : Scope) (fs : Frames) : Scope × Frames := fs.openFrame s.chain

/-! ## One frame -/

def bag (fs : Frames) (f : FrameRef) : Bag := fs.bags[f.index]?.getD {}

/-- What a frame itself binds a name to. -/
def local? (fs : Frames) (f : FrameRef) (name : String) : Option Value := (fs.bag f).get? name

/-- Bind a name in a frame, whatever it was bound to. -/
def define (f : FrameRef) (name : String) (v : Value) (fs : Frames) : Frames :=
  match fs with
  | ⟨bags⟩ => ⟨bags.modify f.index fun b => b.put name v⟩

/-- A binding is seen under its name in its frame, and nowhere else. -/
theorem local?_define (fs : Frames) (f g : FrameRef) (x y : String) (v : Value) :
    (fs.define f x v).local? g y =
      if f = g ∧ x = y ∧ f.index < fs.bags.size then some v else fs.local? g y := by
  obtain ⟨i⟩ := f
  obtain ⟨j⟩ := g
  obtain ⟨bags⟩ := fs
  unfold define local? bag
  simp only [Array.getElem?_modify, FrameRef.mk.injEq]
  by_cases hij : i = j
  · subst hij
    by_cases hi : i < bags.size
    · by_cases hxy : x = y <;> simp [hi, hxy, Assoc.get?_put]
    · simp [hi]
  · simp [hij]

@[simp] theorem size_define (fs : Frames) (f : FrameRef) (x : String) (v : Value) :
    (fs.define f x v).bags.size = fs.bags.size := by
  unfold define
  exact Array.size_modify

/-- A frame that binds something is there. -/
theorem lt_size_of_local? {fs : Frames} {f : FrameRef} {x : String} {v : Value}
    (h : fs.local? f x = some v) : f.index < fs.bags.size := by
  rcases Nat.lt_or_ge f.index fs.bags.size with hlt | hge
  · exact hlt
  · unfold local? bag at h
    rw [Array.getElem?_eq_none hge] at h
    cases h

@[simp] theorem size_openChild (fs : Frames) (s : Scope) :
    (fs.openChild s).2.bags.size = fs.bags.size + 1 :=
  Array.size_push _

/-- Nothing is bound in a new frame. -/
theorem local?_openFrame (fs : Frames) (outer : List FrameRef) (g : FrameRef) (x : String) :
    (fs.openFrame outer).2.local? g x = fs.local? g x := by
  obtain ⟨i⟩ := g
  unfold openFrame local? bag
  dsimp only
  rw [Array.getElem?_push]
  by_cases hi : i = fs.bags.size
  · rw [if_pos hi, hi, Array.getElem?_eq_none (Nat.le_refl _)]
    rfl
  · rw [if_neg hi]

@[simp] theorem local?_openChild (fs : Frames) (s : Scope) (g : FrameRef) (x : String) :
    (fs.openChild s).2.local? g x = fs.local? g x :=
  fs.local?_openFrame s.chain g x

/-- Bind names one after the other. -/
def defineAll (f : FrameRef) (bindings : Bindings) (fs : Frames) : Frames :=
  bindings.foldl (fun fs b => fs.define f b.1 b.2) fs

@[simp] theorem size_defineAll (f : FrameRef) (bindings : Bindings) (fs : Frames) :
    (fs.defineAll f bindings).bags.size = fs.bags.size := by
  induction bindings generalizing fs with
  | nil => rfl
  | cons b rest ih =>
    change ((fs.define f b.1 b.2).defineAll f rest).bags.size = _
    rw [ih, size_define]

/-- Names that are bound in one frame are not seen in another. -/
theorem local?_defineAll_of_ne {f g : FrameRef} (hfg : f ≠ g) (bindings : Bindings) (fs : Frames)
    (x : String) : (fs.defineAll f bindings).local? g x = fs.local? g x := by
  induction bindings generalizing fs with
  | nil => rfl
  | cons b rest ih =>
    change ((fs.define f b.1 b.2).defineAll f rest).local? g x = _
    rw [ih, local?_define, if_neg fun h => hfg h.1]

/-- What is seen when names were bound was seen before, or is among what was bound. -/
theorem local?_defineAll {f g : FrameRef} {bindings : Bindings} {fs : Frames} {x : String}
    {v : Value} (h : (fs.defineAll f bindings).local? g x = some v) :
    fs.local? g x = some v ∨ ∃ b ∈ bindings, b.2 = v := by
  induction bindings generalizing fs with
  | nil => exact Or.inl h
  | cons b rest ih =>
    change ((fs.define f b.1 b.2).defineAll f rest).local? g x = some v at h
    rcases ih h with hdefine | ⟨c, hc, hv⟩
    · rw [local?_define] at hdefine
      split at hdefine
      · exact Or.inr ⟨b, List.mem_cons_self, Option.some.inj hdefine⟩
      · exact Or.inl hdefine
    · exact Or.inr ⟨c, List.mem_cons_of_mem b hc, hv⟩

/-- The names that a frame binds, in alphabetical order. -/
def names (fs : Frames) (f : FrameRef) : List String := Bag.names (fs.bag f)

/-! ## Along the chain -/

/-- The first of some frames that binds a name. -/
def firstBinding? (fs : Frames) (name : String) : List FrameRef → Option FrameRef
  | [] => none
  | f :: rest => if (fs.bag f).contains name then some f else fs.firstBinding? name rest

/-- The nearest frame that binds a name. -/
def find? (fs : Frames) (s : Scope) (name : String) : Option FrameRef :=
  fs.firstBinding? name s.chain

/-- What the first of some frames that binds a name binds it to. -/
def firstValue? (fs : Frames) (name : String) : List FrameRef → Option Value
  | [] => none
  | f :: rest =>
    match fs.local? f name with
    | some v => some v
    | none => fs.firstValue? name rest

/-- The value of a name is what the first frame that binds it binds it to. -/
theorem firstValue?_eq (fs : Frames) (name : String) (chain : List FrameRef) :
    fs.firstValue? name chain =
      (fs.firstBinding? name chain).bind fun f => fs.local? f name := by
  induction chain with
  | nil => rfl
  | cons f rest ih =>
    unfold firstValue? firstBinding? Assoc.contains
    cases h : fs.local? f name with
    | none =>
      have : (fs.bag f).get? name = none := h
      simp [this, ih]
    | some v =>
      have : (fs.bag f).get? name = some v := h
      simp [this, h]

/-- What a name means in a scope. -/
def read (fs : Frames) (s : Scope) (name : String) : Except Fault Value :=
  match fs.firstValue? name s.chain with
  | some v => .ok v
  | none => .error (.undefinedVariable name)

/-- Where a name means something, one of the frames binds it to that. -/
theorem local?_of_firstValue? {fs : Frames} {name : String} {chain : List FrameRef} {v : Value}
    (h : fs.firstValue? name chain = some v) : ∃ f ∈ chain, fs.local? f name = some v := by
  induction chain with
  | nil => cases h
  | cons f rest ih =>
    unfold firstValue? at h
    cases hf : fs.local? f name with
    | some w =>
      rw [hf] at h
      exact ⟨f, List.mem_cons_self, hf.trans h⟩
    | none =>
      rw [hf] at h
      obtain ⟨g, hg, hv⟩ := ih h
      exact ⟨g, List.mem_cons_of_mem f hg, hv⟩

theorem local?_of_read {fs : Frames} {s : Scope} {name : String} {v : Value}
    (h : fs.read s name = .ok v) : ∃ f ∈ s.chain, fs.local? f name = some v := by
  unfold read at h
  split at h
  · rename_i w hw
    cases h
    exact local?_of_firstValue? hw
  · cases h

/-- The frame that an assignment to a name binds: the nearest that binds it, or else the frame of
the scope. -/
def owner (fs : Frames) (s : Scope) (name : String) : FrameRef := (fs.find? s name).getD s.frame

/-- Assign to a name.  The frame is chosen before the value is computed; if that fails nothing is
bound. -/
def write (s : Scope) (name : String) (compute : Frames → Except Fault Value × Frames)
    (fs : Frames) : Except Fault Unit × Frames :=
  let target := fs.owner s name
  match compute fs with
  | (.error f, fs) => (.error f, fs)
  | (.ok v, fs) => (.ok (), fs.define target name v)

/-- A scope as it is inspected. -/
def inspect (fs : Frames) (s : Scope) : String :=
  "Scope \x7b depth: " ++ toString s.depth ++ ", names: [" ++ quotedNames (fs.names s.frame)
    ++ "] \x7d"

end Frames

end SmallScript
