/-
  What libraries bring.

  The libraries make objects whose members are native functions and constants, and give names to
  these and to other native functions.  So whatever holds of native functions, of plain values and of
  what is made, and goes on to hold as the heap grows (`Heap.Lasting`), holds of all that a script
  finds when it begins (`all_start`).
-/
import SmallScript.Library.Sampler
import SmallScript.Proofs.Evaluation.Leads

namespace SmallScript

namespace Heap

/-- What may be said of values in a heap: it holds of native functions, of plain values and of what
is had by an act, and goes on to hold. -/
structure Lasting (P : Heap → Value → Prop) : Prop where
  mono {h k : Heap} {v : Value} : h.Grows k → P h v → P k v
  plain {h : Heap} {v : Value} : v.Plain → P h v
  native {h : Heap} (op : Native) : P h (.function (.native op))
  act {old : Heap} {A : Value → Prop} {w w' : World} {v : Value} :
    World.Act old A w v w' → P w'.heap v

/-- It holds of all that values lead to. -/
def All (P : Heap → Value → Prop) (h : Heap) : Prop := ∀ o v, h.Leads o v → P h v

variable {P : Heap → Value → Prop} {h : Heap}

/-- An act brings in nothing but values of which it holds. -/
theorem All.act {old : Heap} {w w' : World} {v : Value} (h : w.heap.All P) (hP : Lasting P)
    (hact : World.Act old (P w.heap) w v w') : w'.heap.All P := by
  intro o p hp
  refine hP.mono hact.grows ?_
  rcases hact.leads hp with hp | hp | ⟨q, -, hp⟩
  · exact h o p hp
  · exact hp
  · exact h q p hp

/-- In an empty heap values lead to nothing but methods. -/
theorem all_empty (hP : Lasting P) : ({} : Heap).All P := by
  intro o v hl
  cases hl with
  | item hv => exact absurd hv (Array.not_mem_empty _)
  | listed hv => exact absurd hv (Array.not_mem_empty _)
  | entry hv => cases hv
  | property hp =>
    obtain ⟨b, hb, hx⟩ := Option.bind_eq_some_iff.1 hp
    have hmem := Assoc.mem_of_get? hx
    cases o with
    | text t =>
      cases hb
      obtain ⟨m, -, hm⟩ := List.mem_map.1 hmem
      cases hm
      exact hP.native _
    | list q =>
      cases hb
      obtain ⟨m, -, hm⟩ := List.mem_map.1 hmem
      cases hm
      exact hP.native _
    | object q =>
      cases hb
      exact absurd hmem List.not_mem_nil
    | _ => cases hb

end Heap

open Heap (Lasting)

variable {P : Heap → Value → Prop}

/-- A library that keeps what there is, and all that it brings has `P`. -/
def Maker.Keeps (P : Heap → Value → Prop) (make : Maker) : Prop :=
  ∀ h : Heap, h.All P →
    h.Grows (make h).2 ∧ (make h).2.All P ∧ ∀ b ∈ (make h).1, P (make h).2 b.2

/-- An object with a name is made, of members that have `P`. -/
theorem Heap.All.newNamed {h : Heap} (hh : h.All P) (hP : Lasting P) (name : String)
    {members : List (String × Value)} (hmembers : ∀ m ∈ members, P h m.2) :
    h.Grows (h.newNamed name members).2 ∧ (h.newNamed name members).2.All P ∧
      P (h.newNamed name members).2 (h.newNamed name members).1 := by
  let w : World := { heap := h }
  let named := w.withHeap (h.newText name).2
  have htext : World.Act h (P h) w (h.newText name).1 named := .text name
  let b : Bag := ⟨(Heap.nameProperty, (h.newText name).1) :: members⟩
  have hbag : ∀ x v, b.get? x = some v → P named.heap v := by
    intro x v hv
    rcases List.mem_cons.1 (Assoc.mem_of_get? hv) with heq | hmem
    · cases heq
      exact hP.act htext
    · exact hP.mono htext.grows (hmembers _ hmem)
  have hobject : World.Act h (P named.heap) named (.object (named.heap.newObject b).1)
      (named.withHeap (named.heap.newObject b).2) := .object b hbag
  have hnamed : named.heap.All P := Heap.All.act (w := w) hh hP htext
  exact ⟨htext.grows.trans hobject.grows, hnamed.act hP hobject, hP.act hobject⟩

namespace Library

theorem keeps_native (hP : Lasting P) {α : Type} (ops : List α) (f : α → Native) (h : Heap) :
    ∀ b ∈ ops.map fun a => native (f a), P h b.2 := by
  intro b hb
  obtain ⟨a, -, rfl⟩ := List.mem_map.1 hb
  exact hP.native _

theorem keeps_standard (hP : Lasting P) : Maker.Keeps P standard := by
  intro h hh
  obtain ⟨hgrows, hall, hmath⟩ := hh.newNamed hP "math" (keeps_native hP _ _ h)
  refine ⟨hgrows, hall, fun b hb => ?_⟩
  rcases List.mem_append.1 hb with hglobal | hlast
  · exact keeps_native hP _ _ _ b hglobal
  · cases List.mem_singleton.1 hlast
    exact hmath

theorem keeps_hosted (hP : Lasting P) (fs : List HostFunction) (h : Heap) :
    ∀ b ∈ fs.map hosted, P h b.2 := by
  intro b hb
  obtain ⟨f, -, rfl⟩ := List.mem_map.1 hb
  exact hP.plain (.host f)

theorem keeps_sampler (hP : Lasting P) : Maker.Keeps P sampler := by
  intro h hh
  have hmembers : ∀ m ∈ [Sampler.inc, Sampler.half, Sampler.shout].map hosted ++
      [("answer", .int 42)], P h m.2 := by
    intro m hm
    rcases List.mem_append.1 hm with hm | hm
    · exact keeps_hosted hP _ h m hm
    · cases List.mem_singleton.1 hm
      exact hP.plain (.int 42)
  obtain ⟨hgrows, hall, hutil⟩ := hh.newNamed hP "util" hmembers
  refine ⟨hgrows, hall, fun b hb => ?_⟩
  rcases List.mem_cons.1 hb with rfl | hb
  · exact hutil
  · exact keeps_hosted hP _ _ b hb

end Library

theorem Maker.keeps_makeAll (hP : Lasting P) {makers : List Maker}
    (hmakers : ∀ make ∈ makers, make.Keeps P) : Maker.Keeps P (makeAll makers) := by
  induction makers with
  | nil => exact fun h hh => ⟨.refl h, hh, fun b hb => absurd hb List.not_mem_nil⟩
  | cons make makers ih =>
    intro h hh
    obtain ⟨hgrows, hall, hfirst⟩ := hmakers make List.mem_cons_self h hh
    obtain ⟨hgrows', hall', hrest⟩ :=
      ih (fun m hm => hmakers m (List.mem_cons_of_mem make hm)) _ hall
    refine ⟨hgrows.trans hgrows', hall', fun b hb => ?_⟩
    rcases List.mem_append.1 hb with hb | hb
    · exact hP.mono hgrows' (hfirst b hb)
    · exact hrest b hb

/-- What a script finds when it begins. -/
theorem all_start (hP : Lasting P) {libraries : List Maker}
    (hlibraries : ∀ make ∈ libraries, make.Keeps P) (console : Console) (clock : Clock) :
    (State.start libraries console clock).world.heap.All P ∧
      ∀ g x v, (State.start libraries console clock).frames.local? g x = some v →
        P (State.start libraries console clock).world.heap v := by
  obtain ⟨-, hall, hbindings⟩ := Maker.keeps_makeAll hP hlibraries {} (Heap.all_empty hP)
  refine ⟨hall, fun g x v hv => ?_⟩
  rcases Frames.local?_defineAll hv with hold | ⟨b, hb, rfl⟩
  · have hnone := (Frames.local?_openFrame {} [] g x).symm.trans hold
    exact absurd (Frames.lt_size_of_local? hnone) (Nat.not_lt_zero _)
  · exact hbindings b hb

/-! ## The sampler -/

namespace World.Acts

variable {old : Heap} {A : Value → Prop} {w : World}

/-- A function that only computes answers something plain. -/
theorem computed {r : Except Fault Value} (hr : Answers Value.Plain r) : Acts old A w r w := by
  cases r with
  | ok v => exact .plain (hr v rfl) (.answer (Or.inr rfl))
  | error f => exact .fail f

theorem finish {r : Except Fault Product} (hr : Answers Product.Plain r) :
    Acts old A w (w.finish r).1 (w.finish r).2 := by
  cases r with
  | error f => exact .fail f
  | ok p =>
    cases p with
    | value v => exact .plain (hr _ rfl) (.answer (Or.inr rfl))
    | text content => exact .act (.text content) (.answer (Or.inr rfl))

end World.Acts

/-- The functions of the sampler compute, and make strings and lists. -/
theorem Host.sampler_modest : sampler.Modest := by
  intro f args w
  change World.Acts w.heap (· ∈ args) w (Sampler.invoke f args w).1 (Sampler.invoke f args w).2
  unfold Sampler.invoke
  split
  · exact .computed (answers_map (fun n => .int _) _)
  · exact .computed (answers_map (fun x => .float _) _)
  · exact .finish (answers_map (fun _ => trivial) _)
  · exact .act (.list _ fun v hv => by simpa using hv) (.answer (Or.inr rfl))
  · exact .fail _
  · exact .fail _

end SmallScript
