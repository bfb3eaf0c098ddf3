/-
  Two states side by side.

  What has an identity is numbered, and two runs that do the same need not number it in the same
  way.  A `Link` tells which numbers of two runs belong together: some are given at first, and from
  then on both runs count in step (`Pairing.Pairs`).  So what is made later is paired before it is
  made, and a link never changes.

  Values correspond if they are equal up to a link; heaps and frames do if the places that belong
  together hold what corresponds (`Pairing.Rows`).  The numbers of nodes are the programs' own, and
  no run makes new ones: a link just says which of them belong together, and of functions of scripts
  it asks that their code is alike up to that.
-/
import Mathlib.Data.List.Forall2
import Mathlib.Data.List.Nodup
import Mathlib.Data.List.Perm.Subperm
import Mathlib.Logic.Relator
import SmallScript.Interpreter
import SmallScript.Proofs.Reading.Likeness

namespace SmallScript

/-! ## Numbers that belong together -/

/-- Which numbers of two counts belong together: those that are given below two bases, and above
them those that are as far from their base. -/
structure Pairing where
  first : Nat
  second : Nat
  given : Nat → Nat → Prop
  below {i j : Nat} : given i j → i < first ∧ j < second
  unique : Relator.BiUnique given

namespace Pairing

variable {P : Pairing} {i j i' j' m n : Nat} {α β : Type} {R : α → β → Prop} {xs : Array α}
  {ys : Array β}

/-- Both counts are as far from their base. -/
def InStep (P : Pairing) (m n : Nat) : Prop := ∃ k, m = P.first + k ∧ n = P.second + k

/-- The numbers belong together. -/
def Pairs (P : Pairing) (i j : Nat) : Prop := P.given i j ∨ P.InStep i j

/-- Both runs count one more. -/
theorem InStep.succ (h : P.InStep m n) : P.InStep (m + 1) (n + 1) := by
  obtain ⟨k, rfl, rfl⟩ := h
  exact ⟨k + 1, rfl, rfl⟩

/-- What both runs make next belongs together. -/
theorem InStep.pairs (h : P.InStep m n) : P.Pairs m n := Or.inr h

/-- A number belongs to one other at most. -/
theorem Pairs.eq_iff (h : P.Pairs i j) (h' : P.Pairs i' j') : i = i' ↔ j = j' := by
  rcases h with h | ⟨k, rfl, rfl⟩ <;> rcases h' with h' | ⟨k', rfl, rfl⟩
  · exact Relator.rel_eq P.unique h h'
  · have := P.below h
    omega
  · have := P.below h'
    omega
  · omega

/-- So does what is told by its number. -/
theorem Pairs.ref_eq_iff {ρ : Type} {index : ρ → Nat} (hindex : Function.Injective index)
    {r r' q q' : ρ} (h : P.Pairs (index r) (index r')) (h' : P.Pairs (index q) (index q')) :
    r = q ↔ r' = q' :=
  calc r = q ↔ index r = index q := hindex.eq_iff.symm
    _ ↔ index r' = index q' := h.eq_iff h'
    _ ↔ r' = q' := hindex.eq_iff

/-- Of two numbers that belong together both were counted or none. -/
theorem Pairs.lt_iff (h : P.Pairs i j) (hs : P.InStep m n) : i < m ↔ j < n := by
  obtain ⟨l, rfl, rfl⟩ := hs
  rcases h with h | ⟨k, rfl, rfl⟩
  · have := P.below h
    omega
  · omega

/-- Two arrays are of sizes in step, and what stands in places that belong together is in the
relation. -/
structure Rows (P : Pairing) (R : α → β → Prop) (xs : Array α) (ys : Array β) : Prop where
  size : P.InStep xs.size ys.size
  get {i j : Nat} : P.Pairs i j → Option.Rel R xs[i]? ys[j]?

/-- So rows that correspond do so with what is made next in both. -/
theorem Rows.push (h : P.Rows R xs ys) {x : α} {y : β} (hxy : R x y) :
    P.Rows R (xs.push x) (ys.push y) := by
  refine ⟨?_, fun {i j} hij => ?_⟩
  · rw [Array.size_push, Array.size_push]
    exact h.size.succ
  · rw [Array.getElem?_push, Array.getElem?_push]
    have hnew := hij.eq_iff h.size.pairs
    by_cases hi : i = xs.size
    · rw [if_pos hi, if_pos (hnew.1 hi)]
      exact .some hxy
    · rw [if_neg hi, if_neg fun hj => hi (hnew.2 hj)]
      exact h.get hij

/-- Places that belong together may be changed in corresponding ways. -/
theorem Rows.modify (h : P.Rows R xs ys) (hij : P.Pairs i j) {f : α → α} {g : β → β}
    (hfg : ∀ x y, R x y → R (f x) (g y)) : P.Rows R (xs.modify i f) (ys.modify j g) := by
  refine ⟨?_, fun {i' j'} hij' => ?_⟩
  · rw [Array.size_modify, Array.size_modify]
    exact h.size
  · rw [Array.getElem?_modify, Array.getElem?_modify]
    have hsame := hij.eq_iff hij'
    have hrow := h.get hij'
    by_cases hi : i = i'
    · rw [if_pos hi, if_pos (hsame.1 hi)]
      generalize xs[i']? = x at hrow
      generalize ys[j']? = y at hrow
      cases hrow with
      | none => exact .none
      | some hxy => exact .some (hfg _ _ hxy)
    · rw [if_neg hi, if_neg fun hj => hi (hsame.2 hj)]
      exact hrow

end Pairing

/-- A value that may be missing, and one that stands in for it. -/
theorem rel_getD {α β : Type} {R : α → β → Prop} {x : Option α} {y : Option β} {a : α} {b : β}
    (h : Option.Rel R x y) (hab : R a b) : R (x.getD a) (y.getD b) := by
  cases h with
  | none => exact hab
  | some hxy => exact hxy

/-- Of two things that correspond, both are there or neither. -/
theorem isSome_eq_of_rel {α β : Type} {R : α → β → Prop} {x : Option α} {y : Option β}
    (h : Option.Rel R x y) : x.isSome = y.isSome := by
  cases h <;> rfl

/-- Tables that hold what is in a relation under keys that belong together do so when such keys get
new values.  It matters that keys belong together one to one: the new entry hides an old one in both
tables or in neither. -/
theorem rel_put {κ κ' α β : Type} [DecidableEq κ] [DecidableEq κ'] {K : κ → κ' → Prop}
    {R : α → β → Prop} {t : Assoc κ α} {t' : Assoc κ' β}
    (ht : ∀ k k', K k k' → Option.Rel R (t.get? k) (t'.get? k')) {k : κ} {k' : κ'}
    (hk : ∀ j j', K j j' → (k = j ↔ k' = j')) {a : α} {b : β} (hab : R a b) :
    ∀ j j', K j j' → Option.Rel R ((t.put k a).get? j) ((t'.put k' b).get? j') := by
  intro j j' hj
  have hsame := hk j j' hj
  rw [Assoc.get?_put, Assoc.get?_put]
  by_cases hkj : k = j
  · rw [if_pos hkj, if_pos (hsame.1 hkj)]
    exact .some hab
  · rw [if_neg hkj, if_neg fun h => hkj (hsame.2 h)]
    exact ht j j' hj

theorem ListRef.index_injective : Function.Injective ListRef.index :=
  fun ⟨_⟩ ⟨_⟩ h => congrArg ListRef.mk h

theorem ObjectRef.index_injective : Function.Injective ObjectRef.index :=
  fun ⟨_⟩ ⟨_⟩ h => congrArg ObjectRef.mk h

theorem TableRef.index_injective : Function.Injective TableRef.index :=
  fun ⟨_⟩ ⟨_⟩ h => congrArg TableRef.mk h

/-! ## Values that correspond -/

/-- Which numbers of two runs belong together, those of nodes among them. -/
structure Link where
  frames : Pairing
  texts : Pairing
  lists : Pairing
  objects : Pairing
  tables : Pairing
  closures : Pairing
  nodes : NodeId → NodeId → Prop
  unique : Relator.BiUnique nodes

namespace Link

variable (L : Link)

/-- The same text with numbers that belong together. -/
structure Texts (t t' : Text) : Prop where
  id : L.texts.Pairs t.id t'.id
  content : t.content = t'.content

def Scopes (s s' : Scope) : Prop :=
  List.Forall₂ (fun f f' => L.frames.Pairs f.index f'.index) s.chain s'.chain

inductive Natives : Native → Native → Prop where
  | text {t t' : Text} (m : TextMethod) : L.Texts t t' → Natives (.text t m) (.text t' m)
  | list {r r' : ListRef} (m : ListMethod) :
      L.lists.Pairs r.index r'.index → Natives (.list r m) (.list r' m)
  | map {t t' : TableRef} (m : MapMethod) :
      L.tables.Pairs t.index t'.index → Natives (.map t m) (.map t' m)
  | math (f : MathFunction) : Natives (.math f) (.math f)
  | global (f : GlobalFunction) : Natives (.global f) (.global f)

structure Closures (c c' : Closure) : Prop where
  id : L.closures.Pairs c.id c'.id
  name : c.name = c'.name
  scope : L.Scopes c.scope c'.scope
  decl : FnDecl.Like L.nodes c.decl c'.decl

inductive Callables : Callable → Callable → Prop where
  | native {op op' : Native} : L.Natives op op' → Callables (.native op) (.native op')
  | closure {c c' : Closure} : L.Closures c c' → Callables (.closure c) (.closure c')
  | host (f : HostFunction) : Callables (.host f) (.host f)

/-- Values that are equal up to the link. -/
inductive Values : Value → Value → Prop where
  | null : Values .null .null
  | bool (b : Bool) : Values (.bool b) (.bool b)
  | int (n : Int64) : Values (.int n) (.int n)
  | float (x : Double) : Values (.float x) (.float x)
  | text {t t' : Text} : L.Texts t t' → Values (.text t) (.text t')
  | list {r r' : ListRef} : L.lists.Pairs r.index r'.index → Values (.list r) (.list r')
  | object {r r' : ObjectRef} : L.objects.Pairs r.index r'.index → Values (.object r) (.object r')
  | function {f f' : Callable} : L.Callables f f' → Values (.function f) (.function f')

inductive Keys : MapKey → MapKey → Prop where
  | null : Keys .null .null
  | bool (b : Bool) : Keys (.bool b) (.bool b)
  | int (n : Int64) : Keys (.int n) (.int n)
  | float (x : Double) : Keys (.float x) (.float x)
  | text (content : String) : Keys (.text content) (.text content)
  | list {r r' : ListRef} : L.lists.Pairs r.index r'.index → Keys (.list r) (.list r')
  | object {r r' : ObjectRef} : L.objects.Pairs r.index r'.index → Keys (.object r) (.object r')
  | closure {i i' : Nat} : L.closures.Pairs i i' → Keys (.closure i) (.closure i')
  | native {op op' : Native} : L.Natives op op' → Keys (.native op) (.native op')
  | host (f : HostFunction) : Keys (.host f) (.host f)

/-- The same names in the same order, with values that correspond. -/
def Entries (l l' : List (String × Value)) : Prop :=
  List.Forall₂ (fun p p' => p.1 = p'.1 ∧ L.Values p.2 p'.2) l l'

/-- Under each name what is in the bags corresponds. -/
def Bags (b b' : Bag) : Prop := ∀ x, Option.Rel L.Values (b.get? x) (b'.get? x)

/-- Under keys that correspond what is in the tables does. -/
def Tables (t t' : Table) : Prop :=
  ∀ k k', L.Keys k k' → Option.Rel L.Values (t.get? k) (t'.get? k')

def Items (xs xs' : Array Value) : Prop := List.Forall₂ L.Values xs.toList xs'.toList

structure Cells (c c' : ListCell) : Prop where
  items : L.Items c.items c'.items
  changed : Option.Rel L.Bags c.changed c'.changed

structure Heaps (h h' : Heap) : Prop where
  texts : L.texts.Rows (Option.Rel L.Bags) h.texts h'.texts
  lists : L.lists.Rows L.Cells h.lists h'.lists
  objects : L.objects.Rows L.Bags h.objects h'.objects
  tables : L.tables.Rows L.Tables h.tables h'.tables
  closures : L.closures.InStep h.closures h'.closures

/-- Two clocks will be read alike. -/
structure Clocks (c c' : Clock) (p p' : TimeCourse) : Prop where
  now : c = c'
  steps (k : Nat) : p.steps (p.readings + k) = p'.steps (p'.readings + k)

structure Worlds (w w' : World) : Prop where
  heap : L.Heaps w.heap w'.heap
  console : w.console = w'.console
  clock : Clocks w.clock w'.clock w.course w'.course

def Frames (fs fs' : Frames) : Prop := L.frames.Rows L.Bags fs.bags fs'.bags

variable {L}

/-! ## Identity -/

section Identity

/-- Texts are the same on one side if they are on the other. -/
theorem Texts.eq_iff {t t' u u' : Text} (h : L.Texts t t') (h' : L.Texts u u') :
    t = u ↔ t' = u' := by
  obtain ⟨i, x⟩ := t
  obtain ⟨i', x'⟩ := t'
  obtain ⟨j, y⟩ := u
  obtain ⟨j', y'⟩ := u'
  obtain ⟨hi, rfl⟩ := h
  obtain ⟨hj, rfl⟩ := h'
  rw [Text.mk.injEq, Text.mk.injEq, hi.eq_iff hj]

/-- So are native functions, for a link pairs lists, maps and texts off one to one. -/
theorem Natives.eq_iff {a a' b b' : Native} (h : L.Natives a a') (h' : L.Natives b b') :
    a = b ↔ a' = b' := by
  cases h <;> cases h' <;> simp only [reduceCtorEq, Native.text.injEq, Native.list.injEq,
    Native.map.injEq, Native.math.injEq, Native.global.injEq]
  case text.text h _ _ _ h' => rw [h.eq_iff h']
  case list.list h _ _ _ h' => rw [h.ref_eq_iff ListRef.index_injective h']
  case map.map h _ _ _ h' => rw [h.ref_eq_iff TableRef.index_injective h']

/-- So are keys of maps, which hold no more than that. -/
theorem Keys.eq_iff {a a' b b' : MapKey} (h : L.Keys a a') (h' : L.Keys b b') :
    a = b ↔ a' = b' := by
  cases h <;> cases h' <;> simp only [reduceCtorEq, MapKey.bool.injEq, MapKey.int.injEq,
    MapKey.float.injEq, MapKey.text.injEq, MapKey.list.injEq, MapKey.object.injEq,
    MapKey.closure.injEq, MapKey.native.injEq, MapKey.host.injEq]
  case list.list h _ _ h' => exact h.ref_eq_iff ListRef.index_injective h'
  case object.object h _ _ h' => exact h.ref_eq_iff ObjectRef.index_injective h'
  case closure.closure h _ _ h' => exact h.eq_iff h'
  case native.native h _ _ h' => exact h.eq_iff h'

/-- Whether two functions are one is the same on both sides. -/
theorem Callables.same_eq {f f' g g' : Callable} (hf : L.Callables f f') (hg : L.Callables g g') :
    f.same g = f'.same g' := by
  rw [Bool.eq_iff_iff]
  cases hf with
  | native hf =>
    cases hg with
    | native hg => simp only [Callable.same, beq_iff_eq, hf.eq_iff hg]
    | _ => exact Iff.rfl
  | closure hf =>
    cases hg with
    | closure hg => simp only [Callable.same, beq_iff_eq, hf.id.eq_iff hg.id]
    | _ => exact Iff.rfl
  | host f => cases hg <;> exact Iff.rfl

/-- What has an identity is one and the same in one run if it is in the other. -/
theorem Values.same_eq {a a' b b' : Value} (ha : L.Values a a') (hb : L.Values b b') :
    a.same b = a'.same b' := by
  cases ha with
  | text ha =>
    cases hb with
    | text hb =>
      rw [Bool.eq_iff_iff]
      simp only [Value.same, beq_iff_eq, ha.id.eq_iff hb.id]
    | _ => rfl
  | list ha =>
    cases hb with
    | list hb =>
      rw [Bool.eq_iff_iff]
      simp only [Value.same, beq_iff_eq, ha.ref_eq_iff ListRef.index_injective hb]
    | _ => rfl
  | object ha =>
    cases hb with
    | object hb =>
      rw [Bool.eq_iff_iff]
      simp only [Value.same, beq_iff_eq, ha.ref_eq_iff ObjectRef.index_injective hb]
    | _ => rfl
  | function ha =>
    cases hb with
    | function hb => exact ha.same_eq hb
    | _ => rfl
  | _ => cases hb <;> rfl

/-- Values that correspond make keys that do. -/
theorem Values.key {v v' : Value} (h : L.Values v v') :
    L.Keys (MapKey.ofValue v) (MapKey.ofValue v') := by
  cases h with
  | null => exact .null
  | bool b => exact .bool b
  | int n => exact .int n
  | float x => exact .float _
  | @text t t' ht =>
    -- As a key a string is its content, whichever string it is.
    show L.Keys (.text t.content) (.text t'.content)
    rw [ht.content]
    exact .text _
  | list h => exact .list h
  | object h => exact .object h
  | function h =>
    cases h with
    | native h => exact .native h
    | closure h => exact .closure h.id
    | host f => exact .host f

/-- What counts as true does so on both sides. -/
theorem Values.isTruthy_eq {v v' : Value} (h : L.Values v v') : v.isTruthy = v'.isTruthy := by
  cases h <;> rfl

theorem Values.isNull_eq {v v' : Value} (h : L.Values v v') : v.isNull = v'.isNull := by
  cases h <;> rfl

theorem Natives.name_eq {op op' : Native} (h : L.Natives op op') : op.name = op'.name := by
  cases h <;> rfl

/-- A native function takes the same parameters on both sides. -/
theorem Natives.params_eq {op op' : Native} (h : L.Natives op op') : op.params = op'.params := by
  cases h <;> rfl

/-- A function has the same name on both sides. -/
theorem Callables.name_eq {f f' : Callable} (h : L.Callables f f') : f.name = f'.name := by
  cases h with
  | native h => exact h.name_eq
  | closure h => exact h.name
  | host f => rfl

/-- It has the same parameters on both sides. -/
theorem Callables.params_eq {f f' : Callable} (h : L.Callables f f') : f.params = f'.params := by
  cases h with
  | native h => exact h.params_eq
  | closure h => exact h.decl.params_eq
  | host f => rfl

/-- It is printed in the same way on both sides. -/
theorem Callables.text_eq {f f' : Callable} (h : L.Callables f f') : f.text = f'.text := by
  unfold Callable.text
  rw [h.name_eq, h.params_eq]

end Identity

/-! ## Bags, tables and items -/

/-- A property is put in two bags under one name. -/
theorem Bags.put {b b' : Bag} (h : L.Bags b b') (x : String) {v v' : Value} (hv : L.Values v v') :
    L.Bags (b.put x v) (b'.put x v') := by
  intro y
  rw [Assoc.get?_put, Assoc.get?_put]
  split
  · exact .some hv
  · exact h y

theorem bags_empty : L.Bags {} {} := fun _ => .none

/-- Bags that correspond have the same names. -/
theorem Bags.contains_eq {b b' : Bag} (h : L.Bags b b') (x : String) :
    b.contains x = b'.contains x :=
  isSome_eq_of_rel (h x)

/-- Bags with corresponding entries correspond. -/
theorem bags_of_entries {l l' : List (String × Value)} (h : L.Entries l l') :
    L.Bags ⟨l⟩ ⟨l'⟩ := by
  intro x
  show Option.Rel L.Values (Assoc.find? x l) (Assoc.find? x l')
  induction h with
  | nil => exact .none
  | @cons p p' l l' hp _ ih =>
    obtain ⟨y, v⟩ := p
    obtain ⟨y', v'⟩ := p'
    obtain ⟨rfl, hv⟩ := hp
    unfold Assoc.find?
    split
    · exact .some hv
    · exact ih

/-- A key is stored in both tables, in place of entries that belong together. -/
theorem Tables.put {t t' : Table} (h : L.Tables t t') {k k' : MapKey} (hk : L.Keys k k')
    {v v' : Value} (hv : L.Values v v') : L.Tables (t.put k v) (t'.put k' v') :=
  rel_put h (fun _ _ => hk.eq_iff) hv

theorem tables_empty : L.Tables {} {} := fun _ _ _ => .none

namespace Items

variable {xs xs' : Array Value} {v v' : Value}

/-- Lists that correspond are of one length. -/
theorem size_eq (h : L.Items xs xs') : xs.size = xs'.size := by
  have hlength := h.length_eq
  simpa using hlength

theorem empty : L.Items #[] #[] := .nil

/-- Lists that correspond may grow by one item each. -/
theorem push (h : L.Items xs xs') (hv : L.Values v v') : L.Items (xs.push v) (xs'.push v') := by
  unfold Items
  rw [Array.toList_push, Array.toList_push]
  exact List.rel_append h (.cons hv .nil)

/-- At each position they hold items that correspond, or none. -/
theorem get (h : L.Items xs xs') (i : Nat) : Option.Rel L.Values xs[i]? xs'[i]? := by
  rw [← Array.getElem?_toList, ← Array.getElem?_toList]
  unfold Items at h
  generalize xs.toList = l at h
  generalize xs'.toList = l' at h
  induction h generalizing i with
  | nil => exact .none
  | cons hv _ ih =>
    cases i with
    | zero => exact .some hv
    | succ i => exact ih i

/-- They may be changed at a position. -/
theorem set (h : L.Items xs xs') (i : Nat) (hv : L.Values v v') :
    L.Items (xs.setIfInBounds i v) (xs'.setIfInBounds i v') := by
  unfold Items at h ⊢
  rw [Array.toList_setIfInBounds, Array.toList_setIfInBounds]
  generalize xs.toList = l at h
  generalize xs'.toList = l' at h
  induction h generalizing i with
  | nil => exact .nil
  | cons hw hrest ih =>
    cases i with
    | zero => exact .cons hv hrest
    | succ i => exact .cons hw (ih i)

/-- They may lose their last items. -/
theorem pop (h : L.Items xs xs') : L.Items xs.pop xs'.pop := by
  unfold Items at h ⊢
  rw [Array.toList_pop, Array.toList_pop]
  generalize xs.toList = l at h
  generalize xs'.toList = l' at h
  induction h with
  | nil => exact .nil
  | cons hv hrest ih =>
    cases hrest with
    | nil => exact .nil
    | cons hw hrest => exact .cons hv ih

end Items

/-! ## Views of heaps -/

namespace Heaps

variable {h h' : Heap}

/-- Lists that belong together have items that correspond. -/
theorem items (hh : L.Heaps h h') {r r' : ListRef} (hr : L.lists.Pairs r.index r'.index) :
    L.Items (h.items r) (h'.items r') := by
  have hrow := hh.lists.get hr
  unfold Heap.items
  generalize h.lists[r.index]? = cell at hrow
  generalize h'.lists[r'.index]? = cell' at hrow
  cases hrow with
  | none => exact .nil
  | some hcell => exact hcell.items

/-- Maps that belong together have tables that do. -/
theorem table (hh : L.Heaps h h') {t t' : TableRef} (ht : L.tables.Pairs t.index t'.index) :
    L.Tables (h.table t) (h'.table t') := rel_getD (hh.tables.get ht) tables_empty

/-- Methods of values that correspond. -/
theorem bags_methods {μ : Type} (all : List μ) (name : μ → String) {f f' : μ → Native}
    (hf : ∀ m, L.Natives (f m) (f' m)) :
    L.Bags ⟨all.map fun m => (name m, .function (.native (f m)))⟩
      ⟨all.map fun m => (name m, .function (.native (f' m)))⟩ := by
  refine bags_of_entries ?_
  induction all with
  | nil => exact .nil
  | cons m all ih => exact .cons ⟨rfl, .function (.native (hf m))⟩ ih

/-- Values that correspond have both a bag, or neither has. -/
theorem bag? (hh : L.Heaps h h') {v v' : Value} (hv : L.Values v v') :
    Option.Rel L.Bags (h.bag? v) (h'.bag? v') := by
  cases hv with
  | @text t t' ht =>
    have hrow := hh.texts.get ht.id
    refine .some (rel_getD ?_ (bags_methods _ _ fun m => .text m ht))
    generalize h.texts[t.id]? = changed at hrow
    generalize h'.texts[t'.id]? = changed' at hrow
    cases hrow with
    | none => exact .none
    | some hbag => exact hbag
  | @list r r' hr =>
    have hrow := hh.lists.get hr
    refine .some (rel_getD ?_ (bags_methods _ _ fun m => .list m hr))
    generalize h.lists[r.index]? = cell at hrow
    generalize h'.lists[r'.index]? = cell' at hrow
    cases hrow with
    | none => exact .none
    | some hcell => exact hcell.changed
  | object hr => exact .some (rel_getD (hh.objects.get hr) bags_empty)
  | _ => exact .none

/-- So a property is found in both or in neither. -/
theorem property? (hh : L.Heaps h h') {v v' : Value} (hv : L.Values v v') (x : String) :
    Option.Rel L.Values (h.property? v x) (h'.property? v' x) := by
  have hbag := hh.bag? hv
  unfold Heap.property?
  generalize h.bag? v = bag at hbag
  generalize h'.bag? v' = bag' at hbag
  cases hbag with
  | none => exact .none
  | some hb => exact hb x

/-- An object has the same name of its own in both heaps, or none in either. -/
theorem objectName?_eq (hh : L.Heaps h h') {r r' : ObjectRef}
    (hr : L.objects.Pairs r.index r'.index) :
    h.objectName? r = h'.objectName? r' := by
  have hname := hh.property? (.object hr) Heap.nameProperty
  unfold Heap.objectName?
  generalize h.property? (.object r) Heap.nameProperty = name at hname
  generalize h'.property? (.object r') Heap.nameProperty = name' at hname
  cases hname with
  | none => rfl
  | some hv =>
    cases hv with
    | text ht => exact congrArg some ht.content
    | _ => rfl

/-- An object is printed by its name. -/
theorem printObject_eq (hh : L.Heaps h h') {r r' : ObjectRef}
    (hr : L.objects.Pairs r.index r'.index) :
    h.printObject r = h'.printObject r' := by
  unfold Heap.printObject
  rw [hh.objectName?_eq hr]

/-- The type of a value is the same in both heaps. -/
theorem typeName_eq (hh : L.Heaps h h') {v v' : Value} (hv : L.Values v v') :
    h.typeName v = h'.typeName v' := by
  cases hv with
  | object hr => exact hh.printObject_eq hr
  | @function f f' hf =>
    show "<fn " ++ f.name ++ ">" = "<fn " ++ f'.name ++ ">"
    rw [hf.name_eq]
  | _ => rfl

/-- So a complaint about a type is the same. -/
theorem unexpected_eq (hh : L.Heaps h h') (expected : String) {v v' : Value} (hv : L.Values v v') :
    h.unexpected expected v = h'.unexpected expected v' := by
  unfold Heap.unexpected
  rw [hh.typeName_eq hv]

end Heaps

/-! ## Printing -/

/-- Some of `n` lists are being printed inside each other, and the depth is enough for the rest. -/
structure Deep (n depth : Nat) (opened : List ListRef) : Prop where
  nodup : opened.Nodup
  there : ∀ r ∈ opened, r.index < n
  enough : n < depth + opened.length

/-- The lists that are being printed are different, so there are not more of them than lists. -/
theorem Deep.exists_level {n depth : Nat} {opened : List ListRef} (h : Deep n depth opened) :
    ∃ d, depth = d + 1 := by
  have hnodup : (opened.map ListRef.index).Nodup := h.nodup.map ListRef.index_injective
  have hsubset : opened.map ListRef.index ⊆ List.range n := by
    intro i hi
    obtain ⟨r, hr, rfl⟩ := List.mem_map.1 hi
    exact List.mem_range.2 (h.there r hr)
  have hlength := (hnodup.subperm hsubset).length_le
  rw [List.length_map, List.length_range] at hlength
  have := h.enough
  exact ⟨depth - 1, by omega⟩

/-- A list that is opened inside others is one less that can be opened. -/
theorem Deep.open {n depth : Nat} {opened : List ListRef} (h : Deep n (depth + 1) opened)
    {r : ListRef} (hr : r.index < n) (hnew : r ∉ opened) : Deep n depth (r :: opened) := by
  refine ⟨List.nodup_cons.2 ⟨hnew, h.nodup⟩, fun q hq => ?_, ?_⟩
  · rcases List.mem_cons.1 hq with rfl | hq
    · exact hr
    · exact h.there q hq
  · have := h.enough
    rw [List.length_cons]
    omega

/-- A list is open in one run if and only if it is in the other. -/
theorem mem_iff_of_opened {opened opened' : List ListRef} {r r' : ListRef}
    (h : List.Forall₂ (fun q q' : ListRef => L.lists.Pairs q.index q'.index) opened opened')
    (hr : L.lists.Pairs r.index r'.index) : r ∈ opened ↔ r' ∈ opened' := by
  induction h with
  | nil => simp
  | cons hq _ ih =>
    rw [List.mem_cons, List.mem_cons, ih, hr.ref_eq_iff ListRef.index_injective hq]

/-- Without the items of lists, values that correspond are printed alike. -/
theorem Heaps.flatText_eq {h h' : Heap} (hh : L.Heaps h h') {v v' : Value} (hv : L.Values v v') :
    h.flatText v = h'.flatText v' := by
  cases hv with
  | text ht => exact ht.content
  | object hr => exact hh.printObject_eq hr
  | function hf => exact hf.text_eq
  | _ => rfl

/-- Values that correspond are printed alike, whatever the depths are, if they are enough. -/
theorem Heaps.printInside_eq {h h' : Heap} (hh : L.Heaps h h') (depth : Nat) :
    ∀ depth' opened opened' v v', L.Values v v' →
      List.Forall₂ (fun q q' : ListRef => L.lists.Pairs q.index q'.index) opened opened' →
      Deep h.lists.size depth opened → Deep h'.lists.size depth' opened' →
      h.printInside depth opened v = h'.printInside depth' opened' v' := by
  induction depth with
  | zero =>
    intro depth' opened opened' v v' _ _ hdeep _
    obtain ⟨d, hd⟩ := hdeep.exists_level
    exact nomatch hd
  | succ depth ih =>
    intro depth' opened opened' v v' hv hopened hdeep hdeep'
    obtain ⟨depth', rfl⟩ := hdeep'.exists_level
    have hflat := hh.flatText_eq hv
    cases hv with
    | @list r r' hr =>
      rw [Heap.printInside_list, Heap.printInside_list]
      have hmem := mem_iff_of_opened hopened hr
      by_cases hin : r ∈ opened
      · rw [if_pos hin, if_pos (hmem.1 hin)]
      · have hout : r' ∉ opened' := fun h' => hin (hmem.2 h')
        rw [if_neg hin, if_neg hout]
        have hitems := hh.items hr
        have hthere := hr.lt_iff hh.lists.size
        by_cases hlt : r.index < h.lists.size
        · have hinside : (h.items r).toList.map (h.printInside depth (r :: opened)) =
              (h'.items r').toList.map (h'.printInside depth' (r' :: opened')) := by
            have hdeeper := hdeep.open hlt hin
            have hdeeper' := hdeep'.open (hthere.1 hlt) hout
            rw [← List.forall₂_eq_eq_eq, List.forall₂_map_left_iff, List.forall₂_map_right_iff]
            refine hitems.imp fun w w' hw => ?_
            exact ih depth' _ _ w w' hw (.cons hr hopened) hdeeper hdeeper'
          rw [hinside]
        · -- A list that is not there on one side is not there on the other, and has no items.
          have hout : h'.lists.size ≤ r'.index := Nat.le_of_not_lt fun h' => hlt (hthere.2 h')
          rw [Heap.items_of_size_le (Nat.le_of_not_lt hlt), Heap.items_of_size_le hout,
            Array.toList_empty, List.map_nil, List.map_nil]
    | _ =>
      refine (Heap.printInside_of_not_list ?_ _ _).trans
        (hflat.trans (Heap.printInside_of_not_list ?_ _ _).symm) <;> nofun

/-- Values that correspond are printed alike, however deep their lists are. -/
theorem Heaps.print_eq {h h' : Heap} (hh : L.Heaps h h') {v v' : Value} (hv : L.Values v v') :
    h.print v = h'.print v' := by
  have hdeep : ∀ n, Deep n (n + 1) [] :=
    fun n => ⟨List.nodup_nil, fun r hr => (nomatch hr), Nat.lt_succ_self n⟩
  exact hh.printInside_eq _ _ _ _ v v' hv .nil (hdeep _) (hdeep _)

/-! ## Heaps that change -/

/-- Answers that correspond, and behind them heaps that do. -/
def AndHeaps {α β : Type} (L : Link) (R : α → β → Prop) (p : α × Heap) (p' : β × Heap) : Prop :=
  R p.1 p'.1 ∧ L.Heaps p.2 p'.2

namespace Heaps

variable {h h' : Heap} (hh : L.Heaps h h')

include hh

/-- Texts that are made in both runs belong together. -/
theorem newText (content : String) :
    L.AndHeaps L.Values (h.newText content) (h'.newText content) :=
  ⟨.text ⟨hh.texts.size.pairs, rfl⟩, { hh with texts := hh.texts.push .none }⟩

/-- Lists that are made in both runs belong together. -/
theorem newList {xs xs' : Array Value} (hxs : L.Items xs xs') :
    L.AndHeaps (fun r r' => L.lists.Pairs r.index r'.index) (h.newList xs) (h'.newList xs') :=
  ⟨hh.lists.size.pairs, { hh with lists := hh.lists.push ⟨hxs, .none⟩ }⟩

/-- Objects that are made in both runs belong together. -/
theorem newObject {b b' : Bag} (hb : L.Bags b b') :
    L.AndHeaps (fun r r' => L.objects.Pairs r.index r'.index) (h.newObject b) (h'.newObject b') :=
  ⟨hh.objects.size.pairs, { hh with objects := hh.objects.push hb }⟩

theorem newNamed (name : String) {l l' : List (String × Value)} (hl : L.Entries l l') :
    L.AndHeaps L.Values (h.newNamed name l) (h'.newNamed name l') := by
  obtain ⟨htext, hh⟩ := hh.newText name
  have hentries : L.Entries ((Heap.nameProperty, (h.newText name).1) :: l)
      ((Heap.nameProperty, (h'.newText name).1) :: l') :=
    .cons ⟨rfl, htext⟩ hl
  obtain ⟨hobject, hh⟩ := hh.newObject (bags_of_entries hentries)
  exact ⟨.object hobject, hh⟩

/-- Maps that are made in both runs belong together. -/
theorem newTable :
    L.AndHeaps (fun t t' => L.tables.Pairs t.index t'.index) h.newTable h'.newTable :=
  ⟨hh.tables.size.pairs, { hh with tables := hh.tables.push tables_empty }⟩

/-- Functions whose code is alike are made in both runs. -/
theorem newClosure (name : String) {s s' : Scope} (hs : L.Scopes s s') {d d' : FnDecl}
    (hd : FnDecl.Like L.nodes d d') :
    L.AndHeaps L.Values (h.newClosure name s d) (h'.newClosure name s' d') :=
  ⟨.function (.closure ⟨hh.closures.pairs, rfl, hs, hd⟩),
    { hh with closures := hh.closures.succ }⟩

/-- The items of lists that belong together may be changed in the same way. -/
theorem modifyItems {r r' : ListRef} (hr : L.lists.Pairs r.index r'.index)
    {f f' : Array Value → Array Value} (hf : ∀ xs xs', L.Items xs xs' → L.Items (f xs) (f' xs')) :
    L.Heaps (h.modifyItems r f) (h'.modifyItems r' f') := by
  have hcells : ∀ c c', L.Cells c c' →
      L.Cells { c with items := f c.items } { c' with items := f' c'.items } :=
    fun _ _ hcell => ⟨hf _ _ hcell.items, hcell.changed⟩
  exact { hh with lists := hh.lists.modify hr hcells }

theorem modifyTable {t t' : TableRef} (ht : L.tables.Pairs t.index t'.index)
    {f f' : Table → Table} (hf : ∀ u u', L.Tables u u' → L.Tables (f u) (f' u')) :
    L.Heaps (h.modifyTable t f) (h'.modifyTable t' f') :=
  { hh with tables := hh.tables.modify ht hf }

/-- A bag is put back where it came from, in both heaps. -/
theorem putBag {v v' : Value} (hv : L.Values v v') {b b' : Bag} (hb : L.Bags b b') :
    L.Heaps (h.putBag v b) (h'.putBag v' b') := by
  cases hv with
  | text ht => exact { hh with texts := hh.texts.modify ht.id fun _ _ _ => .some hb }
  | list hr =>
    have hcells : ∀ c c', L.Cells c c' →
        L.Cells { c with changed := some b } { c' with changed := some b' } :=
      fun _ _ hcell => ⟨hcell.items, .some hb⟩
    exact { hh with lists := hh.lists.modify hr hcells }
  | object hr => exact { hh with objects := hh.objects.modify hr fun _ _ _ => hb }
  | _ => exact hh

end Heaps

end Link

end SmallScript
