/-
  What is printed of lists that come up inside themselves.

  A value is unfolded into a tree: a list into its items, but a list that is being unfolded already
  is only marked (`Unfolding.again`).  Every value has one unfolding (`Heap.exists_unfolding`,
  `Heap.Unfolds.unique`), although its lists may go round in circles.  What makes an end is not the
  heap but the path: the lists that are open are all different and are all reached from the value,
  so of those that are reached fewer and fewer are left to be opened.

  Printing writes this tree (`Heap.printInside_of_unfolds`).  The lemma does not care why the bound of
  printing suffices: it is used with the bound that printing is given, the number of lists in the
  heap, and with the one that is claimed, the number of lists that are reached.
-/
import Mathlib.Data.Set.Card
import Mathlib.Data.Set.Finite.Lattice
import Mathlib.Logic.Relation
import SmallScript.Proofs.Evaluation.Correspondence
import SmallScript.Proofs.Evaluation.Leads

namespace SmallScript

/-! ## Trees -/

/-- A value unfolded. -/
inductive Unfolding where
  /-- What is no list, as it is printed. -/
  | leaf (text : String)
  /-- A list that is being unfolded on the path to this place. -/
  | again
  | list (items : List Unfolding)

namespace Unfolding

mutual

/-- An unfolding as it is written. -/
def text : Unfolding → String
  | .leaf text => text
  | .again => "[...]"
  | .list us => "[" ++ String.intercalate "," (texts us) ++ "]"

def texts : List Unfolding → List String
  | [] => []
  | u :: us => u.text :: texts us

end

mutual

/-- How many calls are inside each other when each node is written by one. -/
def calls : Unfolding → Nat
  | .leaf _ | .again => 1
  | .list us => mostCalls us + 1

def mostCalls : List Unfolding → Nat
  | [] => 0
  | u :: us => max u.calls (mostCalls us)

end

mutual

/-- Nothing comes up again. -/
def Plain : Unfolding → Prop
  | .leaf _ => True
  | .again => False
  | .list us => AllPlain us

def AllPlain : List Unfolding → Prop
  | [] => True
  | u :: us => u.Plain ∧ AllPlain us

end

end Unfolding

namespace Heap

mutual

/-- A value unfolds into a tree while the lists on a path are being unfolded. -/
def Unfolds (h : Heap) (path : List ListRef) (v : Value) : Unfolding → Prop
  | .leaf text => (∀ r, v ≠ .list r) ∧ text = h.print v
  | .again => ∃ r, v = .list r ∧ r ∈ path
  | .list us => ∃ r, v = .list r ∧ r ∉ path ∧ h.UnfoldAll (r :: path) (h.items r).toList us

/-- Values unfold one by one. -/
def UnfoldAll (h : Heap) (path : List ListRef) (vs : List Value) : List Unfolding → Prop
  | [] => vs = []
  | u :: us => ∃ v ws, vs = v :: ws ∧ h.Unfolds path v u ∧ h.UnfoldAll path ws us

end

/-! ## Lists that are reached -/

/-- The list `r` is an item of the list `q`. -/
def Encloses (h : Heap) (q r : ListRef) : Prop := .list r ∈ (h.items q).toList

/-- The lists that are reached from a value. -/
def listsFrom (h : Heap) (v : Value) : Set ListRef :=
  {r | ∃ q, v = .list q ∧ Relation.ReflTransGen h.Encloses q r}

variable {h : Heap} {q r : ListRef} {v : Value} {S : Set ListRef}

/-- A set of lists that has the lists inside its lists. -/
def Closed (h : Heap) (S : Set ListRef) : Prop := ∀ q ∈ S, ∀ r, h.Encloses q r → r ∈ S

theorem closed_listsFrom (h : Heap) (v : Value) : h.Closed (h.listsFrom v) := by
  rintro q ⟨p, rfl, hq⟩ r hr
  exact ⟨p, rfl, hq.tail hr⟩

theorem mem_listsFrom_self (h : Heap) (r : ListRef) : r ∈ h.listsFrom (.list r) :=
  ⟨r, rfl, .refl⟩

/-- Only a list that is there has items. -/
theorem Encloses.there (hqr : h.Encloses q r) : q.index < h.lists.size := by
  by_contra hq
  have hempty : h.items q = #[] := items_of_size_le (Nat.le_of_not_lt hq)
  unfold Encloses at hqr
  rw [hempty] at hqr
  exact List.not_mem_nil hqr

theorem finite_enclosed (h : Heap) (q : ListRef) : {r | h.Encloses q r}.Finite := by
  have hinj : Function.Injective Value.list := fun _ _ heq => Value.list.inj heq
  exact (List.finite_toSet (h.items q).toList).preimage hinj.injOn

/-- Whatever the heap, there are only so many lists to be reached. -/
theorem finite_listsFrom (h : Heap) (v : Value) : (h.listsFrom v).Finite := by
  have hinside : (⋃ i ∈ Finset.range h.lists.size, {r | h.Encloses ⟨i⟩ r}).Finite :=
    Set.Finite.biUnion (Finset.finite_toSet _) fun i _ => finite_enclosed h ⟨i⟩
  have hroot : {r | v = .list r}.Finite := by
    refine Set.Subsingleton.finite fun q hq r hr => ?_
    exact Value.list.inj (hq.symm.trans hr)
  refine (hroot.union hinside).subset ?_
  rintro r ⟨q, hv, hqr⟩
  rcases Relation.ReflTransGen.cases_tail hqr with rfl | ⟨p, -, hpr⟩
  · exact Or.inl hv
  · exact Or.inr (Set.mem_biUnion (Finset.mem_range.2 hpr.there) hpr)

/-! ## Unfolding -/

/-- A list that is opened is one less to be opened. -/
theorem ncard_open (hS : S.Finite) {path : List ListRef} (hr : r ∈ S) (hnew : r ∉ path) :
    (S \ {q | q ∈ r :: path}).ncard < (S \ {q | q ∈ path}).ncard := by
  have hless : S \ {q | q ∈ r :: path} = (S \ {q | q ∈ path}) \ {r} := by
    ext q
    simp only [Set.mem_sdiff, Set.mem_ofPred_eq, List.mem_cons, Set.mem_singleton_iff]
    tauto
  rw [hless]
  exact Set.ncard_sdiff_singleton_lt_of_mem ⟨hr, hnew⟩ hS.sdiff

theorem exists_unfoldAll {path : List ListRef} {n : Nat} :
    ∀ vs : List Value, (∀ v ∈ vs, ∃ u, h.Unfolds path v u ∧ u.calls ≤ n) →
      ∃ us, h.UnfoldAll path vs us ∧ Unfolding.mostCalls us ≤ n
  | [], _ => ⟨[], rfl, Nat.zero_le n⟩
  | v :: vs, hvs => by
    obtain ⟨u, hu, hcalls⟩ := hvs v List.mem_cons_self
    obtain ⟨us, hus, hmost⟩ := exists_unfoldAll vs fun w hw => hvs w (List.mem_cons_of_mem v hw)
    exact ⟨u :: us, ⟨v, vs, rfl, hu, hus⟩, max_le hcalls hmost⟩

/-- Every value has an unfolding; one call is open for each list that is left to be opened, and one
more. -/
theorem exists_unfolding (hS : S.Finite) (hclosed : h.Closed S) (n : Nat) :
    ∀ (path : List ListRef) (v : Value), (∀ r, v = .list r → r ∈ S) →
      (S \ {q | q ∈ path}).ncard ≤ n → ∃ u, h.Unfolds path v u ∧ u.calls ≤ n + 1 := by
  induction n with
  | zero =>
    intro path v hv hn
    by_cases hlist : ∃ r, v = .list r
    · obtain ⟨r, rfl⟩ := hlist
      have hr : r ∈ path := by
        by_contra hnew
        have := ncard_open hS (hv r rfl) hnew
        omega
      exact ⟨.again, ⟨r, rfl, hr⟩, Nat.le_refl 1⟩
    · exact ⟨.leaf (h.print v), ⟨fun r hr => hlist ⟨r, hr⟩, rfl⟩, Nat.le_refl 1⟩
  | succ n ih =>
    intro path v hv hn
    by_cases hlist : ∃ r, v = .list r
    · obtain ⟨r, rfl⟩ := hlist
      by_cases hr : r ∈ path
      · exact ⟨.again, ⟨r, rfl, hr⟩, Nat.succ_le_succ (Nat.zero_le _)⟩
      · have hfewer := ncard_open hS (hv r rfl) hr
        have hitems : ∀ w ∈ (h.items r).toList, ∃ u, h.Unfolds (r :: path) w u ∧
            u.calls ≤ n + 1 := by
          intro w hw
          refine ih (r :: path) w ?_ (by omega)
          rintro q rfl
          exact hclosed r (hv r rfl) q hw
        obtain ⟨us, hus, hmost⟩ := exists_unfoldAll _ hitems
        exact ⟨.list us, ⟨r, rfl, hr, hus⟩, Nat.succ_le_succ hmost⟩
    · exact ⟨.leaf (h.print v), ⟨fun r hr => hlist ⟨r, hr⟩, rfl⟩, Nat.succ_le_succ (Nat.zero_le _)⟩

mutual

/-- A value unfolds in one way. -/
theorem Unfolds.unique : ∀ {u u' : Unfolding} {path : List ListRef} {v : Value},
    h.Unfolds path v u → h.Unfolds path v u' → u = u'
  | .leaf text, u', path, v, hu, hu' => by
    obtain ⟨hv, rfl⟩ := hu
    cases u' with
    | leaf text' => rw [hu'.2]
    | again =>
      obtain ⟨r, hr, -⟩ := hu'
      exact absurd hr (hv r)
    | list us' =>
      obtain ⟨r, hr, -⟩ := hu'
      exact absurd hr (hv r)
  | .again, u', path, v, hu, hu' => by
    obtain ⟨r, rfl, hr⟩ := hu
    cases u' with
    | leaf text' => exact absurd rfl (hu'.1 r)
    | again => rfl
    | list us' =>
      obtain ⟨_, ⟨⟩, hnew, -⟩ := hu'
      exact absurd hr hnew
  | .list us, u', path, v, hu, hu' => by
    obtain ⟨r, rfl, hnew, hus⟩ := hu
    cases u' with
    | leaf text' => exact absurd rfl (hu'.1 r)
    | again =>
      obtain ⟨_, ⟨⟩, hr⟩ := hu'
      exact absurd hr hnew
    | list us' =>
      obtain ⟨_, ⟨⟩, -, hus'⟩ := hu'
      exact congrArg Unfolding.list (UnfoldAll.unique hus hus')

theorem UnfoldAll.unique : ∀ {us us' : List Unfolding} {path : List ListRef} {vs : List Value},
    h.UnfoldAll path vs us → h.UnfoldAll path vs us' → us = us'
  | [], us', path, vs, hus, hus' => by
    obtain rfl : vs = [] := hus
    cases us' with
    | nil => rfl
    | cons u' us' =>
      obtain ⟨_, _, ⟨⟩, -⟩ := hus'
  | u :: us, us', path, vs, hus, hus' => by
    obtain ⟨v, ws, rfl, hu, hrest⟩ := hus
    cases us' with
    | nil => cases hus'
    | cons u' us' =>
      obtain ⟨_, _, ⟨⟩, hu', hrest'⟩ := hus'
      rw [Unfolds.unique hu hu', UnfoldAll.unique hrest hrest']

end

/-! ## Printing -/

/-- The numbers for which printing suffices: while a list is left to be opened there is a level for
it, and the rest suffice for its items, if it has any. -/
structure Suffices (h : Heap) (S : Set ListRef) (P : Nat → List ListRef → Prop) : Prop where
  level {n : Nat} {path : List ListRef} {r : ListRef} : P n path → r ∈ S → r ∉ path →
    ∃ k, n = k + 1 ∧ (h.items r = #[] ∨ P k (r :: path))

variable {P : Nat → List ListRef → Prop}

mutual

/-- Printing writes the unfolding. -/
theorem printInside_of_unfolds (hP : h.Suffices S P) (hclosed : h.Closed S) :
    ∀ {u : Unfolding} {v : Value} {n : Nat} {path : List ListRef}, h.Unfolds path v u →
      (∀ r, v = .list r → r ∈ S) → P n path → h.printInside n path v = u.text
  | .leaf text, v, n, path, hu, _, _ => by
    obtain ⟨hv, rfl⟩ := hu
    unfold print
    rw [printInside_of_not_list hv, printInside_of_not_list hv]
    rfl
  | .again, v, n, path, hu, _, _ => by
    obtain ⟨r, rfl, hr⟩ := hu
    cases n with
    | zero => rfl
    | succ n =>
      rw [printInside_list, if_pos hr]
      rfl
  | .list us, v, n, path, hu, hv, hn => by
    obtain ⟨r, rfl, hnew, hus⟩ := hu
    obtain ⟨k, rfl, hk⟩ := hP.level hn (hv r rfl) hnew
    have htexts : (h.items r).toList.map (h.printInside k (r :: path)) =
        Unfolding.texts us := by
      rcases hk with hempty | hk
      · rw [hempty] at hus ⊢
        cases us with
        | nil => rfl
        | cons u us => obtain ⟨_, _, ⟨⟩, -⟩ := hus
      · exact printInside_of_unfoldAll hP hclosed hus (hclosed r (hv r rfl)) hk
    rw [printInside_list, if_neg hnew, htexts]
    rfl

theorem printInside_of_unfoldAll (hP : h.Suffices S P) (hclosed : h.Closed S) :
    ∀ {us : List Unfolding} {vs : List Value} {n : Nat} {path : List ListRef},
      h.UnfoldAll path vs us → (∀ r, .list r ∈ vs → r ∈ S) → P n path →
      vs.map (h.printInside n path) = Unfolding.texts us
  | [], vs, n, path, hus, _, _ => by
    obtain rfl : vs = [] := hus
    rfl
  | u :: us, vs, n, path, hus, hvs, hn => by
    obtain ⟨v, ws, rfl, hu, hrest⟩ := hus
    have hv : ∀ r, v = .list r → r ∈ S := by
      rintro r rfl
      exact hvs r List.mem_cons_self
    rw [List.map_cons, printInside_of_unfolds hP hclosed hu hv hn,
      printInside_of_unfoldAll hP hclosed hrest
        (fun r hr => hvs r (List.mem_cons_of_mem v hr)) hn]
    rfl

end

/-- As many levels suffice as there are lists that are left to be opened. -/
theorem suffices_ncard (h : Heap) (hS : S.Finite) :
    h.Suffices S fun n path => (S \ {q | q ∈ path}).ncard ≤ n := by
  refine ⟨fun {n path r} hn hr hnew => ?_⟩
  have hfewer := ncard_open hS hr hnew
  exact ⟨n - 1, by omega, Or.inr (by omega)⟩

/-- The levels that printing is given suffice. -/
theorem suffices_deep (h : Heap) (S : Set ListRef) : h.Suffices S (Link.Deep h.lists.size) := by
  refine ⟨fun {n path r} hdeep _ hnew => ?_⟩
  obtain ⟨k, rfl⟩ := hdeep.exists_level
  refine ⟨k, rfl, ?_⟩
  by_cases hr : r.index < h.lists.size
  · exact Or.inr (hdeep.open hr hnew)
  · exact Or.inl (items_of_size_le (Nat.le_of_not_lt hr))

theorem deep_nil (n : Nat) : Link.Deep n (n + 1) [] :=
  ⟨List.nodup_nil, fun _ hr => absurd hr List.not_mem_nil, Nat.lt_succ_self n⟩

theorem closed_univ (h : Heap) : h.Closed Set.univ := fun _ _ _ _ => Set.mem_univ _

theorem print_of_unfolds {u : Unfolding} (hu : h.Unfolds [] v u) : h.print v = u.text :=
  printInside_of_unfolds (h.suffices_deep Set.univ) h.closed_univ hu (fun r _ => Set.mem_univ r)
    (deep_nil _)

theorem map_print_of_unfoldAll {us : List Unfolding} {vs : List Value}
    (hus : h.UnfoldAll [] vs us) : vs.map h.print = Unfolding.texts us :=
  printInside_of_unfoldAll (h.suffices_deep Set.univ) h.closed_univ hus
    (fun r _ => Set.mem_univ r) (deep_nil _)

/-! ## Lists that do not come up again -/

/-- No list of a set is inside itself. -/
def Acyclic (h : Heap) (S : Set ListRef) : Prop := ∀ r ∈ S, ¬ Relation.TransGen h.Encloses r r

/-- If lists hold only lists of greater numbers, none is inside itself. -/
theorem acyclic_of_lt (hlt : ∀ q r, h.Encloses q r → q.index < r.index) (S : Set ListRef) :
    h.Acyclic S := by
  have hchain : ∀ q r, Relation.TransGen h.Encloses q r → q.index < r.index := by
    intro q r hqr
    induction hqr with
    | single hqr => exact hlt _ _ hqr
    | tail _ hqr ih => exact Nat.lt_trans ih (hlt _ _ hqr)
  exact fun r _ hr => Nat.lt_irrefl _ (hchain r r hr)

mutual

/-- Where no list is inside itself, nothing comes up again: the lists on the path have the value
inside them. -/
theorem Unfolds.plain (hclosed : h.Closed S) (hacyclic : h.Acyclic S) :
    ∀ {u : Unfolding} {path : List ListRef} {v : Value}, h.Unfolds path v u →
      (∀ r, v = .list r → r ∈ S) →
      (∀ p ∈ path, ∀ r, v = .list r → Relation.TransGen h.Encloses p r) → u.Plain
  | .leaf text, path, v, _, _, _ => trivial
  | .again, path, v, hu, hv, hpath => by
    obtain ⟨r, rfl, hr⟩ := hu
    exact hacyclic r (hv r rfl) (hpath r hr r rfl)
  | .list us, path, v, hu, hv, hpath => by
    obtain ⟨r, rfl, -, hus⟩ := hu
    refine UnfoldAll.plain hclosed hacyclic hus (hclosed r (hv r rfl)) fun p hp q hq => ?_
    have hrq : h.Encloses r q := hq
    rcases List.mem_cons.1 hp with rfl | hp
    · exact .single hrq
    · exact (hpath p hp r rfl).tail hrq

theorem UnfoldAll.plain (hclosed : h.Closed S) (hacyclic : h.Acyclic S) :
    ∀ {us : List Unfolding} {path : List ListRef} {vs : List Value}, h.UnfoldAll path vs us →
      (∀ r, .list r ∈ vs → r ∈ S) →
      (∀ p ∈ path, ∀ r, .list r ∈ vs → Relation.TransGen h.Encloses p r) →
      Unfolding.AllPlain us
  | [], path, vs, _, _, _ => trivial
  | u :: us, path, vs, hus, hvs, hpath => by
    obtain ⟨v, ws, rfl, hu, hrest⟩ := hus
    constructor
    · refine Unfolds.plain hclosed hacyclic hu ?_ ?_
      · rintro r rfl
        exact hvs r List.mem_cons_self
      · rintro p hp r rfl
        exact hpath p hp r List.mem_cons_self
    · exact UnfoldAll.plain hclosed hacyclic hrest
        (fun r hr => hvs r (List.mem_cons_of_mem v hr))
        (fun p hp r hr => hpath p hp r (List.mem_cons_of_mem v hr))

end

mutual

/-- If nothing comes up again, it does not matter which lists are open. -/
theorem Unfolds.forget : ∀ {u : Unfolding} {path path' : List ListRef} {v : Value},
    h.Unfolds path v u → u.Plain → path' ⊆ path → h.Unfolds path' v u
  | .leaf text, path, path', v, hu, _, _ => hu
  | .list us, path, path', v, hu, hplain, hsub => by
    obtain ⟨r, rfl, hnew, hus⟩ := hu
    refine ⟨r, rfl, fun hr => hnew (hsub hr), UnfoldAll.forget hus hplain ?_⟩
    exact List.cons_subset_cons r hsub

theorem UnfoldAll.forget : ∀ {us : List Unfolding} {path path' : List ListRef}
    {vs : List Value}, h.UnfoldAll path vs us → Unfolding.AllPlain us → path' ⊆ path →
      h.UnfoldAll path' vs us
  | [], path, path', vs, hus, _, _ => hus
  | u :: us, path, path', vs, hus, hplain, hsub => by
    obtain ⟨v, ws, rfl, hu, hrest⟩ := hus
    exact ⟨v, ws, rfl, Unfolds.forget hu hplain.1 hsub, UnfoldAll.forget hrest hplain.2 hsub⟩

end

/-- Where no list is inside itself, a list is printed as its items are printed by themselves. -/
theorem print_list (hS : S.Finite) (hclosed : h.Closed S) (hacyclic : h.Acyclic S) (hr : r ∈ S) :
    h.print (.list r) =
      "[" ++ String.intercalate "," ((h.items r).toList.map h.print) ++ "]" := by
  have hself : ∀ q, Value.list r = .list q → q ∈ S := by
    rintro q ⟨⟩
    exact hr
  obtain ⟨u, hu, -⟩ := exists_unfolding hS hclosed _ [] (.list r) hself (Nat.le_refl _)
  have hplain : u.Plain := hu.plain hclosed hacyclic hself fun p hp => absurd hp List.not_mem_nil
  rw [print_of_unfolds hu]
  cases u with
  | leaf text => exact absurd rfl (hu.1 r)
  | again => exact hplain.elim
  | list us =>
    obtain ⟨_, ⟨⟩, -, hus⟩ := hu
    have hitems : h.UnfoldAll [] (h.items r).toList us :=
      hus.forget hplain (List.nil_subset [r])
    rw [map_print_of_unfoldAll hitems]
    rfl

/-- **Printing unfolds a value.**  From a value there are only so many lists to be reached.  The value
has one unfolding, in which a list is marked in place of being unfolded just where it is open on the
path from the root, and what is printed is this unfolding as it is written.  Not more calls are inside
each other than there are lists to be reached, and one more, and printing is the same for every bound
that leaves it as many levels.  If no list that is reached is inside itself, then nothing is marked,
and each of them is printed as its items are, with commas between them. -/
theorem print_unfolds (h : Heap) (v : Value) :
    (h.listsFrom v).Finite ∧
    ∃ u, h.Unfolds [] v u ∧ (∀ u', h.Unfolds [] v u' → u' = u) ∧ h.print v = u.text ∧
      u.calls ≤ (h.listsFrom v).ncard + 1 ∧
      (∀ n, (h.listsFrom v).ncard ≤ n → h.printInside n [] v = u.text) ∧
      (h.Acyclic (h.listsFrom v) →
        u.Plain ∧ ∀ r ∈ h.listsFrom v, h.print (.list r) =
          "[" ++ String.intercalate "," ((h.items r).toList.map h.print) ++ "]") := by
  have hfinite := h.finite_listsFrom v
  have hclosed := h.closed_listsFrom v
  have hself : ∀ r, v = .list r → r ∈ h.listsFrom v := by
    rintro r rfl
    exact h.mem_listsFrom_self r
  have hnone : (h.listsFrom v \ {q | q ∈ ([] : List ListRef)}).ncard = (h.listsFrom v).ncard := by
    congr 1
    ext q
    simp
  obtain ⟨u, hu, hcalls⟩ :=
    exists_unfolding hfinite hclosed (h.listsFrom v).ncard [] v hself (Nat.le_of_eq hnone)
  refine ⟨hfinite, u, hu, fun u' hu' => hu'.unique hu, print_of_unfolds hu, hcalls, ?_, ?_⟩
  · intro n hn
    exact printInside_of_unfolds (h.suffices_ncard hfinite) hclosed hu hself (hnone ▸ hn)
  · intro hacyclic
    have hplain : u.Plain :=
      hu.plain hclosed hacyclic hself fun p hp => absurd hp List.not_mem_nil
    exact ⟨hplain, fun r hr => print_list hfinite hclosed hacyclic hr⟩

/-- A list that holds itself, and another list twice. -/
def round : Heap where
  lists := #[{ items := #[.list ⟨0⟩, .list ⟨1⟩, .list ⟨1⟩] }, { items := #[.null] }]

/-- The same without the list in itself. -/
def doubled : Heap where
  lists := #[{ items := #[.list ⟨1⟩, .list ⟨1⟩] }, { items := #[.null] }]

theorem unfolds_round : round.Unfolds [] (.list ⟨0⟩)
    (.list [.again, .list [.leaf "null"], .list [.leaf "null"]]) := by
  have hnull : round.Unfolds [⟨1⟩, ⟨0⟩] .null (.leaf "null") := ⟨nofun, rfl⟩
  have hone : round.Unfolds [⟨0⟩] (.list ⟨1⟩) (.list [.leaf "null"]) :=
    ⟨⟨1⟩, rfl, by decide, _, _, rfl, hnull, rfl⟩
  have hagain : round.Unfolds [⟨0⟩] (.list ⟨0⟩) .again := ⟨⟨0⟩, rfl, List.mem_cons_self⟩
  exact ⟨⟨0⟩, rfl, List.not_mem_nil, _, _, rfl, hagain, _, _, rfl, hone, _, _, rfl, hone, rfl⟩

theorem encloses_doubled (q r : ListRef) (h : doubled.Encloses q r) : q.index < r.index := by
  have hq := h.there
  obtain ⟨_ | _ | i⟩ := q
  · have hr : Value.list r ∈ [Value.list ⟨1⟩, .list ⟨1⟩] := h
    obtain rfl : r = ⟨1⟩ := by simpa using hr
    exact Nat.one_pos
  · have hr : Value.list r ∈ [Value.null] := h
    exact absurd hr (by simp)
  · exact absurd hq (by simp [doubled])

/-- The list that holds itself is marked inside itself, and the one that it holds twice is printed
twice.  Without the mark every list is printed as its items are. -/
theorem print_round_and_doubled :
    round.print (.list ⟨0⟩) = "[[...],[null],[null]]" ∧
    (∃ n, round.printInside n [] (.list ⟨0⟩) = "[[...],[null],[null]]" ∧
      2 ≤ (round.listsFrom (.list ⟨0⟩)).ncard) ∧
    doubled.print (.list ⟨0⟩) = "[" ++ String.intercalate ","
      [doubled.print (.list ⟨1⟩), doubled.print (.list ⟨1⟩)] ++ "]" := by
  obtain ⟨-, u, -, hunique, hprint, hcalls, hlevels, -⟩ := print_unfolds round (.list ⟨0⟩)
  obtain rfl := hunique _ unfolds_round
  obtain ⟨-, _, -, -, -, -, -, hflat⟩ := print_unfolds doubled (.list ⟨0⟩)
  have hacyclic := acyclic_of_lt encloses_doubled (doubled.listsFrom (.list ⟨0⟩))
  refine ⟨hprint, ⟨_, hlevels _ (Nat.le_refl _), Nat.le_of_succ_le_succ hcalls⟩, ?_⟩
  exact (hflat hacyclic).2 ⟨0⟩ (doubled.mem_listsFrom_self ⟨0⟩)

end Heap

end SmallScript
