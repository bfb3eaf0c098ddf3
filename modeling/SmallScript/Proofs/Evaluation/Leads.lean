/-
  Where values lead.

  A value that has an identity leads to other values: a list to its items, whatever has properties
  to these, a method of a list to the items of that list, a function of a map to what the map
  holds.  An act on the world adds only ways to values that are at hand, and what it makes was not
  there before (`World.Act.leads`, `World.Act.beyond`).

  Of the functions of an embedder it can be asked that they only follow such ways and do such acts
  (`Host.Modest`).
-/
import SmallScript.Proofs.Evaluation.Act

namespace SmallScript

namespace Heap

/-- In a heap, one value leads to another. -/
inductive Leads (h : Heap) : Value → Value → Prop where
  | item {r : ListRef} {v : Value} : v ∈ h.items r → Leads h (.list r) v
  | property {o : Value} {x : String} {v : Value} : h.property? o x = some v → Leads h o v
  | listed {r : ListRef} {m : ListMethod} {v : Value} :
      v ∈ h.items r → Leads h (.function (.native (.list r m))) v
  | entry {t : TableRef} {m : MapMethod} {k : MapKey} {v : Value} :
      (h.table t).get? k = some v → Leads h (.function (.native (.map t m))) v

/-- A value that refers to nothing in a heap: it refers to nothing, or to what is not there. -/
inductive Beyond (h : Heap) : Value → Prop where
  | plain {v : Value} : v.Plain → Beyond h v
  | text {t : Text} : h.texts.size ≤ t.id → Beyond h (.text t)
  | textMethod (t : Text) (m : TextMethod) : Beyond h (.function (.native (.text t m)))
  | list {r : ListRef} : h.lists.size ≤ r.index → Beyond h (.list r)
  | listMethod {r : ListRef} (m : ListMethod) :
      h.lists.size ≤ r.index → Beyond h (.function (.native (.list r m)))
  | object {r : ObjectRef} : h.objects.size ≤ r.index → Beyond h (.object r)
  | mapMethod {t : TableRef} (m : MapMethod) :
      h.tables.size ≤ t.index → Beyond h (.function (.native (.map t m)))

variable {h k : Heap} {o p v : Value}

/-- What is not in the larger heap is not in the smaller one. -/
theorem Beyond.of_grows (hk : h.Grows k) (hv : k.Beyond v) : h.Beyond v := by
  cases hv with
  | plain hv => exact .plain hv
  | text ht => exact .text (Nat.le_trans hk.texts ht)
  | textMethod t m => exact .textMethod t m
  | list hr => exact .list (Nat.le_trans hk.lists hr)
  | listMethod m hr => exact .listMethod m (Nat.le_trans hk.lists hr)
  | object hr => exact .object (Nat.le_trans hk.objects hr)
  | mapMethod m ht => exact .mapMethod m (Nat.le_trans hk.tables ht)

theorem table_of_size_le {t : TableRef} (ht : h.tables.size ≤ t.index) : h.table t = {} := by
  unfold table
  rw [Array.getElem?_eq_none ht]
  rfl

/-- The properties of what is not there are the methods of its kind. -/
theorem Beyond.property (ho : h.Beyond o) {x : String} (hp : h.property? o x = some p) :
    h.Beyond p := by
  obtain ⟨b, hb, hx⟩ := Option.bind_eq_some_iff.1 hp
  have hmem := Assoc.mem_of_get? hx
  cases ho with
  | plain ho => cases ho <;> cases hb
  | @text t ht =>
    unfold bag? at hb
    dsimp only at hb
    rw [Array.getElem?_eq_none ht] at hb
    cases hb
    obtain ⟨m, -, hm⟩ := List.mem_map.1 hmem
    cases hm
    exact .textMethod t m
  | @list r hr =>
    unfold bag? at hb
    dsimp only at hb
    rw [Array.getElem?_eq_none hr] at hb
    cases hb
    obtain ⟨m, -, hm⟩ := List.mem_map.1 hmem
    cases hm
    exact .listMethod m hr
  | object hr =>
    unfold bag? at hb
    dsimp only at hb
    rw [Array.getElem?_eq_none hr] at hb
    cases hb
    cases hmem
  | textMethod t m => cases hb
  | listMethod m hr => cases hb
  | mapMethod m ht => cases hb

/-- What is not there leads to nothing that is. -/
theorem Beyond.leads (ho : h.Beyond o) (hl : h.Leads o p) : h.Beyond p := by
  cases hl with
  | property hp => exact ho.property hp
  | item hp =>
    cases ho with
    | plain ho => cases ho
    | list hr =>
      rw [items_of_size_le hr] at hp
      exact absurd hp (Array.not_mem_empty _)
  | listed hp =>
    cases ho with
    | plain ho => cases ho
    | listMethod m hr =>
      rw [items_of_size_le hr] at hp
      exact absurd hp (Array.not_mem_empty _)
  | entry hp =>
    cases ho with
    | plain ho => cases ho
    | mapMethod m ht =>
      rw [table_of_size_le ht] at hp
      cases hp

/-- Two heaps compared place by place: what a value leads to in the second it leads to in the first,
or it has a property. -/
theorem Leads.compare {S : Value → Prop} (hl : k.Leads o p)
    (hitems : ∀ r, ∀ v ∈ k.items r, v ∈ h.items r ∨ S v)
    (hbags : ∀ o b x v, k.bag? o = some b → b.get? x = some v → h.property? o x = some v ∨ S v)
    (htables : ∀ t x v, (k.table t).get? x = some v → (h.table t).get? x = some v ∨ S v) :
    h.Leads o p ∨ S p := by
  cases hl with
  | item hp => exact (hitems _ _ hp).imp_left .item
  | property hp =>
    obtain ⟨b, hb, hx⟩ := Option.bind_eq_some_iff.1 hp
    exact (hbags _ b _ _ hb hx).imp_left .property
  | listed hp => exact (hitems _ _ hp).imp_left .listed
  | entry hp => exact (htables _ _ _ hp).imp_left .entry

section Closure

variable (h : Heap) (name : String) (scope : Scope) (decl : FnDecl)

theorem leads_of_newClosure (hl : (h.newClosure name scope decl).2.Leads o p) : h.Leads o p := by
  cases hl with
  | item hp => exact .item hp
  | property hp => exact .property hp
  | listed hp => exact .listed hp
  | entry hp => exact .entry hp

end Closure

/-- Behind a bag that is put somewhere, a value leads to what it led to before, or to what the bag
holds. -/
theorem Leads.of_putBag {q : Value} {c : Bag} (hl : (h.putBag q c).Leads o p) :
    h.Leads o p ∨ ∃ x, c.get? x = some p := by
  refine hl.compare (S := fun p => ∃ x, c.get? x = some p) (fun r a ha => ?_)
    (fun o b x a hb hx => ?_) fun t x a ha => ?_
  · rw [items_putBag] at ha
    exact Or.inl ha
  · rcases h.bag?_putBag q o c with hsame | hput
    · exact Or.inl (Option.bind_eq_some_iff.2 ⟨b, hsame.symm.trans hb, hx⟩)
    · obtain rfl : c = b := Option.some.inj (hput.symm.trans hb)
      exact Or.inr ⟨x, hx⟩
  · rw [table_putBag] at ha
    exact Or.inl ha

theorem grows_changeBag (h : Heap) (o : Value) (change : Bag → Except Fault Bag) (refusal : Fault) :
    h.Grows (h.changeBag o change refusal).2 := by
  rcases changeBag_cases o change refusal h with ⟨f, hrefused⟩ | ⟨b, b', -, -, hput⟩
  · rw [hrefused]
    exact .refl h
  · rw [hput]
    exact .putBag h o b'

theorem property?_of_bag? {b : Bag} {x : String} (hb : h.bag? o = some b) (hx : b.get? x = some p) :
    h.property? o x = some p :=
  Option.bind_eq_some_iff.2 ⟨b, hb, hx⟩

end Heap

/-! ## Acts -/

namespace World.Act

variable {old : Heap} {A : Value → Prop} {w w' : World} {v : Value}

/-- No act takes anything away. -/
theorem grows (h : Act old A w v w') : w.heap.Grows w'.heap := by
  cases h with
  | print line => exact .refl _
  | eprint line => exact .refl _
  | input => exact .refl _
  | clock => exact .refl _
  | text content => exact .newText w.heap content
  | list items _ => exact .newList w.heap items
  | object b _ => exact .newObject w.heap b
  | table m => exact .newTable w.heap
  | items r f _ => exact .modifyItems w.heap r f
  | entries t f _ => exact .modifyTable w.heap t f
  | property o b b' x v _ _ _ _ => exact .putBag w.heap o b'
  | add r b b' x v _ _ _ _ _ => exact .putBag w.heap (.object r) b'

/-- What is had by an act was not there before. -/
theorem beyond (h : Act old A w v w') : w.heap.Beyond v := by
  cases h with
  | text content => exact .text (Nat.le_refl _)
  | list items _ => exact .list (Nat.le_refl _)
  | object b _ => exact .object (Nat.le_refl _)
  | table m => exact .mapMethod m (Nat.le_refl _)
  | _ => exact .plain .null

/-- What a value leads to behind an act, it led to before, or it was at hand, or something at hand
led to it. -/
theorem leads (h : Act old A w v w') {o p : Value} (hl : w'.heap.Leads o p) :
    w.heap.Leads o p ∨ A p ∨ ∃ q, A q ∧ w.heap.Leads q p := by
  let S : Value → Prop := fun p => A p ∨ ∃ q, A q ∧ w.heap.Leads q p
  have sameItems : ∀ r, ∀ a ∈ w.heap.items r, a ∈ w.heap.items r ∨ S a := fun r a => Or.inl
  have sameBags : ∀ o b x a, w.heap.bag? o = some b → b.get? x = some a →
      w.heap.property? o x = some a ∨ S a :=
    fun o b x a hb hx => Or.inl (Heap.property?_of_bag? hb hx)
  have sameTables : ∀ t x a, (w.heap.table t).get? x = some a →
      (w.heap.table t).get? x = some a ∨ S a := fun t x a => Or.inl
  cases h with
  | print line => exact Or.inl hl
  | eprint line => exact Or.inl hl
  | input => exact Or.inl hl
  | clock => exact Or.inl hl
  | text content =>
    refine hl.compare sameItems (fun o b x a hb hx => ?_) sameTables
    change (w.heap.newText content).2.bag? o = some b at hb
    rw [Heap.bag?_newText] at hb
    exact sameBags o b x a hb hx
  | list items hitems =>
    refine hl.compare (fun r a ha => ?_) (fun o b x a hb hx => ?_) sameTables
    · change a ∈ (w.heap.newList items).2.items r at ha
      rw [Heap.items_newList] at ha
      split at ha
      · exact Or.inr (Or.inl (hitems a ha))
      · exact Or.inl ha
    · change (w.heap.newList items).2.bag? o = some b at hb
      rw [Heap.bag?_newList] at hb
      exact sameBags o b x a hb hx
  | object c hc =>
    refine hl.compare sameItems (fun o b x a hb hx => ?_) sameTables
    rcases w.heap.bag?_newObject c o with hsame | hnew
    · exact sameBags o b x a (hsame.symm.trans hb) hx
    · obtain rfl : c = b := Option.some.inj (hnew.symm.trans hb)
      exact Or.inr (Or.inl (hc x a hx))
  | table m =>
    refine hl.compare sameItems sameBags fun t x a ha => ?_
    change (w.heap.newTable.2.table t).get? x = some a at ha
    rw [Heap.table_newTable] at ha
    exact Or.inl ha
  | items r f hf =>
    refine hl.compare (fun q a ha => ?_) (fun o b x a hb hx => ?_) sameTables
    · change a ∈ (w.heap.modifyItems r f).items q at ha
      rw [Heap.items_modifyItems] at ha
      split at ha
      · rename_i hrq
        obtain ⟨rfl, -⟩ := hrq
        exact (hf a ha).imp_right Or.inl
      · exact Or.inl ha
    · change (w.heap.modifyItems r f).bag? o = some b at hb
      rw [Heap.bag?_modifyItems] at hb
      exact sameBags o b x a hb hx
  | entries t f hf =>
    refine hl.compare sameItems sameBags fun u x a ha => ?_
    change ((w.heap.modifyTable t f).table u).get? x = some a at ha
    rw [Heap.table_modifyTable] at ha
    split at ha
    · rename_i htu
      obtain ⟨rfl, -⟩ := htu
      exact (hf x a ha).imp_right Or.inl
    · exact Or.inl ha
  | property q c c' y v hc hset hq hv =>
    refine (Heap.Leads.of_putBag (q := q) (c := c') hl).imp_right ?_
    rintro ⟨x, hx⟩
    -- What the bag held before, its owner led to.
    rcases Bag.get?_set hset hx with rfl | hold
    · exact Or.inl hv
    · exact Or.inr ⟨q, hq, .property (Heap.property?_of_bag? hc hold)⟩
  | add r c c' y v hc hadd _ hr hv =>
    refine (Heap.Leads.of_putBag (q := .object r) (c := c') hl).imp_right ?_
    rintro ⟨x, hx⟩
    rcases Bag.get?_add hadd hx with rfl | hold
    · exact Or.inl hv
    · exact Or.inr ⟨_, hr, .property (Heap.property?_of_bag? hc hold)⟩

end World.Act

/-! ## Acts one after the other -/

/-- What may come of several acts, one after the other, and the world behind them.  Plain values are
at hand, and so is what is had by an act, and what something at hand leads to. -/
inductive World.Acts (old : Heap) :
    (Value → Prop) → World → Except Fault Value → World → Prop where
  | answer {A : Value → Prop} {w : World} {v : Value} : A v → Acts old A w (.ok v) w
  | fail {A : Value → Prop} {w : World} (f : Fault) : Acts old A w (.error f) w
  | plain {A : Value → Prop} {w w' : World} {v : Value} {r : Except Fault Value} :
      v.Plain → Acts old (fun p => A p ∨ p = v) w r w' → Acts old A w r w'
  | follow {A : Value → Prop} {w w' : World} {o v : Value} {r : Except Fault Value} :
      A o → w.heap.Leads o v → Acts old (fun p => A p ∨ p = v) w r w' → Acts old A w r w'
  | act {A : Value → Prop} {w u w' : World} {v : Value} {r : Except Fault Value} :
      Act old A w v u → Acts old (fun p => A p ∨ p = v) u r w' → Acts old A w r w'

/-- An embedder whose functions do nothing but acts, with what they are given and with what they come
to from there. -/
def Host.Modest (host : Host) : Prop :=
  ∀ f args w, World.Acts w.heap (· ∈ args) w (host.invoke f args w).1 (host.invoke f args w).2

/-- There is nothing at hand where nothing is done. -/
theorem Host.bare_modest : bare.Modest := fun _ _ _ => .plain .null (.answer (Or.inr rfl))

end SmallScript
