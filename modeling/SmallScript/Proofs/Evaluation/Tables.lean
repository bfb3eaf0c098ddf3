/-
  What a map answers.

  A map knows of a key only its content or its identity, and neither of them can change.  So two
  values are the same key or not, whatever is done to the world (`Value.SameKey`), and what a map
  answers follows from what was stored in it so far: the value that was stored last under the same
  key (`Latest`).

  A history is a list of events, each a call of some native function or a change that leaves the
  tables alone.  One event adds to a table what it stores there and nothing else (`World.Step.filled`),
  so at the end of a history the table is filled with all that was stored (`World.Runs.filled`).
-/
import Mathlib.Data.List.Induction
import SmallScript.Native.Invoke

namespace SmallScript

/-! ## Keys -/

namespace Value

/-- Two values are the same key of a map.  Numbers are told apart by their bits, but all that are
not a number are one key; texts are told apart by their content, and everything in the heap by its
identity. -/
inductive SameKey : Value → Value → Prop where
  | null : SameKey .null .null
  | bool (b : Bool) : SameKey (.bool b) (.bool b)
  | int (n : Int64) : SameKey (.int n) (.int n)
  | float (x : Double) : SameKey (.float x) (.float x)
  | nan {x y : Double} : x.isNaN = true → y.isNaN = true → SameKey (.float x) (.float y)
  | text {t u : Text} : t.content = u.content → SameKey (.text t) (.text u)
  | list (r : ListRef) : SameKey (.list r) (.list r)
  | object (r : ObjectRef) : SameKey (.object r) (.object r)
  | function {f g : Callable} : f.same g = true → SameKey (.function f) (.function g)

variable {k j : Value}

theorem SameKey.ofValue_eq (h : k.SameKey j) : MapKey.ofValue k = MapKey.ofValue j := by
  cases h with
  | nan hx hy =>
    unfold MapKey.ofValue
    dsimp only
    rw [if_pos hx, if_pos hy]
  | text h =>
    unfold MapKey.ofValue
    dsimp only
    rw [h]
  | @function f g h =>
    cases f with
    | closure c =>
      cases g with
      | closure d => exact congrArg MapKey.closure (beq_iff_eq.1 h)
      | _ => cases h
    | native op =>
      cases g with
      | native op' => exact congrArg MapKey.native (beq_iff_eq.1 h)
      | _ => cases h
    | host f =>
      cases g with
      | host f' => exact congrArg MapKey.host (beq_iff_eq.1 h)
      | _ => cases h
  | _ => rfl

theorem sameKey_float {x y : Double}
    (h : (if x.isNaN then Double.nan else x) = if y.isNaN then Double.nan else y) :
    SameKey (.float x) (.float y) := by
  have hnan : Double.nan.isNaN = true := by decide
  cases hx : x.isNaN <;> cases hy : y.isNaN <;> rw [hx, hy] at h
  · exact (show x = y from h) ▸ .float x
  · rw [show x = Double.nan from h, hnan] at hx
    cases hx
  · rw [← show Double.nan = y from h, hnan] at hy
    cases hy
  · exact .nan hx hy

/-- What a map knows of keys tells the same from others. -/
theorem sameKey_iff : k.SameKey j ↔ MapKey.ofValue k = MapKey.ofValue j := by
  refine ⟨SameKey.ofValue_eq, fun h => ?_⟩
  -- Keys of two kinds differ, and what is left are two keys of each kind.
  rcases k with _ | b | n | x | t | r | r | (c | op | f) <;>
    rcases j with _ | b' | n' | y | u | q | q | (d | op' | f') <;> try cases h
  · exact .null
  · exact .bool b
  · exact .int n
  · exact sameKey_float (MapKey.float.inj h)
  · exact .text (MapKey.text.inj h)
  · exact .list r
  · exact .object r
  · exact .function (beq_iff_eq.2 (MapKey.closure.inj h))
  · exact .function (beq_iff_eq.2 rfl)
  · exact .function (beq_iff_eq.2 rfl)

theorem sameKey_equivalence : Equivalence SameKey where
  refl _ := sameKey_iff.2 rfl
  symm h := sameKey_iff.2 (sameKey_iff.1 h).symm
  trans h h' := sameKey_iff.2 ((sameKey_iff.1 h).trans (sameKey_iff.1 h'))

/-- An integer is never the same key as a float, not even as one of the same value. -/
theorem not_sameKey_int_float (n : Int64) (x : Double) : ¬ SameKey (.int n) (.float x) := by
  rintro ⟨⟩

end Value

/-! ## What was stored -/

section Stores

variable {k x : Value} {stores : List (Value × Value)}

/-- The value under a key after some values were stored under keys: that which was stored last
under the same key, and null if none was. -/
inductive Latest (k : Value) : List (Value × Value) → Value → Prop where
  | none {stores : List (Value × Value)} : (∀ p ∈ stores, ¬ p.1.SameKey k) → Latest k stores .null
  | last {before after : List (Value × Value)} {j x : Value} : j.SameKey k →
      (∀ p ∈ after, ¬ p.1.SameKey k) → Latest k (before ++ (j, x) :: after) x

/-- A table with values stored in it one after the other. -/
def Table.fill (t : Table) (stores : List (Value × Value)) : Table :=
  stores.foldl (fun t p => t.put (MapKey.ofValue p.1) p.2) t

theorem Table.fill_append (t : Table) (stores more : List (Value × Value)) :
    t.fill (stores ++ more) = (t.fill stores).fill more := List.foldl_append

/-- What is behind the last value stored under a key does not matter. -/
theorem Latest.concat {p : Value × Value} (h : Latest k stores x) (hp : ¬ p.1.SameKey k) :
    Latest k (stores ++ [p]) x := by
  have hmore : ∀ {after : List (Value × Value)}, (∀ q ∈ after, ¬ q.1.SameKey k) →
      ∀ q ∈ after ++ [p], ¬ q.1.SameKey k := by
    intro after hafter q hq
    rcases List.mem_append.1 hq with hq | hq
    · exact hafter q hq
    · rw [List.mem_singleton.1 hq]
      exact hp
  cases h with
  | none hnone => exact .none (hmore hnone)
  | last hj hafter =>
    rw [List.append_assoc, List.cons_append]
    exact .last hj (hmore hafter)

/-- An empty table that was filled answers what was stored last. -/
theorem latest_fill (k : Value) (stores : List (Value × Value)) :
    ((Table.fill {} stores).contains (MapKey.ofValue k) = true ↔
        ∃ p ∈ stores, p.1.SameKey k) ∧
      Latest k stores (((Table.fill {} stores).get? (MapKey.ofValue k)).getD .null) := by
  induction stores using List.reverseRec with
  | nil =>
    refine ⟨iff_of_false Bool.false_ne_true ?_, .none fun p hp => absurd hp List.not_mem_nil⟩
    rintro ⟨p, hp, -⟩
    exact List.not_mem_nil hp
  | append_singleton stores p ih =>
    have hput : (Table.fill {} (stores ++ [p])).get? (MapKey.ofValue k) =
        if MapKey.ofValue p.1 = MapKey.ofValue k then some p.2
        else (Table.fill {} stores).get? (MapKey.ofValue k) := by
      rw [Table.fill_append]
      exact Assoc.get?_put _ _ _ _
    unfold Assoc.contains at ih ⊢
    rw [hput]
    by_cases hp : p.1.SameKey k
    · rw [if_pos (Value.sameKey_iff.1 hp)]
      exact ⟨iff_of_true rfl ⟨p, List.mem_append_right _ List.mem_cons_self, hp⟩,
        .last hp fun q hq => absurd hq List.not_mem_nil⟩
    · rw [if_neg (mt Value.sameKey_iff.2 hp)]
      refine ⟨ih.1.trans ?_, ih.2.concat hp⟩
      simp only [List.mem_append, List.mem_singleton, or_and_right, exists_or, exists_eq_left, hp,
        or_false]

/-- Values that are stored under other keys are not seen. -/
theorem Table.get?_fill (t : Table) (h : ∀ p ∈ stores, ¬ p.1.SameKey k) :
    (t.fill stores).get? (MapKey.ofValue k) = t.get? (MapKey.ofValue k) := by
  induction stores generalizing t with
  | nil => rfl
  | cons p stores ih =>
    have hp := h p List.mem_cons_self
    show (Table.fill (t.put (MapKey.ofValue p.1) p.2) stores).get? _ = _
    rw [ih _ fun q hq => h q (List.mem_cons_of_mem p hq), Assoc.get?_put,
      if_neg (mt Value.sameKey_iff.2 hp)]

/-- There is one value that was stored last. -/
theorem Latest.eq_fill (h : Latest k stores x) :
    x = ((Table.fill {} stores).get? (MapKey.ofValue k)).getD .null := by
  cases h with
  | none hnone =>
    rw [Table.get?_fill _ hnone]
    rfl
  | @last before after j x hj hafter =>
    rw [List.append_cons, Table.fill_append, Table.get?_fill _ hafter, Table.fill_append]
    show x = ((Assoc.put _ (MapKey.ofValue j) x).get? _).getD _
    rw [Assoc.get?_put, if_pos (Value.sameKey_iff.1 hj)]
    rfl

end Stores

/-! ## Events -/

/-- A call of a native function, or another change, which leaves the tables alone. -/
inductive Event where
  | call (op : Native) (args : List Value)
  | change

/-- What an event stores in a table, and under which key. -/
def Event.stores (t : TableRef) : Event → List (Value × Value)
  | .call (.map u .store) [key, value] => if u = t then [(key, value)] else []
  | _ => []

namespace World

inductive Step (w : World) : Event → World → Prop where
  | call (op : Native) (args : List Value) : Step w (.call op args) (op.invoke args w).2
  | change {w' : World} : w'.heap.tables = w.heap.tables → Step w .change w'

/-- One event after the other. -/
inductive Runs : World → List Event → World → Prop where
  | nil (w : World) : Runs w [] w
  | cons {u v w : World} {e : Event} {es : List Event} : u.Step e v → Runs v es w →
      Runs u (e :: es) w

/-- A table is filled with some values, and tables that are there stay there. -/
structure Filled (w : World) (t : TableRef) (stores : List (Value × Value)) (w' : World) : Prop where
  table : w'.heap.table t = (w.heap.table t).fill stores
  size : w.heap.tables.size ≤ w'.heap.tables.size

variable {w w' : World} {t u : TableRef}

theorem filled_of_tables (h : w'.heap.tables = w.heap.tables) : w.Filled t [] w' := by
  refine ⟨?_, Nat.le_of_eq (congrArg Array.size h.symm)⟩
  unfold Heap.table
  rw [h]
  rfl

theorem tables_finish (r : Except Fault Product) (w : World) :
    (w.finish r).2.heap.tables = w.heap.tables := by
  cases r with
  | error f => rfl
  | ok p => cases p <;> rfl

end World

theorem ListMethod.tables_apply (r : ListRef) (m : ListMethod) (args : List Value) (h : Heap) :
    (m.apply r args h).2.tables = h.tables := by
  unfold ListMethod.apply
  split <;> rfl

/-- A call of a map's function stores in the table of that map, if it stores anything. -/
theorem MapMethod.filled_apply (u : TableRef) (m : MapMethod) (args : List Value) (w : World)
    {t : TableRef} (ht : t.index < w.heap.tables.size) :
    w.Filled t (Event.stores t (.call (.map u m) args)) (w.onHeap (m.apply u args)).2 := by
  have hmodify : ∀ f : Table → Table, ∀ stores : List (Value × Value),
      (∀ table : Table, f table = table.fill stores) →
      w.Filled t (if u = t then stores else []) { w with heap := w.heap.modifyTable u f } := by
    intro f stores hf
    refine ⟨?_, Nat.le_of_eq Array.size_modify.symm⟩
    show (w.heap.modifyTable u f).table t = _
    rw [Heap.table_modifyTable]
    by_cases hut : u = t
    · rw [if_pos ⟨hut, hut ▸ ht⟩, if_pos hut, hf]
    · rw [if_neg fun h => hut h.1, if_neg hut]
      rfl
  have hread : w.Filled t [] { w with heap := w.heap.modifyTable u fun table => table } := by
    have h := hmodify (fun table => table) [] fun _ => rfl
    rwa [ite_self] at h
  cases m with
  | contains | lookup =>
    rcases args with _ | ⟨key, _ | ⟨key', rest⟩⟩
    · exact World.filled_of_tables rfl
    · exact hread
    · exact World.filled_of_tables rfl
  | store =>
    rcases args with _ | ⟨key, _ | ⟨value, _ | ⟨value', rest⟩⟩⟩
    · exact World.filled_of_tables rfl
    · exact World.filled_of_tables rfl
    · exact hmodify (fun table => table.put (MapKey.ofValue key) value) [(key, value)] fun _ => rfl
    · exact World.filled_of_tables rfl

/-- What a call of a native function stores in a table that is there. -/
theorem Native.filled_invoke (op : Native) (args : List Value) (w : World) {t : TableRef}
    (ht : t.index < w.heap.tables.size) :
    w.Filled t (Event.stores t (.call op args)) (op.invoke args w).2 := by
  cases op with
  | text owner m => exact World.filled_of_tables (World.tables_finish _ w)
  | list owner m => exact World.filled_of_tables (m.tables_apply owner args w.heap)
  | map u m => exact m.filled_apply u args w ht
  | math f => exact World.filled_of_tables rfl
  | global f =>
    show w.Filled t [] (f.invoke args w).2
    unfold GlobalFunction.invoke
    split
    · exact World.filled_of_tables rfl
    · exact World.filled_of_tables rfl
    · exact World.filled_of_tables (World.tables_finish _ _)
    · exact World.filled_of_tables rfl
    · exact World.filled_of_tables rfl
    · exact World.filled_of_tables rfl
    · exact World.filled_of_tables (World.tables_finish _ w)
    · exact World.filled_of_tables rfl
    · refine ⟨w.heap.table_newTable t, ?_⟩
      show w.heap.tables.size ≤ (w.heap.tables.push {}).size
      rw [Array.size_push]
      exact Nat.le_succ _
    · exact World.filled_of_tables rfl

namespace World

variable {w w' : World} {t : TableRef} {e : Event} {es : List Event}

/-- An event adds to a table what it stores there, and nothing else. -/
theorem Step.filled (h : w.Step e w') (ht : t.index < w.heap.tables.size) :
    w.Filled t (e.stores t) w' := by
  cases h with
  | call op args => exact op.filled_invoke args w ht
  | change h => exact filled_of_tables h

/-- At the end of a history a table is filled with all that was stored in it. -/
theorem Runs.filled (h : w.Runs es w') (ht : t.index < w.heap.tables.size) :
    w.Filled t (es.flatMap (Event.stores t)) w' := by
  induction h with
  | nil w => exact ⟨rfl, Nat.le_refl _⟩
  | cons hstep _ ih =>
    obtain ⟨htable, hsize⟩ := hstep.filled ht
    obtain ⟨htable', hsize'⟩ := ih (Nat.lt_of_lt_of_le ht hsize)
    refine ⟨?_, Nat.le_trans hsize hsize'⟩
    rw [htable', htable, List.flatMap_cons, Table.fill_append]

end World

/-! ## Maps -/

/-- The functions of `v` are those of a map with the table `t`. -/
def Heap.IsMap (h : Heap) (v : Value) (t : TableRef) : Prop :=
  ∀ m : MapMethod, h.property? v m.name = some (.function (.native (.map t m)))

/-- A map is made with a table of its own, which is empty. -/
theorem Heap.isMap_newMap (h : Heap) :
    h.newMap.2.IsMap h.newMap.1 ⟨h.tables.size⟩ ∧ h.newMap.2.tables = h.tables.push {} := by
  refine ⟨fun m => ?_, rfl⟩
  have hbag : h.newMap.2.bag? h.newMap.1 = some ⟨(Heap.nameProperty, (h.newTable.2.newText "map").1) ::
      MapMethod.all.map fun m => (m.name, .function (.native (.map ⟨h.tables.size⟩ m)))⟩ := by
    show some ((h.objects.push _)[h.objects.size]?.getD _) = _
    rw [Array.getElem?_push_size]
    rfl
  unfold Heap.property?
  rw [hbag]
  cases m <;> rfl

theorem Native.invoke_map (w : World) : (Native.global .map).invoke [] w =
    (.ok w.heap.newMap.1, { w with heap := w.heap.newMap.2 }) := rfl

/-- A change that leaves the entries as they are leaves the heap as it is. -/
theorem Heap.modifyTable_id (t : TableRef) (h : Heap) : h.modifyTable t (fun table => table) = h := by
  have htables : h.tables.modify t.index (fun table => table) = h.tables := by
    refine Array.ext Array.size_modify fun i hi hi' => ?_
    rw [Array.getElem_modify]
    split <;> rfl
  unfold Heap.modifyTable
  rw [htables]

theorem Native.invoke_contains (t : TableRef) (k : Value) (w : World) :
    (Native.map t .contains).invoke [k] w =
      (.ok (.bool ((w.heap.table t).contains (MapKey.ofValue k))), w) := by
  have hheap : w.heap.modifyTable t (MapCall.contains k).after = w.heap := w.heap.modifyTable_id t
  show (_, { w with heap := w.heap.modifyTable t (MapCall.contains k).after }) = _
  rw [hheap]
  rfl

theorem Native.invoke_lookup (t : TableRef) (k : Value) (w : World) :
    (Native.map t .lookup).invoke [k] w =
      (.ok (((w.heap.table t).get? (MapKey.ofValue k)).getD .null), w) := by
  have hheap : w.heap.modifyTable t (MapCall.lookup k).after = w.heap := w.heap.modifyTable_id t
  show (_, { w with heap := w.heap.modifyTable t (MapCall.lookup k).after }) = _
  rw [hheap]
  rfl

/-- Calls of other maps store nothing in a table. -/
theorem Event.stores_of_ne {t u : TableRef} (h : u ≠ t) (m : MapMethod) (args : List Value) :
    Event.stores t (.call (.map u m) args) = [] := by
  unfold Event.stores
  split
  · rename_i heq
    cases heq
    exact if_neg h
  · rfl

/-- The table of a new map is filled with all that is stored in it from then on. -/
theorem World.Runs.table_newMap {w w' : World} {es : List Event}
    (h : Runs { w with heap := w.heap.newMap.2 } es w') :
    w'.heap.table ⟨w.heap.tables.size⟩ =
        Table.fill {} (es.flatMap (Event.stores ⟨w.heap.tables.size⟩)) ∧
      w.heap.tables.size < w'.heap.tables.size := by
  have htables := w.heap.isMap_newMap.2
  have hnew : w.heap.tables.size < w.heap.newMap.2.tables.size := by
    rw [htables, Array.size_push]
    exact Nat.lt_succ_self _
  have hempty : w.heap.newMap.2.table ⟨w.heap.tables.size⟩ = {} := by
    unfold Heap.table
    rw [htables, Array.getElem?_push_size]
    rfl
  obtain ⟨htable, hsize⟩ := h.filled (t := ⟨w.heap.tables.size⟩) hnew
  exact ⟨htable.trans (congrArg (Table.fill · _) hempty), Nat.lt_of_lt_of_le hnew hsize⟩

/-- **The last value that was stored counts.**  A call of `map` makes a map of its own.  Behind any
history, in which whatever is called and changed, the map has a key if something was stored under
the same key; it answers what was stored last, or null; and a value that is stored is answered.  Calls
of other maps leave its entries alone, and a map that is made later is another one.  What is the same
key does not depend on the world; it is an equivalence, which no integer and no float ever meet in. -/
theorem map_last_write (w : World) :
    Equivalence Value.SameKey ∧ (∀ n x, ¬ Value.SameKey (.int n) (.float x)) ∧
    ∃ v t w₁, (Native.global .map).invoke [] w = (.ok v, w₁) ∧ w₁.heap.IsMap v t ∧
      ∀ es w₂, w₁.Runs es w₂ →
        (∀ k, ∃ b, (Native.map t .contains).invoke [k] w₂ = (.ok (.bool b), w₂) ∧
          (b = true ↔ ∃ p ∈ es.flatMap (Event.stores t), p.1.SameKey k)) ∧
        (∀ k, ∃ x, (Native.map t .lookup).invoke [k] w₂ = (.ok x, w₂) ∧
          Latest k (es.flatMap (Event.stores t)) x) ∧
        (∀ k x, ((Native.map t .store).invoke [k, x] w₂).1 = .ok x) ∧
        (∀ u m args, u ≠ t →
          ((Native.map u m).invoke args w₂).2.heap.table t = w₂.heap.table t) ∧
        ∃ v' u w₃, (Native.global .map).invoke [] w₂ = (.ok v', w₃) ∧ w₃.heap.IsMap v' u ∧ u ≠ t := by
  refine ⟨Value.sameKey_equivalence, Value.not_sameKey_int_float, _, _, _, Native.invoke_map w,
    w.heap.isMap_newMap.1, fun es w₂ hruns => ?_⟩
  obtain ⟨htable, hsize⟩ := hruns.table_newMap
  refine ⟨fun k => ?_, fun k => ?_, fun k x => rfl, fun u m args hut => ?_, ?_⟩
  · refine ⟨_, Native.invoke_contains _ k w₂, ?_⟩
    rw [htable]
    exact (latest_fill k _).1
  · refine ⟨_, Native.invoke_lookup _ k w₂, ?_⟩
    rw [htable]
    exact (latest_fill k _).2
  · have hfilled := (Native.map u m).filled_invoke args w₂ (t := ⟨w.heap.tables.size⟩) hsize
    rw [Event.stores_of_ne hut] at hfilled
    exact hfilled.table
  · refine ⟨_, _, _, Native.invoke_map w₂, w₂.heap.isMap_newMap.1, fun heq => ?_⟩
    exact Nat.ne_of_gt hsize (TableRef.mk.inj heq)

/-- A list stays the key that it was when something is pushed to it, another list is another key, and
all that are not a number are one. -/
theorem map_last_write_pushed :
    let w : World := { heap := { lists := #[{}, {}] } }
    ∃ v t w₁ w₂, (Native.global .map).invoke [] w = (.ok v, w₁) ∧ w₁.heap.IsMap v t ∧
      w₁.Runs
        [.call (.map t .store) [.list ⟨0⟩, .int 1], .call (.list ⟨0⟩ .push) [.null],
          .call (.map t .store) [.float Double.nan, .int 2],
          .call (.map t .store) [.list ⟨1⟩, .int 3]] w₂ ∧
      (Native.map t .lookup).invoke [.list ⟨0⟩] w₂ = (.ok (.int 1), w₂) ∧
      (Native.map t .lookup).invoke [.float Double.nan.negate] w₂ = (.ok (.int 2), w₂) ∧
      (Native.map t .lookup).invoke [.int 1] w₂ = (.ok .null, w₂) := by
  obtain ⟨-, -, v, t, w₁, hmap, hfunctions, h⟩ :=
    map_last_write { heap := { lists := #[{}, {}] } }
  obtain ⟨w₂, hruns⟩ : ∃ w₂, w₁.Runs
      [.call (.map t .store) [.list ⟨0⟩, .int 1], .call (.list ⟨0⟩ .push) [.null],
        .call (.map t .store) [.float Double.nan, .int 2],
        .call (.map t .store) [.list ⟨1⟩, .int 3]] w₂ :=
    ⟨_, .cons (.call _ _) (.cons (.call _ _) (.cons (.call _ _) (.cons (.call _ _) (.nil _))))⟩
  obtain ⟨-, hlookup, -⟩ := h _ w₂ hruns
  have hstores : [Event.call (.map t .store) [.list ⟨0⟩, .int 1], .call (.list ⟨0⟩ .push) [.null],
        .call (.map t .store) [.float Double.nan, .int 2],
        .call (.map t .store) [.list ⟨1⟩, .int 3]].flatMap (Event.stores t) =
      [(.list ⟨0⟩, .int 1), (.float Double.nan, .int 2), (.list ⟨1⟩, .int 3)] := by
    simp [Event.stores]
  rw [hstores] at hlookup
  refine ⟨v, t, w₁, w₂, hmap, hfunctions, hruns, ?_, ?_, ?_⟩
  · obtain ⟨x, hx, hlast⟩ := hlookup (.list ⟨0⟩)
    exact hx.trans (by rw [hlast.eq_fill]; rfl)
  · obtain ⟨x, hx, hlast⟩ := hlookup (.float Double.nan.negate)
    exact hx.trans (by rw [hlast.eq_fill]; rfl)
  · obtain ⟨x, hx, hlast⟩ := hlookup (.int 1)
    exact hx.trans (by rw [hlast.eq_fill]; rfl)

end SmallScript
