/-
  The heap: what values with an identity refer to.

  Strings, lists, objects and the tables of maps are numbered in the order in which they are made,
  and none is ever taken away.  A value that has properties has a bag of them.  The bag of a string
  or of a list holds its methods until a property is set; only then is there anything to keep, so
  looking at a property never changes the heap.

  `items`, `table` and `bag?` are the views; all else is told through them.
-/
import SmallScript.Fault
import SmallScript.Value

namespace SmallScript

/-! ## Bags -/

namespace Bag

/-- A bag with one property more.  A name is added once. -/
def add (b : Bag) (name : String) (v : Value) : Except Fault Bag :=
  if b.contains name then .error (.duplicateProperty name) else .ok (b.put name v)

theorem add_of_contains {b : Bag} {name : String} {v : Value} (h : b.contains name) :
    add b name v = .error (.duplicateProperty name) :=
  if_pos h

theorem add_of_not_contains {b : Bag} {name : String} {v : Value} (h : ¬ b.contains name) :
    add b name v = .ok ⟨(name, v) :: b.entries⟩ := by
  unfold add Assoc.put
  rw [if_neg h, if_neg h]

/-- A property that was added has the new value, or the one it had. -/
theorem get?_add {b b' : Bag} {x y : String} {v p : Value} (h : add b x v = .ok b')
    (hp : b'.get? y = some p) : p = v ∨ b.get? y = some p := by
  unfold add at h
  split at h
  · cases h
  · cases h
    rw [Assoc.get?_put] at hp
    split at hp
    · exact Or.inl (Option.some.inj hp).symm
    · exact Or.inr hp

/-- A bag with another value for one of its properties. -/
def set (b : Bag) (name : String) (v : Value) : Except Fault Bag :=
  if b.contains name then .ok (b.put name v) else .error (.missingProperty name)

/-- A property that was set has the new value, or the one it had. -/
theorem get?_set {b b' : Bag} {x y : String} {v p : Value} (h : set b x v = .ok b')
    (hp : b'.get? y = some p) : p = v ∨ b.get? y = some p := by
  unfold set at h
  split at h
  · cases h
    rw [Assoc.get?_put] at hp
    split at hp
    · exact Or.inl (Option.some.inj hp).symm
    · exact Or.inr hp
  · cases h

/-- Setting a property brings in no name and takes none away. -/
theorem keys_set {b b' : Bag} {x : String} {v : Value} (h : set b x v = .ok b') :
    b'.keys = b.keys := by
  unfold set at h
  split at h
  · rename_i hx
    cases h
    exact Assoc.keys_put hx v
  · cases h

def names (b : Bag) : List String := sortedNames b.keys

end Bag

/-- The methods of a string, which are its properties. -/
def Text.methods (t : Text) : Bag :=
  ⟨TextMethod.all.map fun m => (m.name, .function (.native (.text t m)))⟩

/-- The methods of a list, which are its properties. -/
def ListRef.methods (r : ListRef) : Bag :=
  ⟨ListMethod.all.map fun m => (m.name, .function (.native (.list r m)))⟩

/-! ## Tables -/

/-- What a map knows of a key: the content of what has content, the identity of everything else.
All that are not a number are one key; the two zeros are two. -/
inductive MapKey where
  | null
  | bool (b : Bool)
  | int (n : Int64)
  | float (x : Double)
  | text (content : String)
  | list (r : ListRef)
  | object (r : ObjectRef)
  | closure (id : Nat)
  | native (op : Native)
  | host (f : HostFunction)
deriving DecidableEq, Repr, Inhabited

def MapKey.ofValue : Value → MapKey
  | .null => null
  | .bool b => bool b
  | .int n => int n
  | .float x => float (if x.isNaN then Double.nan else x)
  | .text t => text t.content
  | .list r => list r
  | .object r => object r
  | .function (.closure c) => closure c.id
  | .function (.native op) => native op
  | .function (.host f) => host f

/-- What a map holds. -/
abbrev Table : Type := Assoc MapKey Value

/-! ## The heap -/

/-- A list: its items, and its properties if one of them was set. -/
structure ListCell where
  items : Array Value := #[]
  changed : Option Bag := none

instance : Inhabited ListCell := ⟨{}⟩

structure Heap where
  /-- For each string its properties if one of them was set. -/
  texts : Array (Option Bag) := #[]
  lists : Array ListCell := #[]
  objects : Array Bag := #[]
  tables : Array Table := #[]
  /-- How many functions of scripts there are. -/
  closures : Nat := 0

namespace Heap

instance : Inhabited Heap := ⟨{}⟩

/-! ### Making values -/

/-- A string of its own. -/
def newText (content : String) (h : Heap) : Value × Heap :=
  let id := h.texts.size
  (.text ⟨id, content⟩, { h with texts := h.texts.push none })

def newList (items : Array Value) (h : Heap) : ListRef × Heap :=
  let index := h.lists.size
  (⟨index⟩, { h with lists := h.lists.push { items } })

def newObject (properties : Bag) (h : Heap) : ObjectRef × Heap :=
  let index := h.objects.size
  (⟨index⟩, { h with objects := h.objects.push properties })

/-- The property that holds the name of an object. -/
def nameProperty : String := "__name"

/-- An object with a name, and with members of names that differ. -/
def newNamed (name : String) (members : List (String × Value)) (h : Heap) : Value × Heap :=
  let (text, h) := h.newText name
  let (r, h) := h.newObject ⟨(nameProperty, text) :: members⟩
  (.object r, h)

def newTable (h : Heap) : TableRef × Heap :=
  let index := h.tables.size
  (⟨index⟩, { h with tables := h.tables.push {} })

/-- A function of a script; each evaluation of its definition makes another one. -/
def newClosure (name : String) (scope : Scope) (decl : FnDecl) (h : Heap) : Value × Heap :=
  let id := h.closures
  (.function (.closure ⟨id, name, scope, decl⟩), { h with closures := id + 1 })

/-! ### Lists -/

def items (h : Heap) (r : ListRef) : Array Value :=
  match h.lists[r.index]? with
  | some cell => cell.items
  | none => #[]

/-- A list that is not there has no items. -/
theorem items_of_size_le {h : Heap} {r : ListRef} (hr : h.lists.size ≤ r.index) :
    h.items r = #[] := by
  unfold items
  rw [Array.getElem?_eq_none hr]

def modifyItems (r : ListRef) (f : Array Value → Array Value) (h : Heap) : Heap :=
  { h with lists := h.lists.modify r.index fun cell => { cell with items := f cell.items } }

/-- A change of one list is seen in that list, if there is one, and in no other. -/
theorem items_modifyItems (h : Heap) (r q : ListRef) (f : Array Value → Array Value) :
    (h.modifyItems r f).items q =
      if r = q ∧ r.index < h.lists.size then f (h.items q) else h.items q := by
  obtain ⟨i⟩ := r
  obtain ⟨j⟩ := q
  unfold modifyItems items
  simp only [Array.getElem?_modify, ListRef.mk.injEq]
  by_cases hij : i = j
  · subst hij
    by_cases hi : i < h.lists.size
    · simp [hi]
    · simp [hi]
  · simp [hij]

/-- A new list holds its items, and the other lists hold theirs. -/
theorem items_newList (h : Heap) (r : ListRef) (items : Array Value) :
    (h.newList items).2.items r = if r.index = h.lists.size then items else h.items r := by
  by_cases hr : r.index = h.lists.size
  · simp [newList, Heap.items, hr]
  · simp [newList, Heap.items, Array.getElem?_push, hr]

/-! ### Tables -/

def table (h : Heap) (t : TableRef) : Table := h.tables[t.index]?.getD {}

def modifyTable (t : TableRef) (f : Table → Table) (h : Heap) : Heap :=
  { h with tables := h.tables.modify t.index f }

/-- A new table is empty, as one that is not there. -/
@[simp] theorem table_newTable (h : Heap) (t : TableRef) : h.newTable.2.table t = h.table t := by
  by_cases ht : t.index = h.tables.size
  · simp [newTable, table, ht]
  · simp [newTable, table, Array.getElem?_push, ht]

/-- A change of one table is seen in that table, if there is one, and in no other. -/
theorem table_modifyTable (h : Heap) (t u : TableRef) (f : Table → Table) :
    (h.modifyTable t f).table u =
      if t = u ∧ t.index < h.tables.size then f (h.table u) else h.table u := by
  obtain ⟨i⟩ := t
  obtain ⟨j⟩ := u
  unfold modifyTable table
  simp only [Array.getElem?_modify, TableRef.mk.injEq]
  by_cases hij : i = j
  · subst hij
    by_cases hi : i < h.tables.size
    · simp [hi]
    · simp [hi]
  · simp [hij]

/-! ### Properties -/

/-- The properties of a value, if it is of a kind that has some. -/
def bag? (h : Heap) : Value → Option Bag
  | .text t => some (h.texts[t.id]?.join.getD t.methods)
  | .list r => some ((h.lists[r.index]?.bind ListCell.changed).getD r.methods)
  | .object r => some (h.objects[r.index]?.getD {})
  | .null | .bool _ | .int _ | .float _ | .function _ => none

def putBag (v : Value) (b : Bag) (h : Heap) : Heap :=
  match v with
  | .text t => { h with texts := h.texts.modify t.id fun _ => some b }
  | .list r =>
    { h with lists := h.lists.modify r.index fun cell => { cell with changed := some b } }
  | .object r => { h with objects := h.objects.modify r.index fun _ => b }
  | .null | .bool _ | .int _ | .float _ | .function _ => h

/-- A bag that is put somewhere is seen there, and nowhere else. -/
theorem bag?_putBag (h : Heap) (o p : Value) (b : Bag) :
    (h.putBag o b).bag? p = h.bag? p ∨ (h.putBag o b).bag? p = some b := by
  cases o with
  | text t =>
    cases p with
    | text u =>
      by_cases htu : t.id = u.id
      · cases hu : h.texts[u.id]? with
        | none => simp [putBag, bag?, Array.getElem?_modify, htu, hu]
        | some c => simp [putBag, bag?, Array.getElem?_modify, htu, hu]
      · simp [putBag, bag?, Array.getElem?_modify, htu]
    | _ => exact Or.inl rfl
  | list r =>
    cases p with
    | list q =>
      by_cases hrq : r.index = q.index
      · cases hq : h.lists[q.index]? with
        | none => simp [putBag, bag?, Array.getElem?_modify, hrq, hq]
        | some cell => simp [putBag, bag?, Array.getElem?_modify, hrq, hq]
      · simp [putBag, bag?, Array.getElem?_modify, hrq]
    | _ => exact Or.inl rfl
  | object r =>
    cases p with
    | object q =>
      by_cases hrq : r.index = q.index
      · cases hq : h.objects[q.index]? with
        | none => simp [putBag, bag?, Array.getElem?_modify, hrq, hq]
        | some c => simp [putBag, bag?, Array.getElem?_modify, hrq, hq]
      · simp [putBag, bag?, Array.getElem?_modify, hrq]
    | _ => exact Or.inl rfl
  | _ => exact Or.inl rfl

@[simp] theorem items_putBag (h : Heap) (o : Value) (b : Bag) (q : ListRef) :
    (h.putBag o b).items q = h.items q := by
  cases o with
  | list r =>
    by_cases hrq : r.index = q.index
    · cases hq : h.lists[q.index]? with
      | none => simp [putBag, items, Array.getElem?_modify, hrq, hq]
      | some cell => simp [putBag, items, Array.getElem?_modify, hrq, hq]
    · simp [putBag, items, Array.getElem?_modify, hrq]
  | _ => rfl

@[simp] theorem table_putBag (h : Heap) (o : Value) (b : Bag) (t : TableRef) :
    (h.putBag o b).table t = h.table t := by
  cases o <;> rfl

/-- A string that is not there has the methods of a string, as a new one has. -/
@[simp] theorem bag?_newText (h : Heap) (content : String) (p : Value) :
    (h.newText content).2.bag? p = h.bag? p := by
  cases p with
  | text t =>
    by_cases ht : t.id = h.texts.size
    · simp [newText, bag?, ht]
    · simp [newText, bag?, Array.getElem?_push, ht]
  | _ => rfl

@[simp] theorem bag?_newList (h : Heap) (items : Array Value) (p : Value) :
    (h.newList items).2.bag? p = h.bag? p := by
  cases p with
  | list r =>
    by_cases hr : r.index = h.lists.size
    · simp [newList, bag?, hr]
    · simp [newList, bag?, Array.getElem?_push, hr]
  | _ => rfl

theorem bag?_newObject (h : Heap) (b : Bag) (p : Value) :
    (h.newObject b).2.bag? p = h.bag? p ∨ (h.newObject b).2.bag? p = some b := by
  cases p with
  | object r =>
    by_cases hr : r.index = h.objects.size
    · simp [newObject, bag?, hr]
    · simp [newObject, bag?, Array.getElem?_push, hr]
  | _ => exact Or.inl rfl

@[simp] theorem bag?_modifyItems (h : Heap) (r : ListRef) (f : Array Value → Array Value)
    (p : Value) : (h.modifyItems r f).bag? p = h.bag? p := by
  cases p with
  | list q =>
    by_cases hrq : r.index = q.index
    · cases hq : h.lists[q.index]? with
      | none => simp [modifyItems, bag?, Array.getElem?_modify, hrq, hq]
      | some cell => simp [modifyItems, bag?, Array.getElem?_modify, hrq, hq]
    · simp [modifyItems, bag?, Array.getElem?_modify, hrq]
  | _ => rfl

def property? (h : Heap) (v : Value) (name : String) : Option Value :=
  (h.bag? v).bind fun b => b.get? name

/-- The names of a value's properties in alphabetical order. -/
def propertyNames? (h : Heap) (v : Value) : Option (List String) := (h.bag? v).map Bag.names

/-! ### Growth -/

/-- In `k` there is all that there is in `h`. -/
structure Grows (h k : Heap) : Prop where
  texts : h.texts.size ≤ k.texts.size
  lists : h.lists.size ≤ k.lists.size
  objects : h.objects.size ≤ k.objects.size
  tables : h.tables.size ≤ k.tables.size
  closures : h.closures ≤ k.closures

namespace Grows

theorem refl (h : Heap) : h.Grows h :=
  ⟨Nat.le_refl _, Nat.le_refl _, Nat.le_refl _, Nat.le_refl _, Nat.le_refl _⟩

theorem trans {h k l : Heap} (hk : h.Grows k) (kl : k.Grows l) : h.Grows l :=
  ⟨Nat.le_trans hk.texts kl.texts, Nat.le_trans hk.lists kl.lists,
    Nat.le_trans hk.objects kl.objects, Nat.le_trans hk.tables kl.tables,
    Nat.le_trans hk.closures kl.closures⟩

variable (h : Heap)

theorem newText (content : String) : h.Grows (h.newText content).2 :=
  { refl h with texts := by simp [Heap.newText] }

theorem newList (items : Array Value) : h.Grows (h.newList items).2 :=
  { refl h with lists := by simp [Heap.newList] }

theorem newObject (b : Bag) : h.Grows (h.newObject b).2 :=
  { refl h with objects := by simp [Heap.newObject] }

theorem newTable : h.Grows h.newTable.2 := { refl h with tables := by simp [Heap.newTable] }

theorem newClosure (name : String) (scope : Scope) (decl : FnDecl) :
    h.Grows (h.newClosure name scope decl).2 :=
  { refl h with closures := Nat.le_succ _ }

theorem modifyItems (r : ListRef) (f : Array Value → Array Value) : h.Grows (h.modifyItems r f) :=
  { refl h with lists := by simp [Heap.modifyItems] }

theorem modifyTable (t : TableRef) (f : Table → Table) : h.Grows (h.modifyTable t f) :=
  { refl h with tables := by simp [Heap.modifyTable] }

/-- A bag that is put somewhere takes no place in the heap. -/
theorem putBag (o : Value) (b : Bag) : h.Grows (h.putBag o b) := by
  cases o with
  | text t => exact { refl h with texts := by simp [Heap.putBag] }
  | list r => exact { refl h with lists := by simp [Heap.putBag] }
  | object r => exact { refl h with objects := by simp [Heap.putBag] }
  | _ => exact refl h

end Grows

end Heap

end SmallScript
