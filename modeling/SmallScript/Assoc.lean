/-
  Finite maps as lists of pairs.

  A map is seen through `get?`; `put` is the only way to change it.  A key that is new goes to the
  front, a key that is there keeps its place, so every key stands in the list once.
-/

namespace SmallScript

/-- A finite map. -/
structure Assoc (κ α : Type) where
  entries : List (κ × α) := []
deriving Repr, DecidableEq

namespace Assoc

variable {κ α : Type} [DecidableEq κ]

instance : Inhabited (Assoc κ α) := ⟨{}⟩

/-- The first value under `k` in a list of pairs. -/
def find? (k : κ) : List (κ × α) → Option α
  | [] => none
  | (j, x) :: rest => if j = k then some x else find? k rest

/-- A list of pairs with another value under `k`, if `k` is there. -/
def replace (k : κ) (y : α) : List (κ × α) → List (κ × α)
  | [] => []
  | (j, x) :: rest => if j = k then (j, y) :: rest else (j, x) :: replace k y rest

/-- The value under a key. -/
def get? (m : Assoc κ α) (k : κ) : Option α := find? k m.entries

def contains (m : Assoc κ α) (k : κ) : Bool := (m.get? k).isSome

/-- The map with a value under a key. -/
def put (m : Assoc κ α) (k : κ) (x : α) : Assoc κ α :=
  if m.contains k then ⟨replace k x m.entries⟩ else ⟨(k, x) :: m.entries⟩

def keys (m : Assoc κ α) : List κ := m.entries.map Prod.fst

def size (m : Assoc κ α) : Nat := m.entries.length

theorem find?_replace (k j : κ) (y : α) (l : List (κ × α)) :
    find? j (replace k y l) =
      if k = j then (find? j l).map (fun _ => y) else find? j l := by
  induction l with
  | nil => simp [replace, find?]
  | cons p rest ih =>
    obtain ⟨i, x⟩ := p
    by_cases hik : i = k <;> by_cases hij : i = j <;> by_cases hkj : k = j <;>
      simp_all [replace, find?]

@[simp] theorem get?_empty (k : κ) : ({} : Assoc κ α).get? k = none := rfl

/-- What was put is there, and nothing else changes. -/
theorem get?_put (m : Assoc κ α) (k j : κ) (x : α) :
    (m.put k x).get? j = if k = j then some x else m.get? j := by
  unfold put contains get?
  split
  · rename_i h
    rw [find?_replace]
    by_cases hkj : k = j
    · subst hkj
      obtain ⟨y, hy⟩ := Option.isSome_iff_exists.1 h
      simp [hy]
    · simp [hkj]
  · simp [find?]

/-- What is found under a key stands in the list with it. -/
theorem mem_of_get? {m : Assoc κ α} {k : κ} {x : α} (h : m.get? k = some x) :
    (k, x) ∈ m.entries := by
  obtain ⟨l⟩ := m
  change find? k l = some x at h
  induction l with
  | nil => cases h
  | cons p rest ih =>
    obtain ⟨j, y⟩ := p
    unfold find? at h
    by_cases hjk : j = k
    · rw [if_pos hjk] at h
      cases h
      rw [hjk]
      exact List.mem_cons_self
    · rw [if_neg hjk] at h
      exact List.mem_cons_of_mem _ (ih h)

/-- Another value under a key leaves the keys as they are. -/
theorem map_fst_replace (k : κ) (y : α) (l : List (κ × α)) :
    (replace k y l).map Prod.fst = l.map Prod.fst := by
  induction l with
  | nil => rfl
  | cons p rest ih =>
    obtain ⟨j, x⟩ := p
    unfold replace
    split
    · rfl
    · rw [List.map_cons, List.map_cons, ih]

theorem keys_put {m : Assoc κ α} {k : κ} (h : m.contains k = true) (x : α) :
    (m.put k x).keys = m.keys := by
  unfold put
  rw [if_pos h]
  exact map_fst_replace k x m.entries

/-- The keys as seen through lookups. -/
theorem mem_keys_iff (m : Assoc κ α) (k : κ) : k ∈ m.keys ↔ (m.get? k).isSome := by
  obtain ⟨l⟩ := m
  unfold keys get?
  induction l with
  | nil => simp [find?]
  | cons p rest ih =>
    obtain ⟨i, x⟩ := p
    by_cases hik : i = k
    · simp [find?, hik]
    · have : k ≠ i := fun h => hik h.symm
      simp [find?, hik, this] at ih ⊢
      exact ih

theorem contains_iff (m : Assoc κ α) (k : κ) : m.contains k ↔ k ∈ m.keys :=
  (m.mem_keys_iff k).symm

/-- Where each key stands once, what stands with it is found. -/
theorem get?_of_mem {m : Assoc κ α} (hm : m.keys.Nodup) {k : κ} {x : α}
    (h : (k, x) ∈ m.entries) : m.get? k = some x := by
  obtain ⟨l⟩ := m
  change find? k l = some x
  induction l with
  | nil => exact absurd h List.not_mem_nil
  | cons p rest ih =>
    obtain ⟨j, y⟩ := p
    obtain ⟨hj, hrest⟩ := List.nodup_cons.1 hm
    unfold find?
    rcases List.mem_cons.1 h with heq | hmem
    · cases heq
      exact if_pos rfl
    · have hne : j ≠ k := by
        rintro rfl
        exact hj (List.mem_map.2 ⟨_, hmem, rfl⟩)
      rw [if_neg hne]
      exact ih hrest hmem

end Assoc

/-- Names in alphabetical order. -/
def sortedNames (names : List String) : List String := names.mergeSort fun a b => decide (a ≤ b)

end SmallScript
