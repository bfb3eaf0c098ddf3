/-
  Data and how they are printed.

  Data are what is made of null, truth values, integers and lists, and nothing else; a list in the
  heap holds data only if it does not come up again inside itself.  What a value holds is settled
  by the lists that are reached from it (`Heap.HoldsIn.congr`), and it is printed as its data are
  written (`Heap.print_of_holds`): no list is met twice on the way down, because the data of a list
  are not found inside themselves.
-/
import SmallScript.Proofs.Evaluation.Correspondence

namespace SmallScript

inductive Data where
  | null
  | bool (b : Bool)
  | int (n : Int64)
  | list (items : List Data)

namespace Data

mutual

/-- How many lists are inside each other. -/
def depth : Data → Nat
  | .null | .bool _ | .int _ => 0
  | .list items => deepest items + 1

def deepest : List Data → Nat
  | [] => 0
  | d :: ds => max d.depth (deepest ds)

end

mutual

/-- How data are written. -/
def text : Data → String
  | .null => "null"
  | .bool b => if b then "true" else "false"
  | .int n => toString n.toInt
  | .list items => "[" ++ String.intercalate "," (texts items) ++ "]"

def texts : List Data → List String
  | [] => []
  | d :: ds => d.text :: texts ds

end

end Data

namespace Heap

mutual

/-- A value holds data, in lists of some kind only. -/
def HoldsIn (h : Heap) (p : ListRef → Prop) : Value → Data → Prop
  | .null, .null => True
  | .bool b, .bool c => b = c
  | .int n, .int m => n = m
  | .list r, .list ds => p r ∧ h.HoldAllIn p (h.items r).toList ds
  | _, _ => False

/-- Values hold data one by one. -/
def HoldAllIn (h : Heap) (p : ListRef → Prop) : List Value → List Data → Prop
  | [], [] => True
  | v :: vs, d :: ds => h.HoldsIn p v d ∧ h.HoldAllIn p vs ds
  | _, _ => False

end

/-- A value holds data. -/
def Holds (h : Heap) (v : Value) (d : Data) : Prop := h.HoldsIn (fun _ => True) v d

variable {h k : Heap} {p q : ListRef → Prop} {v : Value} {vs : List Value} {d e : Data}
  {ds es : List Data}

theorem holdsIn_list_iff : h.HoldsIn p v (.list ds) ↔
    ∃ r, v = .list r ∧ p r ∧ h.HoldAllIn p (h.items r).toList ds := by
  cases v <;> simp [HoldsIn]

theorem HoldAllIn.nil_iff : h.HoldAllIn p vs [] ↔ vs = [] := by
  cases vs <;> simp [HoldAllIn]

theorem HoldAllIn.cons_iff : h.HoldAllIn p vs (d :: ds) ↔
    ∃ w ws, vs = w :: ws ∧ h.HoldsIn p w d ∧ h.HoldAllIn p ws ds := by
  cases vs <;> simp [HoldAllIn]

mutual

/-- What a value holds is settled by the lists it is held in. -/
theorem HoldsIn.congr (hpq : ∀ r, p r → q r ∧ k.items r = h.items r) :
    ∀ {d : Data} {v : Value}, h.HoldsIn p v d → k.HoldsIn q v d
  | .null, v, hv | .bool _, v, hv | .int _, v, hv => by
    cases v <;> simp_all [HoldsIn]
  | .list ds, v, hv => by
    obtain ⟨r, rfl, hr, hitems⟩ := holdsIn_list_iff.1 hv
    refine holdsIn_list_iff.2 ⟨r, rfl, (hpq r hr).1, ?_⟩
    rw [(hpq r hr).2]
    exact HoldAllIn.congr hpq hitems

theorem HoldAllIn.congr (hpq : ∀ r, p r → q r ∧ k.items r = h.items r) :
    ∀ {ds : List Data} {vs : List Value}, h.HoldAllIn p vs ds → k.HoldAllIn q vs ds
  | [], vs, hvs => HoldAllIn.nil_iff.2 (HoldAllIn.nil_iff.1 hvs)
  | d :: ds, vs, hvs => by
    obtain ⟨w, ws, rfl, hw, hws⟩ := HoldAllIn.cons_iff.1 hvs
    exact HoldAllIn.cons_iff.2 ⟨w, ws, rfl, HoldsIn.congr hpq hw, HoldAllIn.congr hpq hws⟩

end

mutual

/-- A value holds no two data. -/
theorem HoldsIn.unique : ∀ {d e : Data} {v : Value}, h.HoldsIn p v d → h.HoldsIn q v e → d = e
  | .null, e, v, hd, he | .bool _, e, v, hd, he | .int _, e, v, hd, he => by
    cases v <;> cases e <;> simp_all [HoldsIn]
  | .list ds, e, v, hd, he => by
    obtain ⟨r, rfl, -, hds⟩ := holdsIn_list_iff.1 hd
    cases e with
    | list es =>
      obtain ⟨_, ⟨⟩, -, hes⟩ := holdsIn_list_iff.1 he
      exact congrArg Data.list (HoldAllIn.unique hds hes)
    | _ => exact he.elim

theorem HoldAllIn.unique : ∀ {ds es : List Data} {vs : List Value}, h.HoldAllIn p vs ds →
    h.HoldAllIn q vs es → ds = es
  | [], es, vs, hds, hes => by
    obtain rfl := HoldAllIn.nil_iff.1 hds
    cases es with
    | nil => rfl
    | cons e es => exact hes.elim
  | d :: ds, es, vs, hds, hes => by
    obtain ⟨w, ws, rfl, hd, hds⟩ := HoldAllIn.cons_iff.1 hds
    cases es with
    | nil => exact hes.elim
    | cons e es => rw [HoldsIn.unique hd hes.1, HoldAllIn.unique hds hes.2]

end

/-! ## Printing -/

/-- While the lists `opened` are printed, data of a smaller depth are printed as they are written. -/
def Prints (h : Heap) (n : Nat) (opened : List ListRef) : Prop :=
  ∀ r ∈ opened, ∃ e, h.HoldsIn (fun _ => True) (.list r) e ∧ n < e.depth

theorem Prints.mono {m n : Nat} {opened : List ListRef} (hopened : h.Prints n opened) (hmn : m ≤ n) :
    h.Prints m opened := by
  intro r hr
  obtain ⟨e, he, hn⟩ := hopened r hr
  exact ⟨e, he, Nat.lt_of_le_of_lt hmn hn⟩

mutual

theorem printInside_of_holds : ∀ {d : Data} {v : Value} {depth : Nat} {opened : List ListRef},
    h.Holds v d → h.Prints d.depth opened → Link.Deep h.lists.size depth opened →
      h.printInside depth opened v = d.text
  | .null, v, depth, opened, hv, _, _ | .bool _, v, depth, opened, hv, _, _
  | .int _, v, depth, opened, hv, _, _ => by
    have hflat : ∀ r, v ≠ .list r := by
      rintro r rfl
      exact hv
    rw [printInside_of_not_list hflat]
    cases v <;> simp_all [Holds, HoldsIn, flatText, Data.text]
  | .list ds, v, depth, opened, hv, hopened, hdeep => by
    obtain ⟨r, rfl, -, hitems⟩ := holdsIn_list_iff.1 hv
    obtain ⟨depth, rfl⟩ := hdeep.exists_level
    have hnew : r ∉ opened := by
      intro hr
      obtain ⟨e, he, hlt⟩ := hopened r hr
      rw [← hv.unique he] at hlt
      exact Nat.lt_irrefl _ hlt
    have hprints : h.Prints (Data.deepest ds) (r :: opened) := by
      intro q hq
      rcases List.mem_cons.1 hq with rfl | hq
      · exact ⟨.list ds, hv, Nat.lt_succ_self _⟩
      · exact hopened.mono (Nat.le_succ _) q hq
    have htexts : (h.items r).toList.map (h.printInside depth (r :: opened)) = Data.texts ds := by
      by_cases hr : r.index < h.lists.size
      · exact printInside_of_holdAll hitems hprints (hdeep.open hr hnew)
      · -- A list that is not there has no items.
        rw [items_of_size_le (Nat.le_of_not_lt hr)] at hitems ⊢
        cases ds with
        | nil => rfl
        | cons d ds => exact hitems.elim
    rw [printInside_list, if_neg hnew, htexts]
    rfl

theorem printInside_of_holdAll : ∀ {ds : List Data} {vs : List Value} {depth : Nat}
    {opened : List ListRef}, h.HoldAllIn (fun _ => True) vs ds →
      h.Prints (Data.deepest ds) opened → Link.Deep h.lists.size depth opened →
        vs.map (h.printInside depth opened) = Data.texts ds
  | [], vs, depth, opened, hvs, _, _ => by
    obtain rfl := HoldAllIn.nil_iff.1 hvs
    rfl
  | d :: ds, vs, depth, opened, hvs, hopened, hdeep => by
    obtain ⟨w, ws, rfl, hw, hws⟩ := HoldAllIn.cons_iff.1 hvs
    rw [List.map_cons, printInside_of_holds hw (hopened.mono (Nat.le_max_left _ _)) hdeep,
      printInside_of_holdAll hws (hopened.mono (Nat.le_max_right _ _)) hdeep]
    rfl

end

/-- Data are printed as they are written. -/
theorem print_of_holds (hv : h.Holds v d) : h.print v = d.text :=
  printInside_of_holds hv (fun _ hr => nomatch hr)
    ⟨List.nodup_nil, fun _ hr => (nomatch hr), Nat.lt_succ_self _⟩

end Heap

end SmallScript
