/-
  Order and equality.

  Numbers have a total order in which all that are not a number are one, above the rest, and strings
  have theirs; `order?` is the one or the other, so what it says of two values is turned around with
  them, and it is transitive among values of one type.

  There are two equalities.  That of the items of lists only looks at one key of each item
  (`Value.itemKey`), and so it is an equivalence, whatever the items are; two lists are equal if
  their items have the same keys, which a list has with itself.  The other is that of the language:
  it goes by the order where there is one, by the items for lists, and by the key for everything
  else.  So it is reflexive and symmetric, but an integer and a float may be equal to each other in
  the order without being equal as items.
-/
import Mathlib.Data.Set.Operations
import SmallScript.Operator

namespace SmallScript

/-! ## The order of numbers -/

namespace Double

theorem order_swap (x y : Double) : order x y = (order y x).swap := by
  unfold order
  cases x.isNaN <;> cases y.isNaN
  · exact Std.OrientedOrd.eq_swap
  · rfl
  · rfl
  · rfl

instance : Std.OrientedCmp order where
  eq_swap := order_swap _ _

theorem order_of_numbers {x y : Double} (hx : x.isNaN = false) (hy : y.isNaN = false) :
    order x y = compare x.rank y.rank := by
  unfold order
  rw [hx, hy]
  rfl

/-- Only a number is at most a number. -/
theorem isNaN_of_isLE {x y : Double} (h : (order x y).isLE = true) (hy : y.isNaN = false) :
    x.isNaN = false := by
  cases hx : x.isNaN with
  | false => rfl
  | true =>
    unfold order at h
    rw [hx, hy] at h
    cases h

instance : Std.TransCmp order where
  isLE_trans {x y z} hxy hyz := by
    cases hz : z.isNaN with
    | true =>
      unfold order
      rw [hz]
      cases x.isNaN <;> rfl
    | false =>
      have hy : y.isNaN = false := isNaN_of_isLE hyz hz
      have hx : x.isNaN = false := isNaN_of_isLE hxy hy
      rw [order_of_numbers hx hy] at hxy
      rw [order_of_numbers hy hz] at hyz
      rw [order_of_numbers hx hz]
      exact Std.TransOrd.isLE_trans hxy hyz

/-- All that are not a number are one in the order, above the numbers. -/
theorem order_of_isNaN {x : Double} (hx : x.isNaN = true) (y : Double) :
    order x y = if y.isNaN then .eq else .gt := by
  unfold order
  rw [if_pos hx]

theorem isNaN_of_isZero {x : Double} (hx : x.isZero = true) : x.isNaN = false := by
  have hmagnitude : x.magnitude = 0 := of_decide_eq_true hx
  unfold isNaN
  rw [hmagnitude]
  rfl

end Double

/-- What two comparisons say of a third one: if one of them finds no difference, or both find the
same, the third one finds it as well. -/
theorem order_trans {α : Type} {cmp : α → α → Ordering} [Std.TransCmp cmp] {a b c : α}
    (h : cmp a b = .eq ∨ cmp b c = .eq ∨ cmp a b = cmp b c) :
    cmp a c = (cmp a b).then (cmp b c) := by
  rcases h with h | h | h
  · rw [Std.TransCmp.congr_left h, h]
    rfl
  · rw [← Std.TransCmp.congr_right h, h]
    cases cmp a b <;> rfl
  · cases hab : cmp a b with
    | lt => exact Std.TransCmp.lt_trans hab (h ▸ hab)
    | eq => rw [Std.TransCmp.congr_left hab]; rfl
    | gt => exact Std.TransCmp.gt_trans hab (h ▸ hab)

/-! ## Items of lists -/

/-- What is looked at when an item of a list is compared with another one. -/
inductive ItemKey where
  | null
  | bool (b : Bool)
  | int (n : Int64)
  | float (x : Double)
  | text (id : Nat)
  | list (r : ListRef)
  | object (r : ObjectRef)
  | closure (id : Nat)
  | native (op : Native)
  | host (f : HostFunction)

/-- The key of an item: the content of what has no identity, the two zeros being one, and else the
identity. -/
def Value.itemKey : Value → ItemKey
  | null => .null
  | bool b => .bool b
  | int n => .int n
  | float x => .float (if x.isZero then Double.zero false else x)
  | text t => .text t.id
  | list r => .list r
  | object r => .object r
  | function (.closure c) => .closure c.id
  | function (.native op) => .native op
  | function (.host f) => .host f

namespace Operator

variable {h : Heap} {a b c : Value} {o : Ordering}

/-- Two numbers are equal as items if they are the same, bit by bit, or both are zero. -/
theorem float_itemEquals_iff (x y : Double) :
    itemEquals (.float x) (.float y) = true ↔
      Value.itemKey (.float x) = Value.itemKey (.float y) := by
  have hbits : x.bits = y.bits ↔ x = y := by
    constructor
    · exact fun hxy => congrArg Double.mk hxy
    · exact fun hxy => congrArg Double.bits hxy
  have hzero : (Double.zero false).isZero = true := rfl
  unfold itemEquals Value.itemKey Double.eqv
  by_cases hx : x.isZero = true <;> by_cases hy : y.isZero = true
  · simp [hx, hy, Double.isNaN_of_isZero]
  · have hne : x ≠ y := fun hxy => hy (hxy ▸ hx)
    have hkey : Double.zero false ≠ y := fun hzy => hy (hzy ▸ hzero)
    simp [hx, hy, hbits, hne, hkey]
  · have hne : x ≠ y := fun hxy => hx (hxy ▸ hy)
    have hkey : x ≠ Double.zero false := fun hxz => hx (hxz ▸ hzero)
    simp [hx, hy, hbits, hne, hkey]
  · simp [hx, hy, hbits]

/-- Items are equal just if their keys are. -/
theorem itemEquals_iff : itemEquals a b = true ↔ a.itemKey = b.itemKey := by
  cases a with
  | float x =>
    cases b with
    | float y => exact float_itemEquals_iff x y
    | function f => cases f <;> exact iff_of_false nofun nofun
    | _ => exact iff_of_false nofun nofun
  | function f =>
    cases b with
    | function g =>
      cases f <;> cases g <;> simp [itemEquals, Value.itemKey, Value.same, Callable.same]
    | _ => cases f <;> exact iff_of_false nofun nofun
  | _ =>
    cases b with
    | function g => cases g <;> exact iff_of_false nofun nofun
    | _ => simp [itemEquals, Value.itemKey, Value.same]

/-- Sequences are equal item by item just if they have the same keys. -/
theorem itemsEqual_iff {as bs : List Value} :
    itemsEqual as bs = true ↔ as.map Value.itemKey = bs.map Value.itemKey := by
  induction as generalizing bs with
  | nil => cases bs <;> simp [itemsEqual]
  | cons a as ih =>
    cases bs with
    | nil => exact iff_of_false nofun nofun
    | cons b bs =>
      rw [itemsEqual, Bool.and_eq_true, itemEquals_iff, ih, List.map_cons, List.map_cons,
        List.cons.injEq]

/-- A sequence is equal to itself, whatever its items are. -/
theorem itemsEqual_self (as : List Value) : itemsEqual as as = true := itemsEqual_iff.2 rfl

theorem itemEquals_comm (a b : Value) : itemEquals a b = itemEquals b a :=
  Bool.eq_iff_iff.2 (itemEquals_iff.trans (eq_comm.trans itemEquals_iff.symm))

/-! ## Order -/

/-- Two values are compared in both directions or in none, and one turned around is the other. -/
theorem order?_swap (a b : Value) : order? b a = (order? a b).map Ordering.swap := by
  cases a with
  | int m =>
    cases b with
    | int n => exact congrArg some Std.OrientedOrd.eq_swap
    | float y => exact congrArg some Std.OrientedCmp.eq_swap
    | _ => rfl
  | float x =>
    cases b with
    | int n => exact congrArg some Std.OrientedCmp.eq_swap
    | float y => exact congrArg some Std.OrientedCmp.eq_swap
    | _ => rfl
  | text s =>
    cases b with
    | text t => exact congrArg some Std.OrientedOrd.eq_swap
    | _ => rfl
  | _ => cases b <;> rfl

/-- A value that has an order is equal to itself in it. -/
theorem order?_self (a : Value) : order? a a = none ∨ order? a a = some .eq := by
  cases a with
  | int n => exact .inr (congrArg some Std.ReflOrd.compare_self)
  | float x => exact .inr (congrArg some Std.ReflCmp.compare_self)
  | text s => exact .inr (congrArg some Std.ReflOrd.compare_self)
  | _ => exact .inl rfl

end Operator

/-- The types whose values are ordered among themselves. -/
inductive OrderedType where
  | int | float | text

/-- The values of a type. -/
def OrderedType.values : OrderedType → Set Value
  | int => Set.range .int
  | float => Set.range .float
  | text => Set.range .text

namespace Operator

variable {h : Heap} {a b c : Value} {o : Ordering}

/-- Among values of one type there is an order. -/
theorem order?_values (t : OrderedType) (ha : a ∈ t.values) (hb : b ∈ t.values)
    (hc : c ∈ t.values) :
    ∃ o p, order? a b = some o ∧ order? b c = some p ∧ order? a a = some .eq ∧
      (o = .eq ∨ p = .eq ∨ o = p → order? a c = some (o.then p)) := by
  cases t with
  | int =>
    obtain ⟨⟨l, rfl⟩, ⟨m, rfl⟩, ⟨n, rfl⟩⟩ := And.intro ha (And.intro hb hc)
    exact ⟨_, _, rfl, rfl, congrArg some Std.ReflOrd.compare_self,
      fun htrans => congrArg some (order_trans htrans)⟩
  | float =>
    obtain ⟨⟨x, rfl⟩, ⟨y, rfl⟩, ⟨z, rfl⟩⟩ := And.intro ha (And.intro hb hc)
    exact ⟨_, _, rfl, rfl, congrArg some Std.ReflCmp.compare_self,
      fun htrans => congrArg some (order_trans htrans)⟩
  | text =>
    obtain ⟨⟨s, rfl⟩, ⟨t, rfl⟩, ⟨u, rfl⟩⟩ := And.intro ha (And.intro hb hc)
    exact ⟨_, _, rfl, rfl, congrArg some Std.ReflOrd.compare_self,
      fun htrans => congrArg some (order_trans htrans)⟩

/-! ## Equality -/

theorem equals_of_order (ho : order? a b = some o) : equals h a b = (o == .eq) := by
  unfold equals
  rw [ho]

/-- That a list is equal to itself at once is no more than its items would say. -/
theorem equals_lists (h : Heap) (r s : ListRef) :
    equals h (.list r) (.list s) = itemsEqual (h.items r).toList (h.items s).toList := by
  show (r == s || itemsEqual _ _) = _
  by_cases hrs : r = s
  · rw [hrs, itemsEqual_self, Bool.or_true]
  · rw [beq_false_of_ne hrs, Bool.false_or]

/-- Everything else is equal as the items of lists are. -/
theorem equals_others (ho : order? a b = none) (hlists : ∀ r s, a = .list r → b ≠ .list s) :
    equals h a b = itemEquals a b := by
  unfold equals
  rw [ho]
  cases a with
  | list r =>
    cases b with
    | list s => exact absurd rfl (hlists r s rfl)
    | _ => rfl
  | int | float =>
    cases b with
    | int | float => cases ho
    | _ => rfl
  | text =>
    cases b with
    | text => cases ho
    | _ => rfl
  | _ => cases b <;> rfl

theorem equals_self (h : Heap) (a : Value) : equals h a a = true := by
  rcases order?_self a with ho | ho
  · cases a with
    | list r => rw [equals_lists, itemsEqual_self]
    | _ =>
      rw [equals_others ho nofun]
      exact itemEquals_iff.2 rfl
  · rw [equals_of_order ho]
    rfl

theorem equals_comm (h : Heap) (a b : Value) : equals h a b = equals h b a := by
  have hswap := order?_swap a b
  cases ho : order? a b with
  | some o =>
    rw [ho] at hswap
    rw [equals_of_order ho, equals_of_order hswap]
    cases o <;> rfl
  | none =>
    rw [ho] at hswap
    by_cases hlists : ∃ r s, a = .list r ∧ b = .list s
    · obtain ⟨r, s, rfl, rfl⟩ := hlists
      rw [equals_lists, equals_lists, Bool.eq_iff_iff, itemsEqual_iff, itemsEqual_iff]
      exact eq_comm
    · rw [equals_others ho fun r s ha hb => hlists ⟨r, s, ha, hb⟩,
        equals_others hswap fun r s hb ha => hlists ⟨s, r, ha, hb⟩, itemEquals_comm]

end Operator

/-! ## Questions -/

/-- An operator between two values answers yes. -/
def Operator.Says (h : Heap) (op : BinaryOp) (a b : Value) : Prop :=
  Operator.binary h op a b = .ok (.value (.bool true))

/-- Just one of three things is so. -/
def ExactlyOne (p q r : Prop) : Prop := p ∧ ¬ q ∧ ¬ r ∨ ¬ p ∧ q ∧ ¬ r ∨ ¬ p ∧ ¬ q ∧ r

namespace Operator

variable {h : Heap} {a b : Value} {o : Ordering}

theorem binary_order (ho : order? a b = some o) (question : OrderOp) :
    binary h (.order question) a b = .ok (.value (.bool (question.holds o))) := by
  unfold binary
  rw [ho]

theorem binary_order_none (ho : order? a b = none) (question : OrderOp) :
    binary h (.order question) a b =
      .error (.unsupportedBinary (BinaryOp.order question).text (h.typeName a) (h.typeName b)) := by
  unfold binary
  rw [ho]

/-- A question about the order fails just where there is no order. -/
theorem binary_order_error_iff {question : OrderOp} :
    (∃ f, binary h (.order question) a b = .error f) ↔ order? a b = none := by
  cases ho : order? a b with
  | some o =>
    rw [binary_order ho]
    exact iff_of_false nofun nofun
  | none =>
    rw [binary_order_none ho]
    exact iff_of_true ⟨_, rfl⟩ rfl

theorem says_order_iff (ho : order? a b = some o) (question : OrderOp) :
    Says h (.order question) a b ↔ question.holds o = true := by
  unfold Says
  rw [binary_order ho, Except.ok.injEq, Product.value.injEq, Value.bool.injEq]

theorem says_eq_iff_equals : Says h .eq a b ↔ equals h a b = true := by
  show Except.ok (Product.value (.bool (equals h a b))) = _ ↔ _
  rw [Except.ok.injEq, Product.value.injEq, Value.bool.injEq]

theorem says_eq_iff (ho : order? a b = some o) : Says h .eq a b ↔ o = .eq := by
  rw [says_eq_iff_equals, equals_of_order ho]
  exact beq_iff_eq

/-- Equality of lists is transitive. -/
theorem says_eq_trans {q r s : ListRef} (hqr : Says h .eq (.list q) (.list r))
    (hrs : Says h .eq (.list r) (.list s)) : Says h .eq (.list q) (.list s) := by
  rw [says_eq_iff_equals, equals_lists, itemsEqual_iff] at *
  exact hqr.trans hrs

/-- Where there is an order just one of `<`, `==` and `>` says yes, and the other two questions are
whether one of two of them does. -/
theorem says_one (ho : order? a b = some o) :
    ExactlyOne (Says h (.order .less) a b) (Says h .eq a b) (Says h (.order .greater) a b) ∧
    (Says h (.order .lessEq) a b ↔ Says h (.order .less) a b ∨ Says h .eq a b) ∧
    (Says h (.order .greaterEq) a b ↔ Says h (.order .greater) a b ∨ Says h .eq a b) := by
  unfold ExactlyOne
  simp only [says_order_iff ho, says_eq_iff ho]
  cases o <;> decide

end Operator

/-- **Order and equality of values.**

1. Two values are compared in both directions or in none, and the one is the other turned around.
2. Among values of one type there is always an order; a value is equal to itself in it, and it is
   transitive: if one of two comparisons finds no difference, or both find the same, the comparison
   of the first and the last value finds it as well.
3. All that are not a number are equal to each other in the order and greater than every number; the
   negative zero is less than the positive.
4. `==` says yes of a value and itself, whatever it is and whatever lists hold; it never fails,
   does not depend on which operand stands first, and `!=` is its negation.
5. That a list is equal to itself at once is no more than its items would say one by one, and
   equality of lists is transitive.
6. The questions about the order fail just where there is none; elsewhere just one of `<`, `==` and
   `>` says yes, `<=` if `<` or `==` does, and `>=` if `>` or `==` does. -/
theorem order_and_equality (h : Heap) :
    (∀ a b, Operator.order? b a = (Operator.order? a b).map Ordering.swap) ∧
    (∀ (t : OrderedType), ∀ a ∈ t.values, ∀ b ∈ t.values, ∀ c ∈ t.values,
      ∃ o p, Operator.order? a b = some o ∧ Operator.order? b c = some p ∧
        Operator.order? a a = some .eq ∧
        (o = .eq ∨ p = .eq ∨ o = p → Operator.order? a c = some (o.then p))) ∧
    (∀ x y : Double, x.isNaN = true →
      Operator.order? (.float x) (.float y) = some (if y.isNaN then .eq else .gt)) ∧
    Operator.order? (.float (Double.zero true)) (.float (Double.zero false)) = some .lt ∧
    (∀ a b, ∃ equal : Bool, Operator.binary h .eq a a = .ok (.value (.bool true)) ∧
      Operator.binary h .eq a b = .ok (.value (.bool equal)) ∧
      Operator.binary h .eq b a = .ok (.value (.bool equal)) ∧
      Operator.binary h .notEq a b = .ok (.value (.bool (!equal)))) ∧
    (∀ q r s, Operator.equals h (.list q) (.list r) =
        Operator.itemsEqual (h.items q).toList (h.items r).toList ∧
      (Operator.Says h .eq (.list q) (.list r) → Operator.Says h .eq (.list r) (.list s) →
        Operator.Says h .eq (.list q) (.list s))) ∧
    (∀ a b, (∀ question, (∃ f, Operator.binary h (.order question) a b = .error f) ↔
        Operator.order? a b = none) ∧
      (Operator.order? a b = none ∨
        ExactlyOne (Operator.Says h (.order .less) a b) (Operator.Says h .eq a b)
          (Operator.Says h (.order .greater) a b) ∧
        (Operator.Says h (.order .lessEq) a b ↔
          Operator.Says h (.order .less) a b ∨ Operator.Says h .eq a b) ∧
        (Operator.Says h (.order .greaterEq) a b ↔
          Operator.Says h (.order .greater) a b ∨ Operator.Says h .eq a b))) := by
  refine ⟨?_, ?_, ?_, rfl, ?_, ?_, ?_⟩
  · exact Operator.order?_swap
  · intro t a ha b hb c hc
    exact Operator.order?_values t ha hb hc
  · intro x y hx
    exact congrArg some (Double.order_of_isNaN hx y)
  · intro a b
    refine ⟨Operator.equals h a b, ?_, rfl, ?_, rfl⟩
    · show Except.ok (Product.value (.bool (Operator.equals h a a))) = _
      rw [Operator.equals_self]
    · rw [Operator.equals_comm]
      rfl
  · intro q r s
    exact ⟨Operator.equals_lists h q r, Operator.says_eq_trans⟩
  · intro a b
    refine ⟨fun question => Operator.binary_order_error_iff, ?_⟩
    cases ho : Operator.order? a b with
    | none => exact .inl rfl
    | some o => exact .inr (Operator.says_one ho)

/-- Three lists of the same items, that are not a number and the first of the lists, are equal; and
the negative zero is less than what is not a number, since the positive one is between them. -/
theorem order_and_equality_of_nan :
    let q : ListRef := ⟨0⟩
    let r : ListRef := ⟨1⟩
    let s : ListRef := ⟨2⟩
    let items : Array Value := #[.float Double.nan, .list q]
    let h : Heap := { lists := #[{ items }, { items }, { items }] }
    let low := Value.float (Double.zero true)
    let mid := Value.float (Double.zero false)
    let high := Value.float Double.nan
    Operator.Says h .eq (.list q) (.list r) ∧ Operator.Says h .eq (.list r) (.list s) ∧
      Operator.Says h .eq (.list q) (.list s) ∧
      low ∈ OrderedType.float.values ∧ mid ∈ OrderedType.float.values ∧
      high ∈ OrderedType.float.values ∧ Operator.order? low mid = some .lt ∧
      Operator.order? mid high = some .lt ∧ Operator.order? low high = some .lt ∧
      Double.nan.isNaN = true ∧ Operator.order? high mid = some .gt := by
  intro q r s items h low mid high
  obtain ⟨-, htypes, hnan, -, -, hlists, -⟩ := order_and_equality h
  have hqr : Operator.Says h .eq (.list q) (.list r) := rfl
  have hrs : Operator.Says h .eq (.list r) (.list s) := rfl
  have hlow : low ∈ OrderedType.float.values := ⟨_, rfl⟩
  have hmid : mid ∈ OrderedType.float.values := ⟨_, rfl⟩
  have hhigh : high ∈ OrderedType.float.values := ⟨_, rfl⟩
  obtain ⟨o, p, ho, hp, -, htrans⟩ := htypes .float low hlow mid hmid high hhigh
  have hlt : Operator.order? low mid = some .lt := rfl
  have hlt' : Operator.order? mid high = some .lt := rfl
  rw [hlt] at ho
  rw [hlt'] at hp
  cases ho
  cases hp
  exact ⟨hqr, hrs, (hlists q r s).2 hqr hrs, hlow, hmid, hhigh, hlt, hlt', htrans (.inr (.inr rfl)),
    rfl, hnan Double.nan (Double.zero false) rfl⟩

end SmallScript
