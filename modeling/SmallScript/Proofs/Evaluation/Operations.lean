/-
  Operations on two sides.

  Operators, methods of strings, conversions and mathematics look at contents only, and what they
  answer is plain.  So in heaps that correspond they answer the same.  The other native functions
  answer what corresponds, and worlds that correspond are behind them.
-/
import SmallScript.Proofs.Evaluation.Act
import SmallScript.Proofs.Evaluation.Correspondence

namespace SmallScript

namespace Link

variable {L : Link}

/-! ## Results -/

/-- Answers in a relation, or the same fault. -/
inductive Results {α β : Type} (R : α → β → Prop) : Except Fault α → Except Fault β → Prop where
  | ok {a : α} {b : β} : R a b → Results R (.ok a) (.ok b)
  | error (f : Fault) : Results R (.error f) (.error f)

/-- The same value, or the content of a string that has yet to be made. -/
inductive Products (L : Link) : Product → Product → Prop where
  | value {v v' : Value} : L.Values v v' → Products L (.value v) (.value v')
  | text (content : String) : Products L (.text content) (.text content)

section Results

variable {α β γ δ : Type} {R : α → β → Prop} {S : γ → δ → Prop}

/-- What is the same is in a relation that holds between an answer and itself. -/
theorem Results.of_eq {R : α → α → Prop} {P : α → Prop} {x y : Except Fault α} (h : x = y)
    (hx : Answers P x) (hP : ∀ a, P a → R a a) : Results R x y := by
  subst h
  cases x with
  | ok a => exact .ok (hP a (hx a rfl))
  | error f => exact .error f

/-- A value without a place in the heap corresponds to itself. -/
theorem values_of_plain {v : Value} (h : v.Plain) : L.Values v v := by
  cases h with
  | null => exact .null
  | bool b => exact .bool b
  | int n => exact .int n
  | float x => exact .float x
  | host f => exact .function (.host f)

theorem products_of_plain {p : Product} (h : p.Plain) : L.Products p p := by
  cases p with
  | value v => exact .value (values_of_plain h)
  | text content => exact .text content

/-- Equal results correspond if they are plain. -/
theorem results_values {x y : Except Fault Value} (h : x = y) (hx : Answers Value.Plain x) :
    Results L.Values x y :=
  .of_eq h hx fun _ => values_of_plain

theorem results_products {x y : Except Fault Product} (h : x = y) (hx : Answers Product.Plain x) :
    Results L.Products x y :=
  .of_eq h hx fun _ => products_of_plain

/-- As many arguments on both sides fail a call in the same way. -/
theorem wrongCount_eq {args args' : List Value} (h : List.Forall₂ L.Values args args')
    (params : List String) : wrongCount (α := α) params args = wrongCount params args' := by
  unfold wrongCount
  rw [h.length_eq]

/-- Lists of arguments that correspond are of one length, so the complaint is the same. -/
theorem results_wrongCount {args args' : List Value} (h : List.Forall₂ L.Values args args')
    (params : List String) : Results R (wrongCount params args) (wrongCount params args') := by
  unfold wrongCount
  rw [h.length_eq]
  exact .error _

end Results

/-! ## Order and equality -/

/-- Only numbers and texts have an order, and these are the same on both sides. -/
theorem order?_eq {a a' b b' : Value} (ha : L.Values a a') (hb : L.Values b b') :
    Operator.order? a b = Operator.order? a' b' := by
  cases ha with
  | int a => cases hb <;> rfl
  | float x => cases hb <;> rfl
  | @text s s' hs =>
    cases hb with
    | @text t t' ht =>
      show some (compare s.content t.content) = some (compare s'.content t'.content)
      rw [hs.content, ht.content]
    | _ => rfl
  | _ => rfl

/-- Items are equal by what they are or by their place, and a link pairs places off. -/
theorem itemEquals_eq {a a' b b' : Value} (ha : L.Values a a') (hb : L.Values b b') :
    Operator.itemEquals a b = Operator.itemEquals a' b' := by
  have hsame := ha.same_eq hb
  cases ha with
  | null => cases hb <;> rfl
  | bool a => cases hb <;> rfl
  | int a => cases hb <;> rfl
  | float x => cases hb <;> rfl
  | _ => exact hsame

/-- So lists of items are equal on both sides or on neither. -/
theorem itemsEqual_eq {as as' bs bs' : List Value} (ha : List.Forall₂ L.Values as as')
    (hb : List.Forall₂ L.Values bs bs') :
    Operator.itemsEqual as bs = Operator.itemsEqual as' bs' := by
  induction ha generalizing bs bs' with
  | nil => cases hb <;> rfl
  | cons ha _ ih =>
    cases hb with
    | nil => rfl
    | cons hb hrest =>
      unfold Operator.itemsEqual
      rw [itemEquals_eq ha hb, ih hrest]

/-! ## What is asked of values -/

namespace Heaps

variable {h h' : Heap} (hh : L.Heaps h h')

include hh

/-- The fault names the type of a value; corresponding values are of one type. -/
theorem expectInt_eq {v v' : Value} (hv : L.Values v v') : h.expectInt v = h'.expectInt v' := by
  have hother := congrArg (Except.error (α := Int64)) (hh.unexpected_eq "int" hv)
  cases hv with
  | int n => rfl
  | _ => exact hother

theorem expectFloat_eq {v v' : Value} (hv : L.Values v v') :
    h.expectFloat v = h'.expectFloat v' := by
  have hother := congrArg (Except.error (α := Double)) (hh.unexpected_eq "float" hv)
  cases hv with
  | float x => rfl
  | _ => exact hother

theorem expectNumber_eq {v v' : Value} (hv : L.Values v v') :
    h.expectNumber v = h'.expectNumber v' := by
  have hother := congrArg (Except.error (α := Double)) (hh.unexpected_eq "num" hv)
  cases hv with
  | int n => rfl
  | float x => rfl
  | _ => exact hother

/-- A text is the same on both sides, and so is the complaint about what is none. -/
theorem expectText_eq {v v' : Value} (hv : L.Values v v') : h.expectText v = h'.expectText v' := by
  have hother := congrArg (Except.error (α := String)) (hh.unexpected_eq "str" hv)
  cases hv with
  | text ht => exact congrArg Except.ok ht.content
  | _ => exact hother

/-! ### Operators -/

/-- Numbers are the same on both sides, and what is put behind a text is printed alike. -/
theorem arithmetic_eq (op : ArithOp) {a a' b b' : Value} (ha : L.Values a a') (hb : L.Values b b') :
    Operator.arithmetic h op a b = Operator.arithmetic h' op a' b' := by
  have hother : ∀ text,
      (Except.error (.unsupportedBinary text (h.typeName a) (h.typeName b)) : Except Fault Product) =
        .error (.unsupportedBinary text (h'.typeName a') (h'.typeName b')) := by
    intro text
    rw [hh.typeName_eq ha, hh.typeName_eq hb]
  have hprint := hh.print_eq hb
  cases ha with
  | int a =>
    cases hb with
    | int b => rfl
    | float y => rfl
    | _ => exact hother _
  | float x =>
    cases hb with
    | int b => rfl
    | float y => rfl
    | _ => exact hother _
  | @text s s' hs =>
    cases op with
    | add =>
      show Except.ok (Product.text (s.content ++ h.print b)) =
        .ok (.text (s'.content ++ h'.print b'))
      rw [hs.content, hprint]
    | mul =>
      cases hb with
      | int n =>
        show Operator.repetition s.content n = Operator.repetition s'.content n
        rw [hs.content]
      | _ => exact hother _
    | _ => exact hother _
  | _ => exact hother _

/-- Without an order lists are compared by items, all else by content or identity. -/
theorem equals_eq {a a' b b' : Value} (ha : L.Values a a') (hb : L.Values b b') :
    Operator.equals h a b = Operator.equals h' a' b' := by
  unfold Operator.equals
  rw [order?_eq ha hb]
  have hsame := ha.same_eq hb
  cases ha with
  | @list r r' hr =>
    cases hb with
    | @list q q' hq =>
      have heq : (r == q) = (r' == q') := hsame
      show (r == q || Operator.itemsEqual (h.items r).toList (h.items q).toList) =
        (r' == q' || Operator.itemsEqual (h'.items r').toList (h'.items q').toList)
      rw [heq, itemsEqual_eq (hh.items hr) (hh.items hq)]
    | _ => rfl
  | object hr => cases hb <;> exact hsame
  | function hf => cases hb <;> exact hsame
  | _ => cases hb <;> rfl

/-- So an operator gives the same on both sides: a number, a text or a truth value. -/
theorem binary_eq (op : BinaryOp) {a a' b b' : Value} (ha : L.Values a a') (hb : L.Values b b') :
    Operator.binary h op a b = Operator.binary h' op a' b' := by
  unfold Operator.binary
  cases op with
  | arith op => exact hh.arithmetic_eq op ha hb
  | order question =>
    dsimp only
    rw [order?_eq ha hb, hh.typeName_eq ha, hh.typeName_eq hb]
  | eq =>
    dsimp only
    rw [hh.equals_eq ha hb]
  | notEq =>
    dsimp only
    rw [hh.equals_eq ha hb]

/-- The same for the operators in front of an operand. -/
theorem unary_eq (op : UnaryOp) {a a' : Value} (ha : L.Values a a') :
    Operator.unary h op a = Operator.unary h' op a' := by
  have hname := hh.typeName_eq ha
  cases op with
  | not =>
    show Except.ok (Product.value (.bool (!a.isTruthy))) = .ok (.value (.bool (!a'.isTruthy)))
    rw [ha.isTruthy_eq]
  | plus =>
    have hother := congrArg (fun name => (Except.error (.unsupportedUnary "unary +" name) :
      Except Fault Product)) hname
    cases ha with
    | int n => rfl
    | float x => rfl
    | _ => exact hother
  | minus =>
    have hother := congrArg (fun name => (Except.error (.unsupportedUnary "unary -" name) :
      Except Fault Product)) hname
    cases ha with
    | int n => rfl
    | float x => rfl
    | _ => exact hother

/-! ### Conversions and mathematics -/

/-- A conversion sees no more of a value than its kind and its digits. -/
theorem toInt_eq {v v' : Value} (hv : L.Values v v') :
    Conversion.toInt h v = Conversion.toInt h' v' := by
  have hother := congrArg (Except.error (α := Value)) (hh.unexpected_eq "num|str" hv)
  cases hv with
  | int n => rfl
  | float x => rfl
  | @text t t' ht =>
    show Except.ok (((Conversion.integer? t.content).map Value.int).getD .null) =
      .ok (((Conversion.integer? t'.content).map Value.int).getD .null)
    rw [ht.content]
  | _ => exact hother

theorem toFloat_eq {v v' : Value} (hv : L.Values v v') :
    Conversion.toFloat h v = Conversion.toFloat h' v' := by
  have hother := congrArg (Except.error (α := Value)) (hh.unexpected_eq "num|str" hv)
  cases hv with
  | int n => rfl
  | float x => rfl
  | @text t t' ht =>
    show Except.ok (((Conversion.number? t.content).map Value.float).getD .null) =
      .ok (((Conversion.number? t'.content).map Value.float).getD .null)
    rw [ht.content]
  | _ => exact hother

/-- The lesser or greater of two values is one of two numbers. -/
theorem extreme_eq (ints : Int64 → Int64 → Int64) (floats : Double → Double → Double)
    {a a' b b' : Value} (ha : L.Values a a') (hb : L.Values b b') :
    MathFunction.extreme h ints floats a b = MathFunction.extreme h' ints floats a' b' := by
  have hother : (do
      let x ← h.expectNumber a
      let y ← h.expectNumber b
      .ok (.float (floats x y)) : Except Fault Value) = (do
      let x ← h'.expectNumber a'
      let y ← h'.expectNumber b'
      .ok (.float (floats x y))) := by
    rw [hh.expectNumber_eq ha, hh.expectNumber_eq hb]
  cases ha with
  | int a =>
    cases hb with
    | int b => rfl
    | _ => exact hother
  | _ => exact hother

/-- Mathematics is asked of numbers only. -/
theorem math_eq (f : MathFunction) {args args' : List Value}
    (hargs : List.Forall₂ L.Values args args') : f.apply h args = f.apply h' args' := by
  have hcount := wrongCount_eq (α := Value) hargs f.params
  cases hargs with
  | nil => cases f <;> rfl
  | cons hv hrest =>
    cases hrest with
    | nil =>
      have hnumber := hh.expectNumber_eq hv
      have hfloat := hh.expectFloat_eq hv
      cases f with
      | max => rfl
      | min => rfl
      | pow => rfl
      | floor => exact congrArg (Except.map fun x => Value.float x.floor) hfloat
      | ceil => exact congrArg (Except.map fun x => Value.float x.ceil) hfloat
      | _ => exact congrArg (Except.map _) hnumber
    | cons hw hrest =>
      cases hrest with
      | nil =>
        cases f with
        | max => exact hh.extreme_eq _ _ hv hw
        | min => exact hh.extreme_eq _ _ hv hw
        | pow =>
          unfold MathFunction.apply
          dsimp only
          rw [hh.expectNumber_eq hv, hh.expectNumber_eq hw]
        | _ => exact hcount
      | cons hu hrest => cases f <;> exact hcount

/-! ### Methods -/

/-- The methods of a text look at contents and indices, the same on both sides. -/
theorem textMethod_eq (m : TextMethod) {s s' : String} (hs : s = s') {args args' : List Value}
    (hargs : List.Forall₂ L.Values args args') : m.apply h s args = m.apply h' s' args' := by
  subst hs
  have hcount := wrongCount_eq (α := Product) hargs m.params
  cases hargs with
  | nil => cases m <;> rfl
  | cons hv hrest =>
    cases hrest with
    | nil =>
      cases m with
      | item =>
        unfold TextMethod.apply
        dsimp only
        rw [hh.expectInt_eq hv]
      | _ => exact hcount
    | cons hw hrest =>
      cases hrest with
      | nil =>
        cases m with
        | slice =>
          unfold TextMethod.apply
          dsimp only
          rw [hh.expectInt_eq hv, hh.expectInt_eq hw]
        | _ => exact hcount
      | cons hu hrest => cases m <;> exact hcount

end Heaps

/-- Calls of a list's method that correspond. -/
inductive ListCalls (L : Link) : ListCall → ListCall → Prop where
  | len : ListCalls L .len .len
  | item (index : Int64) : ListCalls L (.item index) (.item index)
  | assign (index : Int64) {v v' : Value} : L.Values v v' →
      ListCalls L (.assign index v) (.assign index v')
  | push {v v' : Value} : L.Values v v' → ListCalls L (.push v) (.push v')
  | pop : ListCalls L .pop .pop

namespace ListCalls

variable {c c' : ListCall} {xs xs' : Array Value}

/-- A list answers with one of its items, its length, a text or null. -/
theorem result (hc : L.ListCalls c c') (hxs : L.Items xs xs') :
    Results L.Values (c.result xs) (c'.result xs') := by
  have hsize := hxs.size_eq
  cases hc with
  | len =>
    show Results L.Values (.ok (.int (Int64.ofNat xs.size))) (.ok (.int (Int64.ofNat xs'.size)))
    rw [hsize]
    exact .ok (.int _)
  | item index =>
    show Results L.Values ((position index xs.size).map fun i => xs[i]?.getD .null)
      ((position index xs'.size).map fun i => xs'[i]?.getD .null)
    rw [hsize]
    cases position index xs'.size with
    | ok i => exact .ok (rel_getD (hxs.get i) .null)
    | error f => exact .error f
  | assign index hv =>
    show Results L.Values ((position index xs.size).map fun _ => .null)
      ((position index xs'.size).map fun _ => .null)
    rw [hsize]
    cases position index xs'.size with
    | ok i => exact .ok .null
    | error f => exact .error f
  | push hv => exact .ok .null
  | pop =>
    unfold ListCall.result
    dsimp only
    rw [Array.back?_eq_getElem?, Array.back?_eq_getElem?, hsize]
    have hlast := hxs.get (xs'.size - 1)
    generalize xs[xs'.size - 1]? = last at hlast
    generalize xs'[xs'.size - 1]? = last' at hlast
    cases hlast with
    | none => exact .error _
    | some hv => exact .ok hv

/-- Lists that have taken the same call have items that correspond again. -/
theorem after (hc : L.ListCalls c c') (hxs : L.Items xs xs') :
    L.Items (c.after xs) (c'.after xs') := by
  cases hc with
  | len => exact hxs
  | item index => exact hxs
  | @assign index v v' hv =>
    unfold ListCall.after
    dsimp only
    rw [hxs.size_eq]
    cases position index xs'.size with
    | ok i => exact hxs.set i hv
    | error f => exact hxs
  | push hv => exact hxs.push hv
  | pop => exact hxs.pop

end ListCalls

/-- Calls of a map's function that correspond. -/
inductive MapCalls (L : Link) : MapCall → MapCall → Prop where
  | contains {k k' : Value} : L.Values k k' → MapCalls L (.contains k) (.contains k')
  | lookup {k k' : Value} : L.Values k k' → MapCalls L (.lookup k) (.lookup k')
  | store {k k' v v' : Value} :
      L.Values k k' → L.Values v v' → MapCalls L (.store k v) (.store k' v')

namespace MapCalls

variable {c c' : MapCall} {t t' : Table}

/-- A map answers with what it holds for a key, or with whether it holds anything. -/
theorem result (hc : L.MapCalls c c') (ht : L.Tables t t') :
    L.Values (c.result t) (c'.result t') := by
  cases hc with
  | @contains k k' hk =>
    show L.Values (.bool (t.contains (MapKey.ofValue k))) (.bool (t'.contains (MapKey.ofValue k')))
    unfold Assoc.contains
    rw [isSome_eq_of_rel (ht _ _ hk.key)]
    exact .bool _
  | lookup hk => exact rel_getD (ht _ _ hk.key) .null
  | store _ hv => exact hv

/-- Maps that have taken the same call correspond again. -/
theorem after (hc : L.MapCalls c c') (ht : L.Tables t t') : L.Tables (c.after t) (c'.after t') := by
  cases hc with
  | contains _ => exact ht
  | lookup _ => exact ht
  | store hk hv => exact ht.put hk.key hv

end MapCalls

/-- Keys are plain, so a key belongs to the same entry on both sides. -/
theorem mapCall (m : MapMethod) {args args' : List Value}
    (hargs : List.Forall₂ L.Values args args') :
    Results L.MapCalls (m.call args) (m.call args') := by
  have hcount := results_wrongCount (R := L.MapCalls) hargs m.params
  cases hargs with
  | nil => cases m <;> exact hcount
  | cons hv hrest =>
    cases hrest with
    | nil =>
      cases m with
      | contains => exact .ok (.contains hv)
      | lookup => exact .ok (.lookup hv)
      | store => exact hcount
    | cons hw hrest =>
      cases hrest with
      | nil =>
        cases m with
        | store => exact .ok (.store hv hw)
        | _ => exact hcount
      | cons hu hrest => cases m <;> exact hcount

namespace Heaps

variable {h h' : Heap} (hh : L.Heaps h h')

include hh

/-- Arguments that correspond mean the same call. -/
theorem listCall (m : ListMethod) {args args' : List Value}
    (hargs : List.Forall₂ L.Values args args') :
    Results L.ListCalls (m.call h args) (m.call h' args') := by
  have hcount := results_wrongCount (R := L.ListCalls) hargs m.params
  cases hargs with
  | nil =>
    cases m with
    | len => exact .ok .len
    | pop => exact .ok .pop
    | _ => exact hcount
  | cons hv hrest =>
    cases hrest with
    | nil =>
      cases m with
      | item =>
        unfold ListMethod.call
        dsimp only
        rw [hh.expectInt_eq hv]
        cases h'.expectInt _ with
        | ok i => exact .ok (.item i)
        | error f => exact .error f
      | push => exact .ok (.push hv)
      | _ => exact hcount
    | cons hw hrest =>
      cases hrest with
      | nil =>
        cases m with
        | assign =>
          unfold ListMethod.call
          dsimp only
          rw [hh.expectInt_eq hv]
          cases h'.expectInt _ with
          | ok i => exact .ok (.assign i hw)
          | error f => exact .error f
        | _ => exact hcount
      | cons hu hrest => cases m <;> exact hcount

/-- A method of a list changes both lists in the same way and nothing else. -/
theorem listMethod (m : ListMethod) {r r' : ListRef} (hr : L.lists.Pairs r.index r'.index)
    {args args' : List Value} (hargs : List.Forall₂ L.Values args args') :
    L.AndHeaps (Results L.Values) (m.apply r args h) (m.apply r' args' h') := by
  have hcall := hh.listCall m hargs
  unfold ListMethod.apply
  generalize m.call h args = call at hcall
  generalize m.call h' args' = call' at hcall
  cases hcall with
  | error f => exact ⟨.error f, hh⟩
  | ok hc => exact ⟨hc.result (hh.items hr), hh.modifyItems hr fun _ _ => hc.after⟩

/-- So does a method of a map. -/
theorem mapMethod (m : MapMethod) {t t' : TableRef} (ht : L.tables.Pairs t.index t'.index)
    {args args' : List Value} (hargs : List.Forall₂ L.Values args args') :
    L.AndHeaps (Results L.Values) (m.apply t args h) (m.apply t' args' h') := by
  have hcall := mapCall m hargs
  unfold MapMethod.apply
  generalize m.call args = call at hcall
  generalize m.call args' = call' at hcall
  cases hcall with
  | error f => exact ⟨.error f, hh⟩
  | ok hc => exact ⟨.ok (hc.result (hh.table ht)), hh.modifyTable ht fun _ _ => hc.after⟩

/-- A new map is linked to the new map of the other run. -/
theorem newMap : L.AndHeaps L.Values h.newMap h'.newMap := by
  obtain ⟨ht, hh⟩ := hh.newTable
  refine hh.newNamed "map" ?_
  induction MapMethod.all with
  | nil => exact .nil
  | cons m all ih => exact .cons ⟨rfl, .function (.native (.map m ht))⟩ ih

/-- Changes that correspond, of values that do. -/
theorem changeBag {v v' : Value} (hv : L.Values v v') {change change' : Bag → Except Fault Bag}
    (hchange : ∀ b b', L.Bags b b' → Results L.Bags (change b) (change' b')) (refusal : Fault) :
    L.AndHeaps (Results Eq) (h.changeBag v change refusal) (h'.changeBag v' change' refusal) := by
  have hbag := hh.bag? hv
  unfold Heap.changeBag
  generalize h.bag? v = bag at hbag
  generalize h'.bag? v' = bag' at hbag
  cases hbag with
  | none => exact ⟨.error _, hh⟩
  | @some b b' hb =>
    dsimp only
    have hresult := hchange b b' hb
    generalize change b = r at hresult
    generalize change' b' = r' at hresult
    cases hresult with
    | error f => exact ⟨.error f, hh⟩
    | ok hc => exact ⟨.ok rfl, hh.putBag hv hc⟩

/-- A property is set in both bags, or it is missing in both. -/
theorem setProperty {v v' : Value} (hv : L.Values v v') (x : String) {p p' : Value}
    (hp : L.Values p p') :
    L.AndHeaps (Results Eq) (h.setProperty v x p) (h'.setProperty v' x p') := by
  refine hh.changeBag hv (fun b b' hb => ?_) _
  unfold Bag.set
  rw [hb.contains_eq x]
  split
  · exact .ok (hb.put x hp)
  · exact .error _

/-- A property is added to both bags, or it is there in both. -/
theorem addProperty {v v' : Value} (hv : L.Values v v') (x : String) {p p' : Value}
    (hp : L.Values p p') :
    L.AndHeaps (Results Eq) (h.addProperty v x p) (h'.addProperty v' x p') := by
  unfold Heap.addProperty
  rw [hh.typeName_eq hv]
  refine hh.changeBag hv (fun b b' hb => ?_) _
  unfold Bag.add
  rw [hb.contains_eq x]
  split
  · exact .error _
  · exact .ok (hb.put x hp)

end Heaps

/-! ## Worlds -/

/-- Answers that correspond, and behind them worlds that do. -/
def AndWorlds {α β : Type} (L : Link) (R : α → β → Prop) (p : α × World) (p' : β × World) : Prop :=
  R p.1 p'.1 ∧ L.Worlds p.2 p'.2

namespace Worlds

variable {w w' : World} (hw : L.Worlds w w')

include hw

theorem onHeap {α β : Type} {R : α → β → Prop} {f : Heap → α × Heap} {f' : Heap → β × Heap}
    (hf : L.AndHeaps R (f w.heap) (f' w'.heap)) : L.AndWorlds R (w.onHeap f) (w'.onHeap f') :=
  ⟨hf.1, hf.2, hw.console, hw.clock⟩

/-- The result of a native function is put into both heaps. -/
theorem finish {r r' : Except Fault Product} (hr : Results L.Products r r') :
    L.AndWorlds (Results L.Values) (w.finish r) (w'.finish r') := by
  cases hr with
  | error f => exact ⟨.error f, hw⟩
  | ok hp =>
    cases hp with
    | value hv => exact ⟨.ok hv, hw⟩
    | text content =>
      obtain ⟨hv, hh⟩ := hw.heap.newText content
      exact ⟨.ok hv, hh, hw.console, hw.clock⟩

/-- A line that is printed in both runs leaves the consoles equal. -/
theorem print (line : String) : L.Worlds (w.print line) (w'.print line) :=
  { hw with console := congrArg (Console.print line) hw.console }

theorem eprint (line : String) : L.Worlds (w.eprint line) (w'.eprint line) :=
  { hw with console := congrArg (Console.eprint line) hw.console }

/-- The clocks of the two worlds have been read equally often. -/
theorem readClock : L.AndWorlds Eq w.readClock w'.readClock := by
  obtain ⟨hheap, hconsole, hnow, hsteps⟩ := hw
  refine ⟨congrArg Clock.now hnow, hheap, hconsole, ?_, fun k => ?_⟩
  · show Clock.mk (w.clock.now + w.course.steps w.course.readings) =
      ⟨w'.clock.now + w'.course.steps w'.course.readings⟩
    have hstep : w.course.steps w.course.readings = w'.course.steps w'.course.readings := hsteps 0
    rw [hnow, hstep]
  · -- One reading lies behind both, so the courses agree from the next one on.
    have hlater := hsteps (1 + k)
    rw [← Nat.add_assoc, ← Nat.add_assoc] at hlater
    exact hlater

/-! ### Native functions -/

/-- A global function does the same in worlds that correspond. -/
theorem global (f : GlobalFunction) {args args' : List Value}
    (hargs : List.Forall₂ L.Values args args') :
    L.AndWorlds (Results L.Values) (f.invoke args w) (f.invoke args' w') := by
  have hcount : L.AndWorlds (Results L.Values) (wrongCount f.params args, w)
      (wrongCount f.params args', w') := ⟨results_wrongCount hargs _, hw⟩
  cases hargs with
  | nil =>
    cases f with
    | input =>
      have hword : w.console.read = w'.console.read := congrArg Console.read hw.console
      have hbehind : L.Worlds { w with console := w.console.read.2 }
          { w' with console := w'.console.read.2 } :=
        { hw with console := congrArg Prod.snd hword }
      have hproduct : L.Products ((w.console.read.1.map Product.text).getD (.value .null))
          ((w'.console.read.1.map Product.text).getD (.value .null)) := by
        rw [hword]
        exact products_of_plain (Product.plain_word _)
      exact hbehind.finish (.ok hproduct)
    | time =>
      obtain ⟨hnow, hw⟩ := hw.readClock
      have hvalue : L.Values (.int w.readClock.1) (.int w'.readClock.1) := by
        rw [hnow]
        exact .int _
      exact ⟨.ok hvalue, hw⟩
    | map =>
      obtain ⟨hmap, hh⟩ := hw.heap.newMap
      exact ⟨.ok hmap, hh, hw.console, hw.clock⟩
    | _ => exact hcount
  | @cons v v' _ _ hv hrest =>
    cases hrest with
    | nil =>
      have hprint := hw.heap.print_eq hv
      cases f with
      | print =>
        show L.AndWorlds (Results L.Values) (.ok .null, w.print (w.heap.print v))
          (.ok .null, w'.print (w'.heap.print v'))
        rw [hprint]
        exact ⟨.ok .null, hw.print _⟩
      | eprint =>
        show L.AndWorlds (Results L.Values) (.ok .null, w.eprint (w.heap.print v))
          (.ok .null, w'.eprint (w'.heap.print v'))
        rw [hprint]
        exact ⟨.ok .null, hw.eprint _⟩
      | int =>
        exact ⟨results_values (hw.heap.toInt_eq hv) (Conversion.plain_toInt _ _), hw⟩
      | float =>
        exact ⟨results_values (hw.heap.toFloat_eq hv) (Conversion.plain_toFloat _ _), hw⟩
      | str =>
        refine hw.finish (.ok ?_)
        rw [hprint]
        exact .text _
      | bool =>
        have hvalue : L.Values (.bool v.isTruthy) (.bool v'.isTruthy) := by
          rw [hv.isTruthy_eq]
          exact .bool _
        exact ⟨.ok hvalue, hw⟩
      | _ => exact hcount
    | cons hu hrest => cases f <;> exact hcount

/-- Native functions that correspond do, between worlds that do, what corresponds. -/
theorem invoke {op op' : Native} (hop : L.Natives op op') {args args' : List Value}
    (hargs : List.Forall₂ L.Values args args') :
    L.AndWorlds (Results L.Values) (op.invoke args w) (op'.invoke args' w') := by
  cases hop with
  | text m ht =>
    exact hw.finish (results_products (hw.heap.textMethod_eq m ht.content hargs)
      (TextMethod.plain_apply _ _ _ _))
  | list m hr => exact hw.onHeap (hw.heap.listMethod m hr hargs)
  | map m ht => exact hw.onHeap (hw.heap.mapMethod m ht hargs)
  | math f =>
    exact ⟨results_values (hw.heap.math_eq f hargs) (MathFunction.plain_apply _ _ _), hw⟩
  | global f => exact hw.global f hargs

end Worlds

/-! ## Frames -/

/-- Parameters with arguments that correspond. -/
theorem entries_zip (params : List String) {args args' : List Value}
    (hargs : List.Forall₂ L.Values args args') :
    L.Entries (params.zip args) (params.zip args') := by
  induction hargs generalizing params with
  | nil =>
    rw [List.zip_nil_right]
    exact .nil
  | cons ha _ ih =>
    cases params with
    | nil => exact .nil
    | cons x params => exact .cons ⟨rfl, ha⟩ (ih params)

namespace Frames

variable {fs fs' : SmallScript.Frames} {f f' : FrameRef} {s s' : Scope} (hfs : L.Frames fs fs')

include hfs

/-- A name is bound in both frames, and in no other. -/
theorem define (hf : L.frames.Pairs f.index f'.index) (x : String) {v v' : Value}
    (hv : L.Values v v') : L.Frames (fs.define f x v) (fs'.define f' x v') :=
  Pairing.Rows.modify hfs hf fun _ _ hb => hb.put x hv

theorem defineAll (hf : L.frames.Pairs f.index f'.index) {l l' : Bindings}
    (hl : L.Entries l l') : L.Frames (fs.defineAll f l) (fs'.defineAll f' l') := by
  induction hl generalizing fs fs' with
  | nil => exact hfs
  | @cons p p' l l' hp _ ih =>
    obtain ⟨x, v⟩ := p
    obtain ⟨x', v'⟩ := p'
    obtain ⟨rfl, hv⟩ := hp
    exact ih (define hfs hf x hv)

/-- Two frames that are opened together are linked. -/
theorem openChild (hs : L.Scopes s s') :
    L.Scopes (fs.openChild s).1 (fs'.openChild s').1 ∧
      L.Frames (fs.openChild s).2 (fs'.openChild s').2 :=
  ⟨.cons hfs.size.pairs hs, Pairing.Rows.push hfs bags_empty⟩

theorem bag (hf : L.frames.Pairs f.index f'.index) : L.Bags (fs.bag f) (fs'.bag f') :=
  rel_getD (hfs.get hf) bags_empty

/-- Along chains that correspond a name is found at the same link. -/
theorem firstValue? (x : String) {l l' : List FrameRef}
    (hl : List.Forall₂ (fun f f' : FrameRef => L.frames.Pairs f.index f'.index) l l') :
    Option.Rel L.Values (fs.firstValue? x l) (fs'.firstValue? x l') := by
  induction hl with
  | nil => exact .none
  | @cons f f' l l' hf _ ih =>
    have hrow : Option.Rel L.Values (fs.local? f x) (fs'.local? f' x) := bag hfs hf x
    unfold SmallScript.Frames.firstValue?
    generalize fs.local? f x = here at hrow
    generalize fs'.local? f' x = here' at hrow
    cases hrow with
    | none => exact ih
    | some hv => exact .some hv

/-- So a name is read with the same result. -/
theorem read (hs : L.Scopes s s') (x : String) :
    Results L.Values (fs.read s x) (fs'.read s' x) := by
  have hvalue := firstValue? hfs x hs
  unfold SmallScript.Frames.read
  generalize fs.firstValue? x s.chain = v at hvalue
  generalize fs'.firstValue? x s'.chain = v' at hvalue
  cases hvalue with
  | none => exact .error _
  | some hv => exact .ok hv

/-- The frame that binds a name is the corresponding one. -/
theorem firstBinding? (x : String) {l l' : List FrameRef}
    (hl : List.Forall₂ (fun f f' : FrameRef => L.frames.Pairs f.index f'.index) l l') :
    Option.Rel (fun f f' => L.frames.Pairs f.index f'.index) (fs.firstBinding? x l)
      (fs'.firstBinding? x l') := by
  induction hl with
  | nil => exact .none
  | @cons f f' l l' hf _ ih =>
    unfold SmallScript.Frames.firstBinding?
    rw [Bags.contains_eq (bag hfs hf) x]
    split
    · exact .some hf
    · exact ih

/-- An assignment goes to frames that correspond. -/
theorem owner (hs : L.Scopes s s') (x : String) :
    L.frames.Pairs (fs.owner s x).index (fs'.owner s' x).index := by
  have hframe : L.frames.Pairs s.frame.index s'.frame.index := (List.forall₂_cons.1 hs).1
  exact rel_getD (firstBinding? hfs x hs) hframe

end Frames

end Link

/-! ## Functions of an embedder -/

/-- An embedder whose functions cannot tell values apart that correspond: called with such values in
worlds that correspond they do what corresponds. -/
def Host.Uniform (host : Host) : Prop :=
  ∀ (L : Link) f args args' w w', L.Worlds w w' → List.Forall₂ L.Values args args' →
    L.AndWorlds (Link.Results L.Values) (host.invoke f args w) (host.invoke f args' w')

/-- The host that adds no function has nothing to treat alike. -/
theorem Host.bare_uniform : bare.Uniform := fun _ _ _ _ _ _ hw _ => ⟨.ok .null, hw⟩

end SmallScript
