/-
  What can be done to the world.

  The evaluator and the native functions change the world in many places, but in few ways: they
  write a line, read a word or the clock, make something new, or store a value that is at hand.
  `World.Act` names these ways.  A statement about every evaluation needs to look at them once, and
  not at each operator and each library function.

  Operators, methods of strings, conversions and mathematics only compute.  What they answer is
  plain, that is, a value that leads nowhere, or the content of a string that has yet to be made.
-/
import SmallScript.Interpreter

namespace SmallScript

/-! ## Plain answers -/

/-- A value that refers to nothing. -/
inductive Value.Plain : Value → Prop where
  | null : Plain .null
  | bool (b : Bool) : Plain (.bool b)
  | int (n : Int64) : Plain (.int n)
  | float (x : Double) : Plain (.float x)
  | host (f : HostFunction) : Plain (.function (.host f))

/-- A result that is plain, or a string that is yet to be made. -/
def Product.Plain : Product → Prop
  | .value v => v.Plain
  | .text _ => True

/-- The word that was read, if any. -/
theorem Product.plain_word (word : Option String) :
    ((word.map Product.text).getD (.value .null)).Plain := by
  cases word with
  | none => exact Value.Plain.null
  | some w => trivial

section Answers

variable {α β : Type} {P : α → Prop} {Q : β → Prop}

/-- What a result answers, if it answers anything, has a property. -/
def Answers (P : α → Prop) (r : Except Fault α) : Prop := ∀ a, r = .ok a → P a

theorem answers_ok {a : α} (h : P a) : Answers P (.ok a) := by
  intro b hb
  cases hb
  exact h

theorem answers_error (f : Fault) : Answers P (.error f) := by
  intro b hb
  cases hb

theorem answers_map {f : α → β} (h : ∀ a, Q (f a)) (r : Except Fault α) : Answers Q (r.map f) := by
  cases r with
  | ok a => exact answers_ok (h a)
  | error e => exact answers_error e

theorem answers_bind {f : α → Except Fault β} (h : ∀ a, Answers Q (f a)) (r : Except Fault α) :
    Answers Q (r >>= f) := by
  cases r with
  | ok a => exact h a
  | error e => exact answers_error e

theorem answers_wrongCount (params : List String) (args : List Value) :
    Answers P (wrongCount params args) :=
  answers_error _

end Answers

theorem Operator.plain_arithmetic (h : Heap) (op : ArithOp) (a b : Value) :
    Answers Product.Plain (Operator.arithmetic h op a b) := by
  unfold Operator.arithmetic
  split
  · exact answers_map (fun n => .int n) _
  · exact answers_ok (.float _)
  · exact answers_ok (.float _)
  · exact answers_ok (.float _)
  · exact answers_ok trivial
  · unfold Operator.repetition
    split
    · exact answers_ok trivial
    · exact answers_error _
  · exact answers_error _

theorem Operator.plain_binary (h : Heap) (op : BinaryOp) (a b : Value) :
    Answers Product.Plain (Operator.binary h op a b) := by
  unfold Operator.binary
  cases op with
  | arith op => exact Operator.plain_arithmetic h op a b
  | order question =>
    dsimp only
    split
    · exact answers_ok (.bool _)
    · exact answers_error _
  | eq => exact answers_ok (.bool _)
  | notEq => exact answers_ok (.bool _)

theorem Operator.plain_unary (h : Heap) (op : UnaryOp) (a : Value) :
    Answers Product.Plain (Operator.unary h op a) := by
  unfold Operator.unary
  split
  · exact answers_ok (.bool _)
  · exact answers_ok (.int _)
  · exact answers_ok (.float _)
  · exact answers_ok (.int _)
  · exact answers_ok (.float _)
  · exact answers_error _
  · exact answers_error _

theorem TextMethod.plain_apply (h : Heap) (s : String) (m : TextMethod) (args : List Value) :
    Answers Product.Plain (m.apply h s args) := by
  unfold TextMethod.apply
  split
  · exact answers_ok (.int _)
  · refine answers_bind (fun i => ?_) _
    exact answers_bind (fun c => answers_ok trivial) _
  · refine answers_bind (fun a => ?_) _
    refine answers_bind (fun b => ?_) _
    exact answers_bind (fun part => answers_ok trivial) _
  · exact answers_ok trivial
  · exact answers_ok trivial
  · exact answers_wrongCount _ _

theorem MathFunction.plain_extreme (h : Heap) (ints : Int64 → Int64 → Int64)
    (floats : Double → Double → Double) (a b : Value) :
    Answers Value.Plain (MathFunction.extreme h ints floats a b) := by
  unfold MathFunction.extreme
  split
  · exact answers_ok (.int _)
  · refine answers_bind (fun x => ?_) _
    exact answers_bind (fun y => answers_ok (.float _)) _

theorem MathFunction.plain_apply (h : Heap) (f : MathFunction) (args : List Value) :
    Answers Value.Plain (f.apply h args) := by
  unfold MathFunction.apply
  split
  · exact MathFunction.plain_extreme h _ _ _ _
  · exact MathFunction.plain_extreme h _ _ _ _
  · exact answers_map (fun x => .float _) _
  · exact answers_map (fun x => .float _) _
  · refine answers_bind (fun x => ?_) _
    exact answers_bind (fun y => answers_ok (.float _)) _
  · split
    · exact answers_map (fun x => .float _) _
    · exact answers_wrongCount _ _

theorem Conversion.plain_toInt (h : Heap) (v : Value) :
    Answers Value.Plain (Conversion.toInt h v) := by
  unfold Conversion.toInt
  split
  · exact answers_ok (.int _)
  · exact answers_ok (.int _)
  · refine answers_ok ?_
    cases Conversion.integer? _ with
    | some n => exact .int n
    | none => exact .null
  · exact answers_error _

theorem Conversion.plain_toFloat (h : Heap) (v : Value) :
    Answers Value.Plain (Conversion.toFloat h v) := by
  unfold Conversion.toFloat
  split
  · exact answers_ok (.float _)
  · exact answers_ok (.float _)
  · refine answers_ok ?_
    cases Conversion.number? _ with
    | some x => exact .float x
    | none => exact .null
  · exact answers_error _

/-! ## Calls of lists and maps -/

/-- The value that a call is given to store. -/
def ListCall.stored? : ListCall → Option Value
  | .assign _ v | .push v => some v
  | .len | .item _ | .pop => none

/-- What a call leaves in a list was there or is what was stored. -/
theorem ListCall.mem_after {call : ListCall} {items : Array Value} {v : Value}
    (h : v ∈ call.after items) : v ∈ items ∨ call.stored? = some v := by
  cases call with
  | len => exact Or.inl h
  | item index => exact Or.inl h
  | assign index a =>
    unfold ListCall.after at h
    dsimp only at h
    split at h
    · rename_i i hi
      rcases Array.mem_or_eq_of_mem_setIfInBounds h with hv | hv
      · exact Or.inl hv
      · exact Or.inr (hv ▸ rfl)
    · exact Or.inl h
  | push a =>
    rcases Array.mem_push.1 h with hv | hv
    · exact Or.inl hv
    · exact Or.inr (hv ▸ rfl)
  | pop =>
    have hlast : v ∈ items.pop.toList := Array.mem_toList_iff.2 h
    rw [Array.toList_pop] at hlast
    exact Or.inl (Array.mem_toList_iff.1 (List.dropLast_subset _ hlast))

/-- A call stores one of its arguments. -/
theorem ListMethod.stored_mem {h : Heap} {m : ListMethod} {args : List Value} {call : ListCall}
    {v : Value} (hcall : m.call h args = .ok call) (hv : call.stored? = some v) : v ∈ args := by
  have hmap : ∀ {r : Except Fault Int64} {f : Int64 → ListCall}, r.map f = .ok call →
      ∃ i, call = f i := by
    intro r f hr
    cases r with
    | ok i => exact ⟨i, (Except.ok.inj hr).symm⟩
    | error e => cases hr
  unfold ListMethod.call at hcall
  split at hcall
  · cases hcall
    cases hv
  · obtain ⟨i, rfl⟩ := hmap hcall
    cases hv
  · obtain ⟨i, rfl⟩ := hmap hcall
    cases hv
    exact List.mem_cons_of_mem _ List.mem_cons_self
  · cases hcall
    cases hv
    exact List.mem_cons_self
  · cases hcall
    cases hv
  · cases hcall

/-- The value that a call is given to store. -/
def MapCall.stored? : MapCall → Option Value
  | .store _ v => some v
  | .contains _ | .lookup _ => none

/-- What a call leaves in a table was there or is what was stored. -/
theorem MapCall.get?_after {call : MapCall} {t : Table} {k : MapKey} {v : Value}
    (h : (call.after t).get? k = some v) : t.get? k = some v ∨ call.stored? = some v := by
  cases call with
  | contains key => exact Or.inl h
  | lookup key => exact Or.inl h
  | store key a =>
    change (t.put (MapKey.ofValue key) a).get? k = some v at h
    rw [Assoc.get?_put] at h
    split at h
    · exact Or.inr h
    · exact Or.inl h

/-- A call stores one of its arguments. -/
theorem MapMethod.stored_mem {m : MapMethod} {args : List Value} {call : MapCall} {v : Value}
    (hcall : m.call args = .ok call) (hv : call.stored? = some v) : v ∈ args := by
  unfold MapMethod.call at hcall
  split at hcall
  · cases hcall
    cases hv
  · cases hcall
    cases hv
  · cases hcall
    cases hv
    exact List.mem_cons_of_mem _ List.mem_cons_self
  · cases hcall

/-! ## Acts -/

/-- The world with another heap. -/
def World.withHeap (w : World) (h : Heap) : World := { w with heap := h }

/-- One act on the world, with the value that is had by it; `A` tells the values that are at hand
before.  Nothing is ever stored but what is at hand, and properties are added only to objects that
were not there in the heap `old`, in which the step began that the act is part of. -/
inductive World.Act (old : Heap) (A : Value → Prop) (w : World) : Value → World → Prop where
  | print (line : String) : Act old A w .null (w.print line)
  | eprint (line : String) : Act old A w .null (w.eprint line)
  | input : Act old A w .null { w with console := w.console.read.2 }
  | clock : Act old A w .null w.readClock.2
  | text (content : String) :
      Act old A w (w.heap.newText content).1 (w.withHeap (w.heap.newText content).2)
  | list (items : Array Value) : (∀ v ∈ items, A v) →
      Act old A w (.list (w.heap.newList items).1) (w.withHeap (w.heap.newList items).2)
  | object (b : Bag) : (∀ x v, b.get? x = some v → A v) →
      Act old A w (.object (w.heap.newObject b).1) (w.withHeap (w.heap.newObject b).2)
  | table (m : MapMethod) :
      Act old A w (.function (.native (.map w.heap.newTable.1 m))) (w.withHeap w.heap.newTable.2)
  | items (r : ListRef) (f : Array Value → Array Value) :
      (∀ v ∈ f (w.heap.items r), v ∈ w.heap.items r ∨ A v) →
      Act old A w .null (w.withHeap (w.heap.modifyItems r f))
  | entries (t : TableRef) (f : Table → Table) :
      (∀ k v, (f (w.heap.table t)).get? k = some v → (w.heap.table t).get? k = some v ∨ A v) →
      Act old A w .null (w.withHeap (w.heap.modifyTable t f))
  | property (o : Value) (b b' : Bag) (x : String) (v : Value) :
      w.heap.bag? o = some b → Bag.set b x v = .ok b' → A o → A v →
      Act old A w .null (w.withHeap (w.heap.putBag o b'))
  | add (r : ObjectRef) (b b' : Bag) (x : String) (v : Value) :
      w.heap.bag? (.object r) = some b → Bag.add b x v = .ok b' → old.objects.size ≤ r.index →
      A (.object r) → A v → Act old A w .null (w.withHeap (w.heap.putBag (.object r) b'))

/-- More may be at hand. -/
theorem World.Act.mono {old : Heap} {A B : Value → Prop} {w w' : World} {v : Value}
    (h : Act old A w v w') (hAB : ∀ v, A v → B v) : Act old B w v w' := by
  cases h with
  | print line => exact .print line
  | eprint line => exact .eprint line
  | input => exact .input
  | clock => exact .clock
  | text content => exact .text content
  | list items hitems => exact .list items fun v hv => hAB v (hitems v hv)
  | object b hb => exact .object b fun x v hv => hAB v (hb x v hv)
  | table m => exact .table m
  | items r f hf => exact .items r f fun v hv => (hf v hv).imp_right (hAB v)
  | entries t f hf => exact .entries t f fun k v hv => (hf k v hv).imp_right (hAB v)
  | property o b b' x v hb hb' ho hv => exact .property o b b' x v hb hb' (hAB o ho) (hAB v hv)
  | add r b b' x v hb hb' hr ho hv => exact .add r b b' x v hb hb' hr (hAB _ ho) (hAB v hv)

end SmallScript
