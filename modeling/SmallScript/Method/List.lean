/-
  The methods of lists.

  A call whose arguments fit is a `ListCall`.  What it answers and what it leaves behind are told
  of a plain sequence of values; a call that fails leaves the sequence as it was.
-/
import SmallScript.Method.Text

namespace SmallScript

/-- A call of a list's method with arguments that fit. -/
inductive ListCall where
  | len
  | item (index : Int64)
  | assign (index : Int64) (value : Value)
  | push (value : Value)
  | pop

namespace ListCall

/-- What a call answers on a sequence. -/
def result (items : Array Value) : ListCall → Except Fault Value
  | len => .ok (.int (Int64.ofNat items.size))
  | item index => (position index items.size).map fun i => items[i]?.getD .null
  | assign index _ => (position index items.size).map fun _ => .null
  | push _ => .ok .null
  | pop =>
    match items.back? with
    | some v => .ok v
    | none => .error (.indexOutOfBounds (-1) 0)

/-- What a call leaves of a sequence. -/
def after (call : ListCall) (items : Array Value) : Array Value :=
  match call with
  | len | item _ => items
  | assign index value =>
    match position index items.size with
    | .ok i => items.setIfInBounds i value
    | .error _ => items
  | push value => items.push value
  | pop => items.pop

end ListCall

/-- The call of a method with these arguments. -/
def ListMethod.call (h : Heap) (m : ListMethod) (args : List Value) : Except Fault ListCall :=
  match m, args with
  | .len, [] => .ok .len
  | .item, [index] => (h.expectInt index).map .item
  | .assign, [index, value] => (h.expectInt index).map (.assign · value)
  | .push, [value] => .ok (.push value)
  | .pop, [] => .ok .pop
  | m, args => wrongCount m.params args

/-- Call a method of a list. -/
def ListMethod.apply (r : ListRef) (m : ListMethod) (args : List Value) (h : Heap) :
    Except Fault Value × Heap :=
  match m.call h args with
  | .error f => (.error f, h)
  | .ok call => (call.result (h.items r), h.modifyItems r call.after)

end SmallScript
