/-
  The functions of maps.

  A map is a table from keys to values; storing under a key that is there replaces its value.
-/
import SmallScript.Method.Text

namespace SmallScript

/-- A call of a map's function with the right number of arguments. -/
inductive MapCall where
  | contains (key : Value)
  | lookup (key : Value)
  | store (key value : Value)

namespace MapCall

/-- What a call answers on a table. -/
def result (t : Table) : MapCall → Value
  | contains key => .bool (t.contains (MapKey.ofValue key))
  | lookup key => (t.get? (MapKey.ofValue key)).getD .null
  | store _ value => value

/-- What a call leaves of a table. -/
def after (call : MapCall) (t : Table) : Table :=
  match call with
  | contains _ | lookup _ => t
  | store key value => t.put (MapKey.ofValue key) value

end MapCall

/-- The call of a function with these arguments. -/
def MapMethod.call (m : MapMethod) (args : List Value) : Except Fault MapCall :=
  match m, args with
  | .contains, [key] => .ok (.contains key)
  | .lookup, [key] => .ok (.lookup key)
  | .store, [key, value] => .ok (.store key value)
  | m, args => wrongCount m.params args

/-- Call a function of a map. -/
def MapMethod.apply (t : TableRef) (m : MapMethod) (args : List Value) (h : Heap) :
    Except Fault Value × Heap :=
  match m.call args with
  | .error f => (.error f, h)
  | .ok call => (.ok (call.result (h.table t)), h.modifyTable t call.after)

end SmallScript
