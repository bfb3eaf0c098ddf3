/-
  What native functions do.

  A native function answers a value or fails, and may change the world; it never sees the frames of
  the script.  One that fails leaves the world as it was.
-/
import SmallScript.Library.Conversion
import SmallScript.Library.Mathematics
import SmallScript.Method.List
import SmallScript.Method.Map
import SmallScript.World

namespace SmallScript

/-- A map: an object whose functions share a table that is new and empty. -/
def Heap.newMap (h : Heap) : Value × Heap :=
  let (t, h) := h.newTable
  h.newNamed "map" (MapMethod.all.map fun m => (m.name, .function (.native (.map t m))))

/-- Call a function of the global frame. -/
def GlobalFunction.invoke (f : GlobalFunction) (args : List Value) (w : World) :
    Except Fault Value × World :=
  match f, args with
  | .print, [data] =>
    let line := w.heap.print data
    (.ok .null, w.print line)
  | .eprint, [data] =>
    let line := w.heap.print data
    (.ok .null, w.eprint line)
  | .input, [] =>
    let (word, console) := w.console.read
    { w with console }.finish (.ok ((word.map Product.text).getD (.value .null)))
  | .time, [] =>
    let (now, w) := w.readClock
    (.ok (.int now), w)
  | .int, [v] => (Conversion.toInt w.heap v, w)
  | .float, [v] => (Conversion.toFloat w.heap v, w)
  | .str, [v] =>
    let content := w.heap.print v
    w.finish (.ok (.text content))
  | .bool, [v] => (.ok (.bool v.isTruthy), w)
  | .map, [] => w.onHeap fun h => let (v, h) := h.newMap; (.ok v, h)
  | f, args => (wrongCount f.params args, w)

/-- Call a native function. -/
def Native.invoke (op : Native) (args : List Value) (w : World) : Except Fault Value × World :=
  match op with
  | .text owner m => w.finish (m.apply w.heap owner.content args)
  | .list owner m => w.onHeap (m.apply owner args)
  | .map table m => w.onHeap (m.apply table args)
  | .math f => (f.apply w.heap args, w)
  | .global f => f.invoke args w

end SmallScript
