/-
  The libraries: which names a script finds in its global frame.

  The standard library has the global functions and the object `math`.  An embedder may bind other
  names as well (`Library.Sampler`).
-/
import SmallScript.Heap

namespace SmallScript

/-- Names with what they are to be bound to. -/
abbrev Bindings := List (String × Value)

namespace Library

def native (op : Native) : String × Value := (op.name, .function (.native op))

/-- The bindings of the standard library. -/
def standard (h : Heap) : Bindings × Heap :=
  let (math, h) := h.newNamed "math" (MathFunction.all.map fun f => native (.math f))
  (GlobalFunction.all.map (fun f => native (.global f)) ++ [("math", math)], h)

end Library

end SmallScript
