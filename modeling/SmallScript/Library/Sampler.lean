/-
  The sampler: a small library of an embedder.

  It shows what an embedder can add to the standard library: an object with functions and a constant,
  a function that makes a list and a function that always fails.
-/
import SmallScript.Heap.Access
import SmallScript.Library
import SmallScript.Native.Host

namespace SmallScript

namespace Sampler

def inc : HostFunction := ⟨0, "inc", ["n"]⟩

def half : HostFunction := ⟨1, "half", ["x"]⟩

def shout : HostFunction := ⟨2, "shout", ["s"]⟩

def triple : HostFunction := ⟨3, "triple", ["a", "b", "c"]⟩

def fail : HostFunction := ⟨4, "fail", ["why"]⟩

/-- Call a function of the sampler. -/
def invoke (f : HostFunction) (args : List Value) (w : World) : Except Fault Value × World :=
  match f.id, args with
  | 0, [n] => ((w.heap.expectInt n).map fun n => .int (n + 1), w)
  | 1, [x] => ((w.heap.expectNumber x).map fun x => .float (x.div (Double.ofInt64 2)), w)
  | 2, [s] => w.finish ((w.heap.expectText s).map fun s => .text (s ++ "!"))
  | 3, [a, b, c] => w.onHeap fun h => let (r, h) := h.newList #[a, b, c]; (.ok (.list r), h)
  | 4, [why] => (.error (.custom (w.heap.print why)), w)
  | _, args => (wrongCount f.params args, w)

end Sampler

/-- What the functions of the sampler do. -/
def Host.sampler : Host where
  invoke := Sampler.invoke
  grows f args w := by
    unfold Sampler.invoke
    split
    · exact .refl _
    · exact .refl _
    · exact w.grows_finish _
    · exact .newList _ _
    · exact .refl _
    · exact .refl _
  keepsOutput f args w := by
    unfold Sampler.invoke
    split
    · exact .refl w
    · exact .refl w
    · exact w.keepsOutput_finish _
    · exact .of_console rfl
    · exact .refl w
    · exact .refl w

namespace Library

def hosted (f : HostFunction) : String × Value := (f.name, .function (.host f))

/-- The bindings of the sampler. -/
def sampler (h : Heap) : Bindings × Heap :=
  let members := [Sampler.inc, Sampler.half, Sampler.shout].map hosted
  let (util, h) := h.newNamed "util" (members ++ [("answer", .int 42)])
  (("util", util) :: [Sampler.triple, Sampler.fail].map hosted, h)

end Library

end SmallScript
