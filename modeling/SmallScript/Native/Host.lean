/-
  What the functions of an embedder do.

  An embedder may bind functions of its own, written in another language.  To a script they are like
  native functions: they are called with values, they answer a value or fail, and they may change the
  world, but never see the frames of the script.  Nothing else is known of them here, save what an
  embedder has no means to do: nothing can be taken out of the heap, and a line that was written
  cannot be taken back.
-/
import SmallScript.World

namespace SmallScript

/-- What each function of an embedder does with its arguments; it is called with as many of them as
it has parameters. -/
structure Host where
  invoke : HostFunction → List Value → World → Except Fault Value × World
  grows (f : HostFunction) (args : List Value) (w : World) : w.heap.Grows (invoke f args w).2.heap
  keepsOutput (f : HostFunction) (args : List Value) (w : World) :
    w.KeepsOutput (invoke f args w).2

/-- An embedder with nothing to add; none of its functions is ever bound to a name. -/
def Host.bare : Host where
  invoke _ _ w := (.ok .null, w)
  grows _ _ w := .refl w.heap
  keepsOutput _ _ w := .refl w

instance : Inhabited Host := ⟨.bare⟩

end SmallScript
