/-
  The world of a script: everything that a native function can look at or change.

  Whatever is done to the world, what was written to the console stays written (`KeepsOutput`).
-/
import SmallScript.Console
import SmallScript.Operator

namespace SmallScript

/-- A clock that counts milliseconds.  It is set by whoever starts a script. -/
structure Clock where
  now : Int64 := 0
deriving DecidableEq, Repr, Inhabited

/-- How time goes by while a script runs: by how much the clock has moved on behind each of its
readings.  Nobody chooses that, so what is proved of scripts is proved for every course of time. -/
structure TimeCourse where
  steps : Nat → Int64 := fun _ => 1
  /-- How often the clock was read. -/
  readings : Nat := 0

structure World where
  heap : Heap := {}
  console : Console := {}
  clock : Clock := {}
  course : TimeCourse := {}

namespace World

instance : Inhabited World := ⟨{}⟩

/-- Change the heap alone. -/
def onHeap {α : Type} (f : Heap → α × Heap) (w : World) : α × World :=
  match w with
  | ⟨heap, console, clock, course⟩ =>
    let (a, heap) := f heap
    (a, ⟨heap, console, clock, course⟩)

/-- The value of a result, which may be a string that is to be made. -/
def finish (result : Except Fault Product) (w : World) : Except Fault Value × World :=
  match result with
  | .error f => (.error f, w)
  | .ok p => w.onHeap fun h => let (v, h) := h.make p; (.ok v, h)

/-- Write a line to the output. -/
def print (line : String) (w : World) : World :=
  match w with
  | ⟨heap, console, clock, course⟩ => ⟨heap, console.print line, clock, course⟩

/-- Write a line to the error output. -/
def eprint (line : String) (w : World) : World :=
  match w with
  | ⟨heap, console, clock, course⟩ => ⟨heap, console.eprint line, clock, course⟩

/-- Read the clock. -/
def readClock (w : World) : Int64 × World :=
  let now := w.clock.now
  let course := w.course
  (now,
    { w with
      clock := ⟨now + course.steps course.readings⟩
      course := { course with readings := course.readings + 1 } })

/-! ### Output -/

/-- All that was written is still there, and there may be more behind it. -/
structure KeepsOutput (w w' : World) : Prop where
  out : w.console.out.toList <+: w'.console.out.toList
  err : w.console.err.toList <+: w'.console.err.toList

/-- Whoever leaves the console alone writes nothing. -/
theorem KeepsOutput.of_console {w w' : World} (h : w'.console = w.console) : w.KeepsOutput w' :=
  ⟨h ▸ List.prefix_refl _, h ▸ List.prefix_refl _⟩

theorem KeepsOutput.refl (w : World) : w.KeepsOutput w := .of_console rfl

theorem KeepsOutput.trans {u v w : World} (huv : u.KeepsOutput v) (hvw : v.KeepsOutput w) :
    u.KeepsOutput w :=
  ⟨huv.out.trans hvw.out, huv.err.trans hvw.err⟩

/-- Making a string writes nothing, and takes nothing away. -/
theorem grows_finish (result : Except Fault Product) (w : World) :
    w.heap.Grows (w.finish result).2.heap := by
  cases result with
  | error f => exact .refl _
  | ok p =>
    cases p with
    | value v => exact .refl _
    | text content => exact .newText _ content

theorem keepsOutput_finish (result : Except Fault Product) (w : World) :
    w.KeepsOutput (w.finish result).2 := by
  cases result <;> exact .of_console rfl

end World

end SmallScript
