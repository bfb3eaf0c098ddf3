/-
  The state of an evaluation, and the ways it can end.

  An evaluation step takes a state and ends in one of three ways: it is done with a value, it
  unwinds because of a signal or a fault, or it has run out of the depth that it was given.  In the
  first two cases there is a state behind it; a fault undoes nothing of what was done before it.
-/
import SmallScript.Frames
import SmallScript.Native.Host
import SmallScript.Native.Invoke

namespace SmallScript

/-- Why an evaluation is left early. -/
inductive Unwind where
  | return (v : Value)
  | jump (j : Jump)
  | fault (f : Fault)

/-- What is remembered of nodes, by their numbers. -/
structure Memo where
  /-- The values of literals. -/
  literals : Assoc NodeId Value := {}
  /-- The lists that list literals fill. -/
  lists : Assoc NodeId ListRef := {}
  /-- The definitions that have been executed. -/
  defined : List NodeId := []

instance : Inhabited Memo := ⟨{}⟩

structure State where
  world : World
  frames : Frames
  memo : Memo
  /-- Where names are looked up and bound. -/
  scope : Scope
  globals : Scope
  /-- How many functions of scripts are being executed. -/
  depth : Nat

instance : Inhabited State := ⟨⟨{}, {}, {}, default, default, 0⟩⟩

inductive Outcome (α : Type) where
  | done (a : α) (s : State)
  | unwound (u : Unwind) (s : State)
  | exhausted

instance {α : Type} : Inhabited (Outcome α) := ⟨.exhausted⟩

/-- The outcome with its state changed. -/
@[inline]
def Outcome.onState {α : Type} (f : State → State) : Outcome α → Outcome α
  | .done a s => .done a (f s)
  | .unwound u s => .unwound u (f s)
  | .exhausted => .exhausted

/-- A step of an evaluation. -/
def Eval (α : Type) := State → Outcome α

namespace Eval

variable {α β : Type}

@[always_inline, inline]
protected def pure (a : α) : Eval α := fun s => .done a s

@[always_inline, inline]
protected def bind (x : Eval α) (f : α → Eval β) : Eval β := fun s =>
  match x s with
  | .done a s => f a s
  | .unwound u s => .unwound u s
  | .exhausted => .exhausted

@[always_inline]
instance : Monad Eval where
  pure := Eval.pure
  bind := Eval.bind

/-! ## Steps that end early -/

def exhausted : Eval α := fun _ => .exhausted

def unwind (u : Unwind) : Eval α := fun s => .unwound u s

def fail (f : Fault) : Eval α := unwind (.fault f)

/-- The value of a result, or its fault. -/
def ofExcept (r : Except Fault α) : Eval α :=
  match r with
  | .ok a => pure a
  | .error f => fail f

/-! ## Steps that look at the state or change it -/

/-- What is seen in the state now.  It is not inlined, so it is computed now, and does not keep
this state alive until it is used. -/
@[noinline]
def look (f : State → α) : Eval α := fun s => .done (f s) s

/-- Change the world. -/
def onWorld (f : World → α × World) : Eval α := fun s =>
  match s with
  | ⟨world, frames, memo, scope, globals, depth⟩ =>
    let (a, world) := f world
    .done a ⟨world, frames, memo, scope, globals, depth⟩

def onHeap (f : Heap → α × Heap) : Eval α := onWorld (World.onHeap f)

/-- Change the world, or fail. -/
def tryWorld (f : World → Except Fault α × World) : Eval α := do
  let r ← onWorld f
  ofExcept r

def tryHeap (f : Heap → Except Fault α × Heap) : Eval α := tryWorld (World.onHeap f)

/-- The value of the result that is seen in the heap. -/
def produce (result : Heap → Except Fault Product) : Eval Value :=
  tryWorld fun w =>
    let r := result w.heap
    w.finish r

def onFrames (f : Frames → α × Frames) : Eval α := fun s =>
  match s with
  | ⟨world, frames, memo, scope, globals, depth⟩ =>
    let (a, frames) := f frames
    .done a ⟨world, frames, memo, scope, globals, depth⟩

/-- Bind a name in a frame. -/
def define (f : FrameRef) (name : String) (v : Value) : Eval Unit :=
  onFrames fun fs => ((), fs.define f name v)

def onMemo (f : Memo → Memo) : Eval Unit := fun s =>
  match s with
  | ⟨world, frames, memo, scope, globals, depth⟩ =>
    .done () ⟨world, frames, f memo, scope, globals, depth⟩

/-! ## Inside a frame or a call -/

/-- Take a step between two changes of the state.  What `enter` sets aside is given to `leave`, which
is done however the step ends. -/
@[inline]
def within {σ : Type} (enter : State → σ × State) (leave : σ → State → State) (step : Eval α) :
    Eval α := fun s =>
  let (saved, s) := enter s
  (step s).onState (leave saved)

/-- Take a step in another scope, and put the old one back behind it. -/
def inScope (scope : Scope) (step : Eval α) : Eval α :=
  within
    (fun ⟨world, frames, memo, saved, globals, depth⟩ =>
      (saved, ⟨world, frames, memo, scope, globals, depth⟩))
    (fun saved ⟨world, frames, memo, _, globals, depth⟩ =>
      ⟨world, frames, memo, saved, globals, depth⟩)
    step

/-- Count one more function before a step and one less behind it. -/
def counted (step : Eval α) : Eval α :=
  within
    (fun ⟨world, frames, memo, scope, globals, depth⟩ =>
      ((), ⟨world, frames, memo, scope, globals, depth + 1⟩))
    (fun _ ⟨world, frames, memo, scope, globals, depth⟩ =>
      ⟨world, frames, memo, scope, globals, depth - 1⟩)
    step

end Eval

end SmallScript
