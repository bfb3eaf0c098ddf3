/-
  The interpreter: a state, and what can be asked of it.

  An embedder starts a state with the libraries that a script may use, and then runs programs in it,
  or executes single statements, evaluates expressions and calls functions.  Only `run` forgets what
  was remembered of nodes; all else goes on where the last step ended.
-/
import SmallScript.Evaluation.Walk

namespace SmallScript

/-- How a run failed that was left early. -/
def RunFault.ofUnwind : Unwind → RunFault
  | .return _ => .returnOutsideFunction
  | .jump j => .jumpOutsideLoop j
  | .fault f => .fault f

/-- What a library binds; its objects are made in the heap. -/
abbrev Maker := Heap → Bindings × Heap

/-- The bindings of several libraries, in order. -/
def Maker.makeAll : List Maker → Heap → Bindings × Heap
  | [], h => ([], h)
  | make :: makers, h =>
    let (bindings, h) := make h
    let (rest, h) := makeAll makers h
    (bindings ++ rest, h)

namespace State

/-- A state with a global frame that holds the bindings of some libraries. -/
def start (libraries : List Maker) (console : Console) (clock : Clock) : State :=
  let (bindings, heap) := Maker.makeAll libraries {}
  let (globals, frames) := Frames.openGlobal {}
  { world := { heap, console, clock }
    frames := frames.defineAll globals.frame bindings
    memo := {}
    scope := globals
    globals
    depth := 0 }

/-- The state before a program: nothing is remembered of nodes, and the scope is the global one. -/
def ready (s : State) : State := { s with memo := {}, scope := s.globals, depth := 0 }

/-- What a global name is bound to. -/
def global (s : State) (name : String) : Except Fault Value := s.frames.read s.globals name

/-- Bind a name in the global frame. -/
def defineGlobal (name : String) (v : Value) (s : State) : State :=
  { s with frames := s.frames.define s.globals.frame name v }

/-- Whether the current scope is the global one. -/
def isAtGlobal (s : State) : Bool := s.scope == s.globals

end State

namespace Interpreter

/-- The depth that evaluations are given.  No machine lives to see its end. -/
def levels : Nat := 2 ^ 60

def walker (config : Config) : Walker := SmallScript.walker config levels

/-- Execute a whole program in the global frame. -/
def run (config : Config) (p : Program) : Eval Unit := fun s =>
  (walker config).execAll p.stmts s.ready

/-- Execute a statement. -/
def exec (config : Config) (t : Stmt) : Eval Unit := (walker config).exec t

/-- Evaluate an expression. -/
def eval (config : Config) (e : Expr) : Eval Value := (walker config).eval e

/-- Call a function with arguments that are values already. -/
def call (config : Config) (f : Callable) (args : List Value) : Eval Value :=
  (walker config).call config f args

end Interpreter

end SmallScript
