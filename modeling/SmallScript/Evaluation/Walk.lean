/-
  What each node of a tree means.

  `evaluate` and `execute` say what one node does; for the nodes inside they ask a `Walker`, so
  neither of them recurses.  `walker n` is the walker that goes `n` levels deep: below that it is
  exhausted.  A loop takes no level for its rounds, but there is a bound on their number too.

  A script that ends at some depth ends in the same way at every greater one.
-/
import SmallScript.Evaluation.State
import SmallScript.Literal

namespace SmallScript

/-- The rules that an embedder chooses. -/
structure Config where
  /-- Whether a fault inside a function of a script fails its call; else the call yields null. -/
  strict : Bool := false
  /-- How many functions of scripts may be executed inside each other. -/
  maxDepth : Nat := 20000
  /-- What the functions do that the embedder brings. -/
  host : Host := .bare
deriving Inhabited

/-- How the nodes inside a node are evaluated and executed. -/
structure Walker where
  eval : Expr → Eval Value
  exec : Stmt → Eval Unit
  /-- The most rounds that a loop may take. -/
  rounds : Nat

namespace Walker

variable (w : Walker) (config : Config)

/-! ## Sequences -/

/-- Execute statements one after the other. -/
def execAll : List Stmt → Eval Unit
  | [] => pure ()
  | t :: ts => do
    w.exec t
    execAll ts

/-- Evaluate expressions one after the other. -/
def evalAll : List Expr → Eval (List Value)
  | [] => pure []
  | e :: es => do
    let v ← w.eval e
    let vs ← evalAll es
    pure (v :: vs)

/-- Give an object its members, one after the other: the value of each is computed, and then the
property is added.  So a name that is there already is found out only after its value was computed,
and while a value is computed the object is there with the members before. -/
def addAll (r : ObjectRef) : List Member → Eval Unit
  | [] => pure ()
  | m :: ms => do
    let v ← w.eval m.value
    Eval.tryHeap (Heap.addProperty (.object r) m.name.name v)
    addAll r ms

/-! ## Literals -/

/-- The value of a literal.  It is computed by the first evaluation of its node that succeeds. -/
def literal (id : NodeId) (meaning : Unit → Except Fault Product) : Eval Value := do
  match ← Eval.look fun s => s.memo.literals.get? id with
  | some v => pure v
  | none =>
    let v ← Eval.produce fun _ => meaning ()
    Eval.onMemo fun memo => { memo with literals := memo.literals.put id v }
    pure v

/-- The list of a list literal, which is made by the first evaluation of its node. -/
def listOf (id : NodeId) : Eval ListRef := do
  match ← Eval.look fun s => s.memo.lists.get? id with
  | some r => pure r
  | none =>
    let r ← Eval.onHeap (Heap.newList #[])
    Eval.onMemo fun memo => { memo with lists := memo.lists.put id r }
    pure r

/-- Evaluate expressions one after the other, and push each value at once. -/
def pushAll (r : ListRef) : List Expr → Eval Unit
  | [] => pure ()
  | e :: es => do
    let v ← w.eval e
    Eval.onHeap fun h => ((), h.modifyItems r (·.push v))
    pushAll r es

/-! ## Calls -/

/-- What becomes of a fault inside a function. -/
def contain (f : Fault) : Eval Value := if config.strict then Eval.fail f else pure .null

/-- How a call ends when the body of the function has ended. -/
def finishCall (body : Eval Unit) : Eval Value := fun s =>
  match body s with
  | .done _ s => .done .null s
  | .unwound (.return v) s => .done v s
  | .unwound (.jump j) s => contain config (.jumpOutsideLoop j) s
  | .unwound (.fault f) s => contain config f s
  | .exhausted => .exhausted

/-- Call a function of a script with the right number of arguments.  Its body is executed in a new
frame inside the scope in which the function was defined. -/
def callClosure (c : Closure) (args : List Value) : Eval Value := do
  let depth ← Eval.look State.depth
  if config.maxDepth ≤ depth then contain config (.callDepthExceeded config.maxDepth)
  else
    let scope ← Eval.onFrames fun fs =>
      let (scope, fs) := fs.openChild c.scope
      (scope, fs.defineAll scope.frame (c.decl.params.zip args))
    finishCall config (Eval.counted (Eval.inScope scope (w.execAll c.decl.body.stmts)))

/-- Call a function. -/
def call (f : Callable) (args : List Value) : Eval Value :=
  if args.length = f.arity then
    match f with
    | .native op => Eval.tryWorld (op.invoke args)
    | .host f => Eval.tryWorld (config.host.invoke f args)
    | .closure c => w.callClosure config c args
  else Eval.fail (.arityMismatch f.arity args.length)

/-- The function that a value is. -/
def asFunction (v : Value) : Eval Callable := do
  match v with
  | .function f => pure f
  | v => Eval.fail (← Eval.look fun s => s.world.heap.unexpected "<fn>" v)

/-! ## Loops -/

/-- Whether a loop goes on after its body. -/
def goesOn (body : Eval Unit) : Eval Bool := fun s =>
  match body s with
  | .done _ s => .done true s
  | .unwound (.jump .continue) s => .done true s
  | .unwound (.jump .break) s => .done false s
  | .unwound u s => .unwound u s
  | .exhausted => .exhausted

/-- One round of a loop: whether there is another. -/
def round (test : Expr) (step : Eval Unit) (body : Stmt) : Eval Bool := do
  if (← w.eval test).isTruthy then
    if ← goesOn (w.exec body) then
      step
      pure true
    else pure false
  else pure false

/-- Take rounds until there is no other. -/
def repeated (round : Eval Bool) : Nat → Eval Unit
  | 0 => Eval.exhausted
  | n + 1 => fun s =>
    match round s with
    | .done true s => repeated round n s
    | .done false s => .done () s
    | .unwound u s => .unwound u s
    | .exhausted => .exhausted

/-- A loop is its first round, and then perhaps the others. -/
theorem repeated_succ (round : Eval Bool) (n : Nat) :
    repeated round (n + 1) =
      round >>= fun more => if more then repeated round n else pure () := by
  funext s
  show repeated round (n + 1) s = Eval.bind round _ s
  rw [repeated, Eval.bind]
  dsimp only
  cases round s with
  | done more t => cases more <;> rfl
  | unwound u t => rfl
  | exhausted => rfl

/-! ## Nodes -/

/-- The value of an expression. -/
def evaluate : Expr → Eval Value
  | .int _ id raw => literal id fun _ => (Literal.int raw).map fun n => .value (.int n)
  | .float _ id raw => literal id fun _ => (Literal.float raw).map fun x => .value (.float x)
  | .string _ id raw => literal id fun _ => (Literal.text raw).map .text
  | .bool _ b => pure (.bool b)
  | .null _ => pure .null
  | .list _ id items => do
    let r ← listOf id
    Eval.onHeap fun h => ((), h.modifyItems r fun _ => #[])
    w.pushAll r items
    pure (.list r)
  | .object _ members => do
    let r ← Eval.onHeap (Heap.newObject {})
    w.addAll r members
    pure (.object r)
  | .name _ x => do
    let r ← Eval.look fun s => s.frames.read s.scope x
    Eval.ofExcept r
  | .property _ target x => do
    let v ← w.eval target
    match ← Eval.look fun s => s.world.heap.property? v x.name with
    | some p => pure p
    | none => Eval.fail (.undefinedProperty x.name)
  | .call _ callee args => do
    let f ← asFunction (← w.eval callee)
    let values ← w.evalAll args
    w.call config f values
  | .lambda _ decl => do
    let scope ← Eval.look State.scope
    Eval.onHeap (Heap.newClosure "" scope decl)
  | .binary _ op left right => do
    let a ← w.eval left
    let b ← w.eval right
    Eval.produce fun h => Operator.binary h op a b
  | .unary _ op operand => do
    let a ← w.eval operand
    Eval.produce fun h => Operator.unary h op a
  | .logical _ op left right => do
    let a ← w.eval left
    let decided :=
      match op with
      | .and => !a.isTruthy
      | .or => a.isTruthy
    if decided then pure a else w.eval right
  | .coalesce _ left right => do
    let a ← w.eval left
    if a.isNull then w.eval right else pure a

/-- Note that a definition is executed.  The first time, its name must be free in the frame. -/
def noteDefinition (id : NodeId) (name : String) : Eval Unit := do
  let known ← Eval.look fun s => s.memo.defined.contains id
  if known then pure ()
  else if ← Eval.look fun s => (s.frames.local? s.scope.frame name).isSome then
    Eval.fail (.functionExists name)
  else Eval.onMemo fun memo => { memo with defined := id :: memo.defined }

/-- Execute the statements of a block in a new frame. -/
def execBlock (b : Block) : Eval Unit := do
  let outer ← Eval.look State.scope
  let scope ← Eval.onFrames fun fs => fs.openChild outer
  Eval.inScope scope (w.execAll b.stmts)

/-- The effect of a statement. -/
def execute : Stmt → Eval Unit
  | .expr e => do
    let _ ← w.eval e
    pure ()
  | .assign _ x e => do
    let target ← Eval.look fun s => s.frames.owner s.scope x.name
    let v ← w.eval e
    Eval.define target x.name v
  | .assignProperty _ target x e => do
    let o ← w.eval target
    let v ← w.eval e
    Eval.tryHeap (Heap.setProperty o x.name v)
  | .define _ id x decl => do
    noteDefinition id x.name
    let scope ← Eval.look State.scope
    let f ← Eval.onHeap (Heap.newClosure x.name scope decl)
    Eval.define scope.frame x.name f
  | .cond _ test yes no => do
    if (← w.eval test).isTruthy then w.exec yes
    else
      match no with
      | some no => w.exec no
      | none => pure ()
  | .while _ test body => repeated (w.round test (pure ()) body) w.rounds
  | .for _ init test step body => do
    w.exec init
    repeated (w.round test (w.exec step) body) w.rounds
  | .break _ => Eval.unwind (.jump .break)
  | .continue _ => Eval.unwind (.jump .continue)
  | .return _ none => Eval.unwind (.return .null)
  | .return _ (some e) => do
    let v ← w.eval e
    Eval.unwind (.return v)
  | .write _ e => do
    let v ← w.eval e
    Eval.onWorld fun world =>
      let line := world.heap.print v
      ((), world.print line)
  | .block b => w.execBlock b

end Walker

/-- The walker that goes some levels deep. -/
def walker (config : Config) : Nat → Walker
  | 0 => ⟨fun _ => Eval.exhausted, fun _ => Eval.exhausted, 0⟩
  | n + 1 =>
    { eval := fun e s => (walker config n).evaluate config e s
      exec := fun t s => (walker config n).execute t s
      rounds := n + 1 }

end SmallScript
