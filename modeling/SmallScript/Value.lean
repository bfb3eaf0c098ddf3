/-
  Values.

  Null, truth values and numbers are what they are.  Everything else has an identity: a string
  and a function of a script carry a number that tells them from others with the same content, a
  list and an object are places in the heap.  `Value.same` compares identities; equality of the
  language is another matter (`Operator`).
-/
import SmallScript.Assoc
import SmallScript.Native
import SmallScript.Number.Double
import SmallScript.Tree

namespace SmallScript

/-- A frame of bindings, by its number. -/
structure FrameRef where
  index : Nat
deriving DecidableEq, Repr, Inhabited

/-- A frame and the frames around it, the nearest first.  A scope is never without a frame, and
what surrounds a frame is settled when the scope is made. -/
structure Scope where
  frame : FrameRef
  outer : List FrameRef
deriving DecidableEq, Repr, Inhabited

/-- A function of a script with the scope in which it was defined, told from others by its number;
an anonymous one has an empty name. -/
structure Closure where
  id : Nat
  name : String
  scope : Scope
  decl : FnDecl

/-- A function. -/
inductive Callable where
  | closure (c : Closure)
  | native (op : Native)
  | host (f : HostFunction)

inductive Value where
  | null
  | bool (b : Bool)
  | int (n : Int64)
  | float (x : Double)
  | text (t : Text)
  | list (r : ListRef)
  | object (r : ObjectRef)
  | function (f : Callable)

instance : Inhabited Value := ⟨.null⟩

/-- Named values: the properties of one value, or the bindings of one frame. -/
abbrev Bag : Type := Assoc String Value

namespace Callable

def name : Callable → String
  | closure c => c.name
  | native op => op.name
  | host f => f.name

def params : Callable → List String
  | closure c => c.decl.params
  | native op => op.params
  | host f => f.params

def arity (f : Callable) : Nat := f.params.length

def isNative : Callable → Bool
  | closure _ => false
  | native _ | host _ => true

/-- Whether two functions are one and the same. -/
def same : Callable → Callable → Bool
  | closure a, closure b => a.id == b.id
  | native a, native b => a == b
  | host a, host b => a == b
  | _, _ => false

/-- A function as it is printed. -/
def text (f : Callable) : String :=
  "<fn " ++ f.name ++ "(" ++ String.intercalate ", " f.params ++ ")>"

end Callable

namespace Value

/-- Only null and false count as false. -/
def isTruthy : Value → Bool
  | null => false
  | bool b => b
  | _ => true

def isNull : Value → Bool
  | null => true
  | _ => false

/-- Whether two values are one and the same string, list, object or function. -/
def same : Value → Value → Bool
  | text a, text b => a.id == b.id
  | list a, list b => a == b
  | object a, object b => a == b
  | function a, function b => a.same b
  | _, _ => false

/-- Equality for an embedder: by content where there is content, else by identity. -/
def contentEq : Value → Value → Bool
  | null, null => true
  | bool a, bool b => a == b
  | int a, int b => a == b
  | float a, float b => a.eqv b
  | text a, text b => a.content == b.content
  | a, b => a.same b

end Value

end SmallScript
