/-
  Native functions: what the language can do beyond its own functions.

  A native function is an operation with what it was bound to: a method of a string knows the
  string, a method of a list knows the list, the functions of a map know its table.  That is also
  its identity: the method of one string is the same function whenever it is asked for, and another
  function than the method of that name of another string.  Names and parameters are told here,
  for display and for the number of arguments; what the operations do is told in `Method` and
  `Library`.  An embedder may bring further functions.
-/

namespace SmallScript

/-! ## Identities -/

/-- A string: its text, and the number that tells it from other strings with that text. -/
structure Text where
  id : Nat
  content : String
deriving DecidableEq, Repr, Inhabited

/-- A list in the heap. -/
structure ListRef where
  index : Nat
deriving DecidableEq, Repr, Inhabited

/-- An object in the heap. -/
structure ObjectRef where
  index : Nat
deriving DecidableEq, Repr, Inhabited

/-- The table of a map in the heap. -/
structure TableRef where
  index : Nat
deriving DecidableEq, Repr, Inhabited

/-! ## Operations -/

inductive TextMethod where
  | len | item | slice | upper | lower
deriving DecidableEq, Repr

namespace TextMethod

def all : List TextMethod := [.len, .item, .slice, .upper, .lower]

def name : TextMethod → String
  | len => "len"
  | item => "at"
  | slice => "sub"
  | upper => "upper"
  | lower => "lower"

def params : TextMethod → List String
  | item => ["index"]
  | slice => ["from", "to"]
  | len | upper | lower => []

end TextMethod

inductive ListMethod where
  | len | item | assign | push | pop
deriving DecidableEq, Repr

namespace ListMethod

def all : List ListMethod := [.len, .item, .assign, .push, .pop]

def name : ListMethod → String
  | len => "len"
  | item => "at"
  | assign => "set"
  | push => "push"
  | pop => "pop"

def params : ListMethod → List String
  | item => ["index"]
  | assign => ["index", "value"]
  | push => ["value"]
  | len | pop => []

end ListMethod

inductive MapMethod where
  | contains | lookup | store
deriving DecidableEq, Repr

namespace MapMethod

def all : List MapMethod := [.contains, .lookup, .store]

def name : MapMethod → String
  | contains => "contains"
  | lookup => "get"
  | store => "set"

def params : MapMethod → List String
  | contains | lookup => ["key"]
  | store => ["key", "value"]

end MapMethod

/-- The functions of `math`. -/
inductive MathFunction where
  | max | min | floor | ceil | pow | sqrt
  | sin | cos | tan | asin | acos | atan | log | log10
deriving DecidableEq, Repr

namespace MathFunction

def all : List MathFunction :=
  [.max, .min, .floor, .ceil, .pow, .sqrt, .sin, .cos, .tan, .asin, .acos, .atan, .log, .log10]

def name : MathFunction → String
  | max => "max"
  | min => "min"
  | floor => "floor"
  | ceil => "ceil"
  | pow => "pow"
  | sqrt => "sqrt"
  | sin => "sin"
  | cos => "cos"
  | tan => "tan"
  | asin => "asin"
  | acos => "acos"
  | atan => "atan"
  | log => "log"
  | log10 => "log10"

def params : MathFunction → List String
  | max | min | pow => ["a", "b"]
  | _ => ["a"]

end MathFunction

/-- The functions that a script finds in its global frame. -/
inductive GlobalFunction where
  | print | eprint | input | time
  | int | float | str | bool
  | map
deriving DecidableEq, Repr

namespace GlobalFunction

def all : List GlobalFunction :=
  [.print, .eprint, .input, .time, .int, .float, .str, .bool, .map]

def name : GlobalFunction → String
  | print => "print"
  | eprint => "eprint"
  | input => "input"
  | time => "time"
  | int => "int"
  | float => "float"
  | str => "str"
  | bool => "bool"
  | map => "map"

def params : GlobalFunction → List String
  | input | time | map => []
  | int | float => ["value"]
  | print | eprint | str | bool => ["data"]

end GlobalFunction

/-- An operation with what it is bound to. -/
inductive Native where
  | text (owner : Text) (method : TextMethod)
  | list (owner : ListRef) (method : ListMethod)
  | map (table : TableRef) (method : MapMethod)
  | math (function : MathFunction)
  | global (function : GlobalFunction)
deriving DecidableEq, Repr

namespace Native

/-- The name that is shown. -/
def name : Native → String
  | text _ m => m.name
  | list _ m => m.name
  | map _ m => m.name
  | math f => f.name
  | global f => f.name

/-- The parameters, one for each argument that is expected. -/
def params : Native → List String
  | text _ m => m.params
  | list _ m => m.params
  | map _ m => m.params
  | math f => f.params
  | global f => f.params

def arity (n : Native) : Nat := n.params.length

end Native

/-- A function that an embedder brings: how it is told from others and how it is shown.  What it does
is the embedder's affair (`Host`). -/
structure HostFunction where
  id : Nat
  name : String
  params : List String
deriving DecidableEq, Repr, Inhabited

end SmallScript
