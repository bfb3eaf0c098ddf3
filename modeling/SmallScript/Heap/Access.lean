/-
  What is asked of values: to be of some kind, to have a property, or to be as many as there are
  parameters.

  A value of the wrong kind is a fault that names its type.
-/
import SmallScript.Heap.Show
import SmallScript.Number.Arithmetic

namespace SmallScript

namespace Heap

/-! ## Kinds -/

/-- The complaint that a value is not of the kind that was expected. -/
def unexpected (h : Heap) (expected : String) (v : Value) : Fault :=
  .typeMismatch expected (h.typeName v)

def expectInt (h : Heap) : Value → Except Fault Int64
  | .int n => .ok n
  | v => .error (h.unexpected "int" v)

def expectFloat (h : Heap) : Value → Except Fault Double
  | .float x => .ok x
  | v => .error (h.unexpected "float" v)

/-- A number, an integer being taken as a float. -/
def expectNumber (h : Heap) : Value → Except Fault Double
  | .int n => .ok (Double.ofInt64 n)
  | .float x => .ok x
  | v => .error (h.unexpected "num" v)

def expectText (h : Heap) : Value → Except Fault String
  | .text t => .ok t.content
  | v => .error (h.unexpected "str" v)

/-! ## Properties -/

/-- Change the bag of a value, if the change is allowed. -/
def changeBag (v : Value) (change : Bag → Except Fault Bag) (refusal : Fault) (h : Heap) :
    Except Fault Unit × Heap :=
  match h.bag? v with
  | none => (.error refusal, h)
  | some b =>
    match change b with
    | .error f => (.error f, h)
    | .ok b => (.ok (), h.putBag v b)

/-- A change of a bag is refused and nothing is changed, or the changed bag is put in its place. -/
theorem changeBag_cases (v : Value) (change : Bag → Except Fault Bag) (refusal : Fault) (h : Heap) :
    (∃ f, h.changeBag v change refusal = (.error f, h)) ∨
      ∃ b b', h.bag? v = some b ∧ change b = .ok b' ∧
        h.changeBag v change refusal = (.ok (), h.putBag v b') := by
  unfold changeBag
  cases h.bag? v with
  | none => exact Or.inl ⟨refusal, rfl⟩
  | some b =>
    dsimp only
    cases hchange : change b with
    | error f => exact Or.inl ⟨f, rfl⟩
    | ok b' => exact Or.inr ⟨b, b', rfl, hchange, rfl⟩

/-- Give a property that is there another value. -/
def setProperty (v : Value) (name : String) (x : Value) (h : Heap) : Except Fault Unit × Heap :=
  h.changeBag v (fun b => Bag.set b name x) (.missingProperty name)

/-- Give a value a property that is not there. -/
def addProperty (v : Value) (name : String) (x : Value) (h : Heap) : Except Fault Unit × Heap :=
  h.changeBag v (fun b => Bag.add b name x)
    (.custom ("Can't add property " ++ name ++ " to " ++ h.typeName v))

end Heap

/-! ## Arguments -/

/-- The complaint about a wrong number of arguments. -/
def wrongCount {α : Type} (params : List String) (args : List Value) : Except Fault α :=
  .error (.arityMismatch params.length args.length)

end SmallScript
