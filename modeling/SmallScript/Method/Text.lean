/-
  The methods of strings.  Positions and lengths count characters.
-/
import SmallScript.Operator
import SmallScript.Text.Casing

namespace SmallScript

/-- An index as a position among `length` items. -/
def position (index : Int64) (length : Nat) : Except Fault Nat :=
  if 0 ≤ index.toInt ∧ index.toInt < length then .ok index.toInt.toNat
  else .error (.indexOutOfBounds index length)

/-- An index moved to the nearest of the places `0` to `length`. -/
def clamped (index : Int64) (length : Nat) : Nat := min index.toInt.toNat length

namespace TextMethod

/-- The characters from one place to another. -/
def between (cs : List Char) (first last : Nat) : List Char := (cs.drop first).take (last - first)

/-- The characters between two indices, which are clamped first. -/
def sliced (s : String) (first last : Int64) : Except Fault String :=
  let a := clamped first s.length
  let b := clamped last s.length
  if a ≤ b then .ok (String.ofList (between s.toList a b)) else .error (.invalidRange a b)

/-- The character at an index, as a text. -/
def character (s : String) (index : Int64) : Except Fault String :=
  (position index s.length).map fun i => String.ofList (between s.toList i (i + 1))

/-- What a method of the text `s` answers. -/
def apply (h : Heap) (s : String) (m : TextMethod) (args : List Value) : Except Fault Product :=
  match m, args with
  | .len, [] => .ok (.value (.int (Int64.ofNat s.length)))
  | .item, [index] => do
    let i ← h.expectInt index
    let c ← character s i
    .ok (.text c)
  | .slice, [first, last] => do
    let a ← h.expectInt first
    let b ← h.expectInt last
    let part ← sliced s a b
    .ok (.text part)
  | .upper, [] => .ok (.text (upperCase s))
  | .lower, [] => .ok (.text (lowerCase s))
  | m, args => wrongCount m.params args

end TextMethod

end SmallScript
