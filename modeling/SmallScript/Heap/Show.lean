/-
  How values are shown: as they are printed, as their types are named in messages, and as they are
  inspected.

  A list is printed with its items.  Where a list comes up again inside itself, three points stand
  for it; a list that merely occurs twice is printed twice.  So a printer keeps the lists that are
  open on one stack, on which a list is put before its items and off which it is taken behind them
  (`Heap.writeValue`).  The lists on it are all different, so their number bounds the depth.

  Behind a value the stack is what it was before (`Heap.adds_writeValue`), so what is written of a
  value depends on the stack alone (`Heap.printInside`), and on the same one for all the items of a
  list (`Heap.printInside_list`).
-/
import SmallScript.Heap
import SmallScript.Number.FloatText
import SmallScript.Text.Quoted

namespace SmallScript

namespace Heap

/-- The name that an object carries, if it is a text. -/
def objectName? (h : Heap) (r : ObjectRef) : Option String :=
  match h.property? (.object r) nameProperty with
  | some (.text t) => some t.content
  | _ => none

/-- An object as it is printed: its name between braces. -/
def printObject (h : Heap) (r : ObjectRef) : String :=
  "\x7b" ++ (h.objectName? r).getD "new" ++ "\x7d"

/-- What stands for a list inside itself. -/
def recurrence : String := "[...]"

/-- A value as it is printed without the items of lists. -/
def flatText (h : Heap) : Value → String
  | .null => "null"
  | .bool b => if b then "true" else "false"
  | .int n => toString n.toInt
  | .float x => x.text
  | .text t => t.content
  | .list _ => recurrence
  | .object r => h.printObject r
  | .function f => f.text

end Heap

/-- What printing has come to: the text that is written, and the lists that are open, the one that
was opened last in front. -/
structure Printer where
  text : String := ""
  opened : List ListRef := []

namespace Printer

def put (p : Printer) (s : String) : Printer := { p with text := p.text ++ s }

def enter (p : Printer) (r : ListRef) : Printer := { p with opened := r :: p.opened }

/-- Close the list that was opened last. -/
def leave (p : Printer) : Printer := { p with opened := p.opened.tail }

/-- Write values one behind the other, with commas between them. -/
def each (write : Value → Printer → Printer) (vs : List Value) (p : Printer) : Printer :=
  match vs with
  | [] => p
  | v :: vs => vs.foldl (fun p v => write v (p.put ",")) (write v p)

/-- What `write` writes is told by the open lists, and it leaves them open. -/
def Adds (write : Value → Printer → Printer) (text : List ListRef → Value → String) : Prop :=
  ∀ v p, write v p = ⟨p.text ++ text p.opened v, p.opened⟩

theorem Adds.each {write : Value → Printer → Printer} {text : List ListRef → Value → String}
    (h : Adds write text) (vs : List Value) (p : Printer) :
    Printer.each write vs p =
      ⟨p.text ++ String.intercalate "," (vs.map (text p.opened)), p.opened⟩ := by
  cases vs with
  | nil => simp [Printer.each]
  | cons v vs =>
    induction vs generalizing v p with
    | nil =>
      rw [List.map_singleton, String.intercalate_singleton]
      exact h v p
    | cons w ws ih =>
      have hfirst : Printer.each write (v :: w :: ws) p =
          Printer.each write (w :: ws) ((write v p).put ",") := rfl
      rw [hfirst, ih, h v p]
      simp only [put, List.map_cons, String.intercalate_cons_cons, String.append_assoc]

end Printer

namespace Heap

/-- Write a value.  Each list that is opened takes one from `depth`. -/
def writeValue (h : Heap) : Nat → Value → Printer → Printer
  | depth + 1, .list r, p =>
    if r ∈ p.opened then p.put recurrence
    else
      ((((p.enter r).put "[").each (h.writeValue depth) (h.items r).toList).leave).put "]"
  | _, v, p => p.put (h.flatText v)

/-- A value as it is printed while the lists `opened` are being printed. -/
def printInside (h : Heap) (depth : Nat) (opened : List ListRef) (v : Value) : String :=
  (h.writeValue depth v { opened }).text

/-- A value as it is printed. -/
def print (h : Heap) (v : Value) : String := h.printInside (h.lists.size + 1) [] v

/-- Printing adds the text of a value and closes what it opens. -/
theorem adds_writeValue (h : Heap) (depth : Nat) :
    Printer.Adds (h.writeValue depth) (h.printInside depth) := by
  induction depth with
  | zero =>
    intro v p
    simp [printInside, writeValue, Printer.put]
  | succ depth ih =>
    intro v p
    cases v with
    | list r =>
      unfold printInside writeValue
      by_cases hr : r ∈ p.opened
      · rw [if_pos hr, if_pos hr]
        simp [Printer.put]
      · rw [if_neg hr, if_neg hr, ih.each, ih.each]
        simp [Printer.put, Printer.enter, Printer.leave, String.append_assoc]
    | _ => simp [printInside, writeValue, Printer.put]

theorem printInside_zero (h : Heap) (opened : List ListRef) (v : Value) :
    h.printInside 0 opened v = h.flatText v :=
  String.empty_append

theorem printInside_of_not_list {h : Heap} {v : Value} (hv : ∀ r, v ≠ .list r) (depth : Nat)
    (opened : List ListRef) : h.printInside depth opened v = h.flatText v := by
  cases depth with
  | zero => exact h.printInside_zero opened v
  | succ depth =>
    cases v with
    | list r => exact absurd rfl (hv r)
    | _ => exact String.empty_append

/-- The items of a list are all printed inside that list and the lists around it. -/
theorem printInside_list (h : Heap) (depth : Nat) (opened : List ListRef) (r : ListRef) :
    h.printInside (depth + 1) opened (.list r) =
      if r ∈ opened then recurrence
      else
        "[" ++ String.intercalate "," ((h.items r).toList.map (h.printInside depth (r :: opened)))
          ++ "]" := by
  unfold printInside
  rw [writeValue]
  by_cases hr : r ∈ opened
  · rw [if_pos hr, if_pos hr]
    exact String.empty_append
  · rw [if_neg hr, if_neg hr, (h.adds_writeValue depth).each]
    simp [Printer.put, Printer.enter, Printer.leave]
    rfl

/-- What a value is called in messages. -/
def typeName (h : Heap) : Value → String
  | .null => "null"
  | .bool _ => "bool"
  | .int _ => "int"
  | .float _ => "float"
  | .text _ => "str"
  | .list _ => "list"
  | .object r => h.printObject r
  | .function f => "<fn " ++ f.name ++ ">"

/-- A value as it is inspected: its kind, and its content between brackets. -/
def inspect (h : Heap) (v : Value) : String :=
  match v with
  | .null => "Null"
  | .bool _ => "Bool(" ++ h.print v ++ ")"
  | .int _ => "Int(" ++ h.print v ++ ")"
  | .float x => "Float(" ++ FloatLayout.inspected.text x ++ ")"
  | .text t => "Str(" ++ quoted t.content ++ ")"
  | .list _ => "List(" ++ h.print v ++ ")"
  | .object _ => "Object(" ++ h.print v ++ ")"
  | .function _ => "Function(" ++ h.print v ++ ")"

end Heap

/-- Names between brackets of some kind, quoted. -/
def quotedNames (names : List String) : String := String.intercalate ", " (names.map quoted)

/-- A bag as it is inspected: its names alone. -/
def Bag.inspect (b : Bag) : String := "\x7b" ++ quotedNames (Bag.names b) ++ "\x7d"

/-- A function as it is inspected; the scope of a function of a script is left out. -/
def Callable.inspect (f : Callable) : String :=
  "Function \x7b name: " ++ quoted f.name ++ ", params: [" ++ quotedNames f.params ++ "], native: "
    ++ toString f.isNative ++ " \x7d"

end SmallScript
