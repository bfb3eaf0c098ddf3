/-
  Upper and lower case of whole texts.

  A character may become several (`ß` becomes `SS`).  In lower case one letter depends on its
  place: a capital sigma that ends a word becomes the final sigma.
-/
import SmallScript.Text.CaseTable
import SmallScript.Text.ClassTable

namespace SmallScript

namespace Casing

/-- The image of a character outside the plain letters. -/
def image (expansions : Array (Nat × List Nat)) (runs : Array CaseTable.Run) (c : Char) :
    List Char :=
  match expansions.find? fun e => e.1 == c.toNat with
  | some e => e.2.map Char.ofNat
  | none =>
    match runs.findSome? fun r => r.apply? c.toNat with
    | some n => [Char.ofNat n]
    | none => [c]

def upperChar (c : Char) : List Char :=
  if c.toNat < 128 then [c.toUpper] else image CaseTable.upperExpansions CaseTable.upperRuns c

def lowerChar (c : Char) : List Char :=
  if c.toNat < 128 then [c.toLower] else image CaseTable.lowerExpansions CaseTable.lowerRuns c

/-- Whether the nearest character that decides is cased. -/
def reachesCased (cs : List Char) : Bool :=
  match cs.dropWhile fun c => ClassTable.holds ClassTable.caseIgnorable c.toNat with
  | [] => false
  | c :: _ => ClassTable.holds ClassTable.cased c.toNat

/-- The small sigma at the end of a word, or elsewhere; `before` is the text before it, nearest
character first. -/
def sigma (before behind : List Char) : Char :=
  if reachesCased before && !reachesCased behind then 'ς' else 'σ'

/-- Lower case of a text behind `before`, nearest character first. -/
def lowerFrom (before : List Char) : List Char → List Char
  | [] => []
  | c :: cs =>
    (if c = 'Σ' then [sigma before cs] else lowerChar c) ++ lowerFrom (c :: before) cs

end Casing

def upperCase (s : String) : String := String.ofList (s.toList.flatMap Casing.upperChar)

def lowerCase (s : String) : String := String.ofList (Casing.lowerFrom [] s.toList)

end SmallScript
