/-
  Quoted text, for looking at values.

  Everything that would not show, or would change what stands before it, is written as an escape.
-/
import SmallScript.Text.ClassTable

namespace SmallScript

namespace Quoted

/-- The number of a character in braces, in base sixteen without leading zeros. -/
def numeric (c : Char) : List Char :=
  ['\\', 'u', '\x7b'] ++ Nat.toDigits 16 c.toNat ++ ['\x7d']

/-- Whether a character would join the one before it.  The two halfwidth sound marks of katakana
only count as marks: they take a place of their own. -/
def joins (c : Char) : Bool :=
  ClassTable.holds ClassTable.graphemeExtend c.toNat && c != '\uff9e' && c != '\uff9f'

/-- Whether a character is shown by its number: it would join the one before it, or leave nothing
to see.  The plain space alone stands for itself. -/
def isHidden (c : Char) : Bool :=
  joins c
    || ClassTable.holds ClassTable.ignorable c.toNat
    || ClassTable.holds ClassTable.unprintable c.toNat && c != ' '

def escape (c : Char) : List Char :=
  match c with
  | '\x00' => ['\\', '0']
  | '\t' => ['\\', 't']
  | '\r' => ['\\', 'r']
  | '\n' => ['\\', 'n']
  | '"' => ['\\', '"']
  | '\\' => ['\\', '\\']
  | c => if isHidden c then numeric c else [c]

end Quoted

/-- A text between quotes. -/
def quoted (s : String) : String :=
  "\"" ++ String.ofList (s.toList.flatMap Quoted.escape) ++ "\""

end SmallScript
