/-
  JSON as an output format: a document type and its indented text.

  Arrays and objects are written one item a line, indented by two blanks a level; an empty one is
  written on the line of its opening bracket.  In a string only the quote, the backslash and the
  control characters are escaped.
-/

namespace SmallScript

/-- A JSON document without fractions: all numbers written here are counts. -/
inductive Json where
  | number (n : Nat)
  | string (s : String)
  | array (items : List Json)
  | object (members : List (String × Json))

namespace Json

/-- A hexadecimal digit, in lower case. -/
def hexDigit (n : Nat) : Char := if n < 10 then Char.ofNat (48 + n) else Char.ofNat (87 + n)

/-- A character inside quotes. -/
def escape (c : Char) : List Char :=
  match c with
  | '"' => ['\\', '"']
  | '\\' => ['\\', '\\']
  | '\n' => ['\\', 'n']
  | '\r' => ['\\', 'r']
  | '\t' => ['\\', 't']
  | '\x08' => ['\\', 'b']
  | '\x0c' => ['\\', 'f']
  | c =>
    if c.toNat < 0x20 then
      ['\\', 'u', '0', '0', hexDigit (c.toNat / 16), hexDigit (c.toNat % 16)]
    else [c]

/-- A string between quotes. -/
def quote (s : String) : String := "\"" ++ String.ofList (s.toList.flatMap escape) ++ "\""

/-- A new line at the given depth. -/
def newline (depth : Nat) : String := "\n" ++ String.ofList (List.replicate (2 * depth) ' ')

mutual

/-- The text of a document that begins at the given depth. -/
def textAt (depth : Nat) : Json → String
  | number n => toString n
  | string s => quote s
  | array [] => "[]"
  | array (item :: items) =>
    "[" ++ newline (depth + 1) ++ textAt (depth + 1) item ++ itemsText depth items
      ++ newline depth ++ "]"
  | object [] => "\x7b\x7d"
  | object ((name, value) :: members) =>
    "\x7b" ++ newline (depth + 1) ++ quote name ++ ": " ++ textAt (depth + 1) value
      ++ membersText depth members ++ newline depth ++ "\x7d"

/-- The items of an array behind its first. -/
def itemsText (depth : Nat) : List Json → String
  | [] => ""
  | item :: items =>
    "," ++ newline (depth + 1) ++ textAt (depth + 1) item ++ itemsText depth items

/-- The members of an object behind its first. -/
def membersText (depth : Nat) : List (String × Json) → String
  | [] => ""
  | (name, value) :: members =>
    "," ++ newline (depth + 1) ++ quote name ++ ": " ++ textAt (depth + 1) value
      ++ membersText depth members

end

/-- The text of a document. -/
def text (j : Json) : String := j.textAt 0

end Json

end SmallScript
