/-
  Tokens: the words of the language.

  A token is a kind and the span it was read from.  Literal kinds carry the text they were written
  with; turning that text into a value is left to evaluation.  `Kind.text` is the other direction:
  how a kind is written.
-/
import SmallScript.Source.Span

namespace SmallScript

/-- The reserved words; none of them can name a variable, a function or a property. -/
inductive Keyword where
  | fn | if | else | while | for | return | break | continue | write
  | new | true | false | null | and | or | not
deriving DecidableEq, Repr

namespace Keyword

/-- Every reserved word: those of statements, then those of expressions. -/
def all : List Keyword :=
  [.fn, .if, .else, .while, .for, .return, .break, .continue, .write,
   .new, .true, .false, .null, .and, .or, .not]

def text : Keyword → String
  | .fn => "fn"
  | .if => "if"
  | .else => "else"
  | .while => "while"
  | .for => "for"
  | .return => "return"
  | .break => "break"
  | .continue => "continue"
  | .write => "write"
  | .new => "new"
  | .true => "true"
  | .false => "false"
  | .null => "null"
  | .and => "and"
  | .or => "or"
  | .not => "not"

/-- The reserved word written `s`, in exactly this case. -/
def ofText? (s : String) : Option Keyword := all.find? fun k => k.text = s

theorem mem_all (k : Keyword) : k ∈ all := by cases k <;> decide

@[simp] theorem ofText?_text (k : Keyword) : ofText? k.text = some k := by cases k <;> decide

/-- Only these begin a statement and nothing else; reading resumes before them after an error. -/
def startsStatement : Keyword → Bool
  | .if | .while | .for | .return | .break | .continue | .write => Bool.true
  | _ => Bool.false

end Keyword

/-- Operators and punctuation. -/
inductive Symbol where
  | plus | minus | star | slash | percent
  | eqEq | bangEq | less | lessEq | greater | greaterEq
  | eq | question | dot
  | lparen | rparen | lbrace | rbrace | lbracket | rbracket
  | comma | semicolon | colon
deriving DecidableEq, Repr

namespace Symbol

def text : Symbol → String
  | .plus => "+"
  | .minus => "-"
  | .star => "*"
  | .slash => "/"
  | .percent => "%"
  | .eqEq => "=="
  | .bangEq => "!="
  | .less => "<"
  | .lessEq => "<="
  | .greater => ">"
  | .greaterEq => ">="
  | .eq => "="
  | .question => "?"
  | .dot => "."
  | .lparen => "("
  | .rparen => ")"
  | .lbrace => "\x7b"
  | .rbrace => "\x7d"
  | .lbracket => "["
  | .rbracket => "]"
  | .comma => ","
  | .semicolon => ";"
  | .colon => ":"

end Symbol

/-- What a token is. -/
inductive Kind where
  /-- An integer literal such as `42`, `0x2A` or `0o60`. -/
  | int (raw : String)
  /-- A float literal such as `1.5` or `2e10`. -/
  | float (raw : String)
  /-- A string literal with its quotes. -/
  | string (raw : String)
  | identifier (name : String)
  | keyword (k : Keyword)
  | symbol (s : Symbol)
  /-- The end of the text. -/
  | eof
deriving DecidableEq, Repr, Inhabited

namespace Kind

/-- How a kind is written, and named in messages. -/
def text : Kind → String
  | int raw | float raw | string raw => raw
  | identifier name => name
  | keyword k => k.text
  | symbol s => s.text
  | eof => "end of file"

def isKeyword : Kind → Bool
  | keyword _ => true
  | _ => false

def startsStatement : Kind → Bool
  | keyword k => k.startsStatement
  | _ => false

/-- The kind of a word: a reserved word, or else an identifier. -/
def ofWord (s : String) : Kind :=
  match Keyword.ofText? s with
  | some k => keyword k
  | none => identifier s

end Kind

/-- A word of a script and where it stands. -/
structure Token where
  kind : Kind
  span : Span
deriving DecidableEq, Repr, Inhabited

end SmallScript
