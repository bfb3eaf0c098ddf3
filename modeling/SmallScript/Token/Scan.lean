/-
  Scanning: the tokens of a document and what is wrong with its spelling.

  `Scan.go` cuts lexeme after lexeme off the text and walks a place along.  What a lexeme
  contributes is told by two questions: `Lexeme.kind?` (is it a token, and which) and
  `Lexeme.complaint?` (is it reported, and how).  Once the log is full scanning stops behind the
  next token.  The last token is always the end of the text, and it is the only one of its kind.

  A document is lexed by its scan, provided that the places on the way can be counted
  (`Document.lex?`).
-/
import SmallScript.Diagnostic.Log
import SmallScript.Token.Lexeme

namespace SmallScript

namespace Lexeme

/-- The kind of token a lexeme is read as.  A string that was left open is closed for the stages
behind; a base without digits is passed on as it stands. -/
def kind? (lexeme : Lexeme) : Option Kind :=
  match lexeme.sort with
  | .token kind => some kind
  | .openString => some (.string (String.ofList (lexeme.text ++ ['"'])))
  | .bareRadix => some (.int (String.ofList lexeme.text))
  | .blank | .comment | .openComment | .stray => none

/-- A complaint before it has a place. -/
structure Complaint where
  code : Code
  message : String
  suggestion : Option String := none

/-- What is wrong with a lexeme. -/
def complaint? (lexeme : Lexeme) : Option Complaint :=
  let written := String.ofList lexeme.text
  match lexeme.sort with
  | .blank | .comment | .token _ => none
  | .openComment => some ⟨.unterminatedComment, "Unterminated block comment", none⟩
  | .openString => some ⟨.unterminatedString, "Unterminated string literal", none⟩
  | .bareRadix => some ⟨.malformedNumber, "Missing digits after '" ++ written ++ "'", none⟩
  | .stray =>
    some
      { code := .unexpectedCharacter
        message := "Unexpected character '" ++ written ++ "'"
        suggestion :=
          if lexeme.text = ['!'] then
            some "Use 'not' for negation, or '!=' for inequality"
          else none }

end Lexeme

/-- The tokens of a text, the last of which is its end, and the diagnostics of its spelling. -/
structure Scan where
  tokens : Array Token
  log : Log
  /-- What was left of the text when the log was full. -/
  unread : List Char

namespace Scan

/-- Log what is wrong with a lexeme. -/
def report (doc : Document) (lexeme : Lexeme) (span : Span) (log : Log) : Log :=
  match lexeme.complaint? with
  | none => log
  | some c => log.push (Diagnostic.about doc c.code c.message span c.suggestion)

/-- End the scan at a place. -/
def close (tokens : Array Token) (log : Log) (here : Place) (unread : List Char) : Scan :=
  ⟨tokens.push ⟨.eof, Span.point here⟩, log, unread⟩

/-- Scan what is left of a text from `here` on, behind the tokens read so far. -/
def go (doc : Document) (tokens : Array Token) (log : Log) (here : Place) :
    List Char → Scan
  | [] => close tokens log here []
  | c :: rest =>
    let lexeme := (Lexeme.cut c rest).1
    let next := here.after lexeme.text
    let span := Span.between here next
    let log := report doc lexeme span log
    match lexeme.kind? with
    | none => go doc tokens log next (Lexeme.cut c rest).2
    | some kind =>
      let tokens := tokens.push ⟨kind, span⟩
      if log.isFull then close tokens log next (Lexeme.cut c rest).2
      else go doc tokens log next (Lexeme.cut c rest).2
termination_by cs => cs.length
decreasing_by all_goals exact Lexeme.length_cut_lt c rest

end Scan

namespace Document

/-- The tokens of a document. -/
def scan (doc : Document) : Scan := Scan.go doc #[] Log.empty Place.start doc.text.toList

/-- The part of a text that a scan went over. -/
def passed (doc : Document) (scan : Scan) : List Char :=
  doc.text.toList.take (doc.text.toList.length - scan.unread.length)

/-- The tokens of a document, unless there is a place on the way that cannot be counted. -/
def lex? (doc : Document) : Option Scan :=
  let scan := doc.scan
  (Place.start.after? (doc.passed scan)).map fun _ => scan

end Document

end SmallScript
