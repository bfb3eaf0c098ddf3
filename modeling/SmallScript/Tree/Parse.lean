/-
  From tokens and texts to programs.

  From tokens a program is always built: what could not be read is missing from it and has been
  logged.  A document has to be lexed first, so its places have to be countable.
-/
import SmallScript.Token.Scan
import SmallScript.Tree.Reading.Statement

namespace SmallScript

/-- A program with the diagnostics met on the way to it. -/
structure Parse where
  program : Program
  log : Log

namespace Parse

/-- Read a whole token list. -/
def ofTokens (doc : Document) (tokens : List Token) : Parse :=
  let c := Cursor.ofTokens doc tokens
  let (stmts, d) := Reading.programBody Reading.statement c.turns [] c
  ⟨⟨stmts.reverse, c.current.span.cover d.previous⟩, d.log⟩

/-- Read what was scanned: the diagnostics of its spelling come before those of its structure. -/
def ofScan (doc : Document) (scan : Scan) : Parse :=
  let parse := ofTokens doc scan.tokens.toList
  ⟨parse.program, scan.log.append parse.log⟩

/-- Read a document, whether or not its places can be counted. -/
def ofDocument (doc : Document) : Parse := ofScan doc doc.scan

/-- Read a document, unless there is a place in it that cannot be counted. -/
def ofDocument? (doc : Document) : Option Parse := doc.lex?.map (ofScan doc)

end Parse

end SmallScript
