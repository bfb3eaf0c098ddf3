/-
  Reports: diagnostics as text for a terminal.

  A report names the diagnostic, says where it stands, quotes the line and puts carets under the
  span.  The caret rule (`Report.caretWidth`) and the colours (`Ink`) are the two decisions made
  here; everything else is concatenation.
-/
import SmallScript.Diagnostic.Log

namespace SmallScript

/-- The ways a part of a report is set off from the rest. -/
inductive Ink where
  | alarm
  | strong
  | frame
  | hint
  | success
deriving DecidableEq, Repr

namespace Ink

/-- Alarm is bold red, strong is bold, a frame is bright blue, a hint is bright green and success is
bold green. -/
def codes : Ink → List Char
  | alarm => ['1', ';', '3', '1']
  | strong => ['1']
  | frame => ['9', '4']
  | hint => ['9', '2']
  | success => ['1', ';', '3', '2']

/-- The sequence that switches the ink on. -/
def opening (ink : Ink) : List Char := '\x1b' :: '[' :: ink.codes ++ ['m']

/-- The sequence that switches every ink off. -/
def closing : List Char := ['\x1b', '[', '0', 'm']

/-- A text may hold the closing sequence itself: the ink is then switched on again behind it. -/
def resume (ink : Ink) : List Char → List Char
  | '\x1b' :: '[' :: '0' :: 'm' :: rest => closing ++ ink.opening ++ resume ink rest
  | c :: rest => c :: resume ink rest
  | [] => []

/-- `text` in the given ink; as it is where colours are off. -/
def paint (ink : Ink) (colour : Bool) (text : String) : String :=
  if colour then String.ofList (ink.opening ++ ink.resume text.toList ++ closing) else text

@[simp] theorem paint_plain (ink : Ink) (text : String) : ink.paint false text = text := rfl

end Ink

namespace Report

/-- `n` copies of a character. -/
def run (n : Nat) (c : Char) : String := String.ofList (List.replicate n c)

/-- How many carets underline a span: one where it runs over several lines, otherwise the
distance of its ends, but at least one. -/
def caretWidth (s : Span) : Nat :=
  if s.last.line = s.first.line then max 1 (s.last.column - s.first.column) else 1

/-- A line number, set to the right of at least three columns. -/
def lineNumber (n : Nat) : String :=
  let digits := toString n
  run (3 - digits.length) ' ' ++ digits

/-- What stands under the quoted line: blanks up to the span, then its carets. -/
def caretLine (colour : Bool) (s : Span) : String :=
  run (s.first.column - 1) ' ' ++ Ink.alarm.paint colour (run (caretWidth s) '^')

/-- The quoted line and its carets behind a gutter; nothing for an empty line. -/
def quotation (colour : Bool) (d : Diagnostic) : String :=
  if d.sourceLine = "" then "" else
    let gutter := Ink.frame.paint colour "|"
    "    " ++ gutter ++ "\n"
      ++ Ink.frame.paint colour (lineNumber d.span.first.line) ++ " " ++ gutter ++ " "
      ++ d.sourceLine ++ "\n"
      ++ "    " ++ gutter ++ " " ++ caretLine colour d.span ++ "\n"

/-- The suggestion, where there is one. -/
def help (colour : Bool) (d : Diagnostic) : String :=
  match d.suggestion with
  | none => ""
  | some advice =>
    "    " ++ Ink.hint.paint colour "=" ++ " " ++ Ink.hint.paint colour ("help: " ++ advice) ++ "\n"

/-- The report of one diagnostic. -/
def ofDiagnostic (colour : Bool) (d : Diagnostic) : String :=
  Ink.alarm.paint colour ("error[" ++ d.code.text ++ "]") ++ ": "
    ++ Ink.strong.paint colour d.message ++ "\n"
    ++ Ink.frame.paint colour ("  --> " ++ d.file ++ ":" ++ d.span.text) ++ "\n"
    ++ quotation colour d ++ help colour d

/-- How many diagnostics there were, and how many of them are shown if not all. -/
def summary (log : Log) : String :=
  let noun := if log.total = 1 then "error" else "errors"
  let counted := toString log.total ++ " " ++ noun
  if log.stored.size < log.total then
    counted ++ " (showing the first " ++ toString log.stored.size ++ ")"
  else counted

/-- The report of a log: each stored diagnostic with a blank line behind it, then the summary. -/
def ofLog (colour : Bool) (log : Log) : String :=
  log.stored.foldl (fun out d => out ++ ofDiagnostic colour d ++ "\n") ""
    ++ Ink.alarm.paint colour (summary log) ++ "\n"

end Report

end SmallScript
