/-
  Records: diagnostics as JSON, for programs that read them.
-/
import SmallScript.Diagnostic.Log
import SmallScript.Text.Json

namespace SmallScript

/-- The record of one diagnostic; there is no suggestion member where there is no suggestion. -/
def Diagnostic.record (d : Diagnostic) : Json :=
  .object <|
    [("file", .string d.file),
     ("code", .number d.code.number),
     ("message", .string d.message),
     ("line", .number d.span.first.line),
     ("column", .number d.span.first.column),
     ("end_line", .number d.span.last.line),
     ("end_column", .number d.span.last.column),
     ("source_line", .string d.sourceLine)]
    ++ (d.suggestion.map fun s => ("suggestion", Json.string s)).toList

/-- The record of a log. -/
def Log.record (log : Log) : Json :=
  .object
    [("errors", .array (log.stored.toList.map Diagnostic.record)),
     ("total", .number log.total)]

end SmallScript
