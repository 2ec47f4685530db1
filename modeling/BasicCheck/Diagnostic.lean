import BasicCheck.Fault
import BasicCheck.Text.Json

/-!
# Diagnostics

What a consumer is told about a fault: its wording, its span and its severity.
-/

namespace BasicCheck

/-- A message about a span of a source text. -/
structure Diagnostic where
  message : String
  span : Span
  severity : Severity
  deriving DecidableEq, Repr, Inhabited

namespace Diagnostic

/-- The message about a fault. -/
def ofFault (f : Fault) : Diagnostic := ⟨f.cause.message, f.span, f.cause.severity⟩

/-- An error message. -/
def error (message : String) (span : Span) : Diagnostic := ⟨message, span, .error⟩

def isError (d : Diagnostic) : Bool := d.severity == .error

/-- The JSON form of a diagnostic. The file is left to its reader, who knows it. -/
def toJson (d : Diagnostic) : Json :=
  .object [("message", .text d.message), ("lineNo", .number d.span.start.line),
    ("startCol", .number d.span.start.column), ("endCol", .number d.span.stop.column),
    ("endLineNo", .number d.span.stop.line), ("severity", .text d.severity.title)]

end Diagnostic

end BasicCheck
