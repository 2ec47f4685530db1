import BasicCheck.Finding

/-!
# Check reports

All that a check says about a file: the diagnostics of its procedure, the findings in the order of
the text, and a few counts. A check succeeds if no diagnostic is an error. The written form of a
report is JSON with one member on each line (`Report.render`).
-/

namespace BasicCheck

/-! ## 1. Counts -/

/-- The number of lines of a text. A line feed ends a line, and text behind the last one is a line
    of its own. -/
def lineCount (text : String) : Nat :=
  let cs := text.toList
  cs.count '\n' + if cs.getLast?.all (· == '\n') then 0 else 1

/-- The sizes that a report gives. -/
structure Statistics where
  /-- The statements of the body, those nested in them not counted. -/
  statements : Nat
  symbols : Nat
  labels : Nat
  lines : Nat
  deriving DecidableEq, Repr, Inhabited

/-- The sizes of a procedure. -/
def Statistics.ofProcedure (p : Procedure) : Statistics where
  statements := p.body.length
  symbols := p.symbols.size
  labels := p.labels.size
  lines := lineCount p.source

/-! ## 2. Reports -/

/-- The outcome of a check. -/
structure Report where
  /-- The name of the file, as it was given. -/
  file : String
  /-- The name in the header; empty if there is none. -/
  procedure : String
  diagnostics : List Diagnostic
  /-- The findings in the order of the text. -/
  findings : List Finding
  statistics : Statistics
  deriving Inhabited

namespace Report

/-- The report on the procedure in a file. -/
def ofProcedure (file : String) (p : Procedure) (options : CheckOptions) : Report where
  file
  procedure := p.header.name
  diagnostics := p.diagnostics
  findings := (p.findings options).mergeSort fun a b => a.span.start ≤ b.span.start
  statistics := .ofProcedure p

/-- A check succeeds if it found no error. -/
def success (r : Report) : Bool := !r.diagnostics.any Diagnostic.isError

/-- The number of messages of a given severity. -/
def count (r : Report) (severity : Severity) : Nat :=
  r.diagnostics.countP (·.severity == severity) + r.findings.countP (·.severity == severity)

/-- A report on a procedure succeeds exactly if the procedure has no errors. -/
theorem success_ofProcedure (file : String) (p : Procedure) (options : CheckOptions) :
    (ofProcedure file p options).success = !p.hasErrors := rfl

/-- Sorting loses no finding. -/
theorem findings_ofProcedure_perm (file : String) (p : Procedure) (options : CheckOptions) :
    (ofProcedure file p options).findings.Perm (p.findings options) :=
  List.mergeSort_perm _ _

/-! ## 3. The written form -/

/-- The JSON form of a finding in a file. -/
def findingToJson (file : String) (f : Finding) : Json :=
  .object [("code", .text f.code), ("severity", .text f.severity.title),
    ("message", .text f.message),
    ("location", .object [("file", .text file), ("line", .number f.span.start.line),
      ("column", .number f.span.start.column), ("end_line", .number f.span.stop.line),
      ("end_column", .number f.span.stop.column)]),
    ("suggestion", .text f.suggestion)]

/-- The JSON form of the counts. No clock is read, so the time is always given as zero. -/
def statisticsToJson (s : Statistics) : Json :=
  .object [("analysis_time_ms", .number 0), ("statement_count", .number s.statements),
    ("symbol_count", .number s.symbols), ("label_count", .number s.labels),
    ("loc", .number s.lines)]

/-- The JSON form of a report. -/
def toJson (r : Report) : Json :=
  .object [("success", .bool r.success), ("source_file", .text r.file),
    ("procedure", .text r.procedure),
    ("diagnostics", .list (r.diagnostics.map Diagnostic.toJson)),
    ("findings", .list (r.findings.map (findingToJson r.file))),
    ("stats", statisticsToJson r.statistics)]

/-- The written form of a report. -/
def render (r : Report) : String := r.toJson.pretty

end Report

end BasicCheck
