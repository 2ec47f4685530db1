import BasicCheck.Assignment
import BasicCheck.Reachability

/-!
# Findings

What the analyses say about a procedure that was read without errors: statements that are never
reached, and reads of variables that may be unassigned. A finding warns of a span of the text and
comes with a suggestion. Where a procedure has errors, nothing is analysed (`Procedure.findings`).
-/

namespace BasicCheck

/-! ## 1. What is found -/

/-- What an analysis found. -/
inductive Finding where
  /-- A statement that is never reached. -/
  | unreachable (statement : Statement)
  /-- A read of a variable that may be unassigned. -/
  | unassigned (read : Assignment.Finding)
  deriving Inhabited

namespace Finding

/-- The short name of the analysis that found it. -/
def code : Finding → String
  | unreachable _ => "unreachable"
  | unassigned _ => "unassigned"

/-- Where the finding is. -/
def span : Finding → Span
  | unreachable statement => statement.span
  | unassigned read => read.ident.span

def message : Finding → String
  | unreachable statement => "Unreachable " ++ statement.title ++ " statement"
  | unassigned read => "Variable " ++ read.ident.name ++ " may not have been assigned"

/-- How the finding may be mended. -/
def suggestion : Finding → String
  | unreachable _ => "Remove the statement or add a jump to a label before it"
  | unassigned read => "Assign " ++ read.ident.name ++ " on every path before this statement"

/-- A finding is never more than a warning. -/
def severity (_ : Finding) : Severity := .warning

end Finding

/-! ## 2. The analyses of a procedure -/

/-- Which analyses are wanted. -/
structure CheckOptions where
  unreachable : Bool
  unassigned : Bool
  deriving DecidableEq, Repr

/-- Every analysis. -/
def CheckOptions.all : CheckOptions := ⟨true, true⟩

instance : Inhabited CheckOptions := ⟨.all⟩

/-- What the wanted analyses find, one analysis after the other. -/
def Procedure.findings (p : Procedure) (options : CheckOptions) : List Finding :=
  if p.hasErrors then []
  else
    (if options.unreachable then p.unreachable.map .unreachable else []) ++
      (if options.unassigned then p.unassigned.map .unassigned else [])

/-- A procedure with errors is not analysed. -/
theorem Procedure.findings_of_hasErrors {p : Procedure} (options : CheckOptions)
    (h : p.hasErrors = true) : p.findings options = [] := by
  simp [Procedure.findings, h]

end BasicCheck
