import BasicCheck.Diagnostic
import BasicCheck.Label
import BasicCheck.Symbol.Table

/-!
# Procedures

What is known about a source text once it has been read: the header, the body, the tables of symbols
and labels, the diagnostics and the regions that an editor may fold.
-/

namespace BasicCheck

/-! ## 1. Regions -/

/-- What a foldable region is. -/
inductive RegionKind where
  | thenArm | elseArm | counted | loop | choice | caseArm
  deriving DecidableEq, Repr, Inhabited

/-- The keyword of an arm in messages. -/
def RegionKind.construct : RegionKind → String
  | thenArm => "THEN"
  | elseArm => "ELSE"
  | counted => "FOR"
  | loop => "LOOP"
  | choice => "BEGIN CASE"
  | caseArm => "CASE"

/-- A foldable stretch of the text. -/
structure Region where
  kind : RegionKind
  span : Span
  deriving DecidableEq, Repr, Inhabited

/-! ## 2. Procedures -/

/-- What a header says that a procedure is. -/
inductive ProcedureKind where
  | function | subroutine | insert
  deriving DecidableEq, Repr, Inhabited

/-- A parameter of a procedure. -/
structure Parameter where
  name : Ident
  isMatrix : Bool
  deriving DecidableEq, Repr, Inhabited

/-- What the header of a procedure says. -/
structure Header where
  /-- Empty if the header is missing or malformed. -/
  name : String
  kind : ProcedureKind
  parameters : List Parameter
  deriving DecidableEq, Repr, Inhabited

/-- The header of a procedure that has none. -/
def Header.anonymous : Header := ⟨"", .subroutine, []⟩

/-- A procedure that has been read. -/
structure Procedure where
  header : Header
  body : Block
  symbols : SymbolTable
  labels : LabelTable
  diagnostics : List Diagnostic
  /-- The regions in the order in which they were closed. -/
  regions : List Region
  /-- Every token, trivia included, in the order of the text. -/
  tokens : List Token
  source : String
  file : Nat
  deriving Inhabited

namespace Procedure

def hasErrors (p : Procedure) : Bool := p.diagnostics.any Diagnostic.isError

/-- The statement that declares a label. -/
def labelStatement? (p : Procedure) (label : String) : Option Statement := do
  let location ← p.labels.get? label
  let block ← location.resolve? p.body
  block[location.index]?

/-- The statements that follow a label in its block. -/
def afterLabel? (p : Procedure) (label : String) : Option Block := do
  let location ← p.labels.get? label
  let block ← location.resolve? p.body
  return block.drop (location.index + 1)

end Procedure

end BasicCheck
