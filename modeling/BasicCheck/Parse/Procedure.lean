import BasicCheck.Parse.Block
import BasicCheck.Token.Lexed

/-!
# Reading procedures

A procedure is an optional header and statements up to the end of the file. Reading always gives a
procedure (`Procedure.ofTokens`, `Procedure.ofText`); what was wrong is in its diagnostics, which are
in the order of the text.
-/

namespace BasicCheck

namespace Parse

/-! ## 1. Headers -/

/-- Reads one more parameter. A comma may stand behind the last one. -/
def parameterTurn (parameters : Array Parameter) :
    Parser (Turn (Array Parameter) (List Parameter)) := do
  if ← sees .rightParen then return .done parameters.toList
  else
    let isMatrix ← consume (.keyword .MAT)
    let token ← expectIdent
    unless ← trySymbols (·.declareParameter token isMatrix) do
      report (.duplicateDefinition "Parameter" token.text) token.span
    let parameters := parameters.push ⟨⟨token.text, .assignment, token.span⟩, isMatrix⟩
    if ← consume .comma then return .again parameters else return .done parameters.toList

/-- Parameters in parentheses, if there are any. -/
def parameters : Parser (List Parameter) := do
  if ← consume .leftParen then
    let found ← tryLoop parameterTurn #[]
    discard <| expect .rightParen
    return found
  else return []

/-- The header behind the word that says what the procedure is. -/
def headerAfter (kind : ProcedureKind) : Parser Header := do
  let token ← expectIdent
  discard <| trySymbols fun symbols =>
    match kind with
    | .function => symbols.declareFunction token
    | .subroutine => symbols.declareSubroutine token
    | .insert => symbols.declareInsert token
  let found ← parameters
  expectSeparator
  return ⟨token.text, kind, found⟩

/-- What a procedure with a given keyword in its header is. -/
def procedureKind? : Kind → Option ProcedureKind
  | .keyword .FUNCTION => some .function
  | .keyword .SUBROUTINE => some .subroutine
  | .keyword .INSERT => some .insert
  | _ => none

/-- The header of a procedure. A malformed one is reported and taken for a missing one. -/
def header : Step Header := do
  skipNewlines
  let compiled ← sees (.keyword .COMPILE)
  match procedureKind? (← if compiled then nextKind else currentKind) with
  | some kind =>
    if compiled then discard advance
    discard advance
    recover .anonymous (headerAfter kind)
  | none =>
    if compiled then
      discard advance
      recover .anonymous (failHere (.expected "FUNCTION, SUBROUTINE or INSERT"))
    else return .anonymous

/-! ## 2. Procedures -/

/-- A whole procedure: its header and its body. At the end every label that was referred to and
    never declared is reported. -/
def procedure : Step (Header × Block) := do
  let head ← header
  let body ← block statement .file
  (← get).symbols.unresolvedLabels.forM fun (label, span) => report (.undefinedLabel label) span
  return (head, body)

/-- The state before the first of some primary tokens, after faults that are already known. -/
def State.opening (primary : List Token) (faults : List Fault) : State :=
  { State.initial primary with diagnostics := (faults.map Diagnostic.ofFault).toArray }

end Parse

namespace Procedure

/-- The procedure that some primary tokens make up, after faults that are already known. The text
    and all of its tokens are kept with it. -/
def ofTokens (primary : List Token) (faults : List Fault) (source : String) (tokens : List Token)
    (file : Nat) : Procedure :=
  let found := Parse.procedure (.opening primary faults)
  { header := found.1.1
    body := found.1.2
    source, tokens, file
    symbols := found.2.symbols
    labels := LabelTable.ofBody found.1.2
    diagnostics := found.2.diagnostics.toList.mergeSort fun a b => a.span.start ≤ b.span.start
    regions := found.2.regions.toList }

/-- The procedure that a text makes up. -/
def ofText (source : String) (file : Nat) : Procedure :=
  let lexed := Lexed.ofText source file
  ofTokens lexed.primary lexed.faults source lexed.tokens file

end Procedure

/-- What is read from a text, and the state behind the last of its tokens. -/
def Parse.readText (source : String) (file : Nat) : (Header × Block) × State :=
  let lexed := Lexed.ofText source file
  procedure (.opening lexed.primary lexed.faults)

end BasicCheck
