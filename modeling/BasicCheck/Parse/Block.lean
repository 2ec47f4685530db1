import BasicCheck.Parse.Decision

/-!
# Reading blocks and statements

Blocks hold statements and statements hold blocks: everything up to `statementLayer` is built over a
parser for the statements within, and `nest` ties the two together.

Only the loops over statements catch a fault (`blockTurn`, the header of a counting loop, the
condition of a case). They report it and go on behind the next separator, so that a block is always
read to its end.
-/

namespace BasicCheck.Parse

/-! ## 1. Blocks -/

/-- What a block ends before. -/
inductive BlockEnd where
  /-- The end of the file. -/
  | file
  /-- The `end` of an arm. -/
  | arm
  /-- The `next` of a counting loop. -/
  | counted
  /-- The `repeat` of a loop. -/
  | loop
  /-- The next `case`, or `end case`. -/
  | caseArm
  deriving DecidableEq, Repr

/-- Whether a block of a given sort ends here. -/
def atBlockEnd : BlockEnd → Step Bool
  | .file => return false
  | .arm => sees (.keyword .END)
  | .counted => sees (.keyword .NEXT)
  | .loop => sees (.keyword .REPEAT)
  | .caseArm => do
    match ← currentKind with
    | .keyword .CASE => return true
    | .keyword .END => return (← nextKind) == .keyword .CASE
    | _ => return false

/-- Goes on behind the next separator after a fault, with a stand-in for what could not be read. -/
def recover {α : Type} (standIn : α) (p : Parser α) : Step α := do
  let start ← outset
  match ← p.run with
  | .ok a => return a
  | .error f =>
    reportFault f
    synchronize
    noteRecovery start f
    return standIn

/-- Reads the terminator of a construct that starts at a given span, or reports that it is missing.
    The span is that of the terminator, or of what was read last. -/
def closeBlock (terminator : Keyword) (construct : String) (start : Span) : Step Span := do
  if ← sees (.keyword terminator) then return (← advance).span
  else
    report (.missingTerminator construct (Text.capitalize terminator.title)) start
    return (← get).previous.span

section Statements

variable (statement : Parser Statement)

/-- Reads one more statement of a block and the separator behind it. -/
def blockTurn (stop : BlockEnd) (statements : Array Statement) :
    Step (Turn (Array Statement) Block) := do
  skipNewlines
  if (← sees .endOfFile) || (← atBlockEnd stop) then return .done statements.toList
  else
    let found ← recover none do
      let s ← statement
      unless s.isSeparatorExempt do expectSeparator
      return some s
    return .again (statements ++ found.toArray)

/-- Statements up to the end of a block, which is not read. -/
def block (stop : BlockEnd) : Step Block :=
  loop (blockTurn statement stop) Array.toList #[]

/-- Reads one more statement of a line and the semicolon behind it. -/
def lineTurn (stopsAtElse : Bool) (statements : Array Statement) :
    Parser (Turn (Array Statement) Block) := do
  let atEnd (kind : Kind) : Bool :=
    kind == .newline || kind == .endOfFile || (stopsAtElse && kind == .keyword .ELSE)
  if atEnd (← currentKind) then return .done statements.toList
  else
    let s ← statement
    let statements := statements.push s
    if ← consume .semicolon then return .again statements
    else if atEnd (← currentKind) then return .done statements.toList
    else if s.isSeparatorExempt then return .again statements
    else failHere (.expectedSeparator (← current).describe)

/-- Statements up to the end of a line, or up to an `else`. -/
def lineBlock (stopsAtElse : Bool) : Parser Block :=
  tryLoop (lineTurn statement stopsAtElse) #[]

/-! ## 2. Arms -/

/-- Whether the line ends here, perhaps behind one semicolon. -/
def atLineEnd : Step Bool := do
  match ← currentKind with
  | .newline => return true
  | .semicolon =>
    let kind ← nextKind
    return kind == .newline || kind == .endOfFile
  | _ => return false

/-- An arm behind its keyword: on several lines up to an `end` if the keyword ends its line, else on
    the same line. -/
def arm (kind : RegionKind) (start : Span) : Parser Block := do
  begin
  if ← atLineEnd then
    discard advance
    let body ← block statement .arm
    let stop ← closeBlock .END kind.construct start
    recordRegion kind (start.join stop)
    return body
  else lineBlock statement (kind == .thenArm)

/-- An arm, if its keyword is there. -/
def armAfter? (word : Keyword) (kind : RegionKind) : Parser (Option Block) := do
  if ← sees (.keyword word) then return some (← arm statement kind (← advance).span)
  else return none

/-- Whether an arm holds more than lone semicolons. -/
def holdsStatement (body : Option Block) : Bool :=
  body.any fun statements => statements.any (!·.isEmpty)

/-- The arms of a decision. Unless they are optional one has to be there, and if there are any, one
    has to hold a statement. -/
def arms (optional : Bool) : Parser (Option Block × Option Block) := do
  let start := (← current).span
  let thenArm ← armAfter? statement .THEN .thenArm
  let elseArm ← armAfter? statement .ELSE .elseArm
  if thenArm.isNone && elseArm.isNone then
    if optional then return (none, none) else throw ⟨.expected "THEN or ELSE", start⟩
  else
    unless holdsStatement thenArm || holdsStatement elseArm do
      report .emptyThenElse (← spanFrom start)
    return (thenArm, elseArm)

/-! ## 3. Loops -/

/-- The bounds of a counting loop, behind its variable. -/
def bounds : Parser (Expr × Expr × Option Expr) := do
  discard <| expect .equal
  let start ← expression
  discard <| expect (.keyword .TO)
  let limit ← expression
  return (start, limit, ← expressionAfter? .STEP)

/-- The header of a counting loop that starts at a given span. If it is malformed, the loop has no
    bounds, and no variable either if that was the fault. -/
def counter (start : Span) : Step Counter := do
  let unbounded (name : Ident) : Counter := ⟨name, .missing start, .missing start, none⟩
  let anonymous : Ident := ⟨"", .assignment, start⟩
  match ← expectIdent.run with
  | .error f => recover (unbounded anonymous) (throw f)
  | .ok token =>
    noteVariable token
    let name : Ident := ⟨token.text, .assignment, token.span⟩
    recover (unbounded name) do
      let (first, limit, step) ← bounds
      return ⟨name, first, limit, step⟩

/-- The body of a loop. -/
def loopBody (stop : BlockEnd) : Step Block := do
  begin
  modify fun s => { s with loopDepth := s.loopDepth + 1 }
  let body ← block statement stop
  modify fun s => { s with loopDepth := s.loopDepth - 1 }
  return body

/-- The variable behind a `next`, which should be that of the loop. -/
def closingName? (name : Ident) : Step (Option Ident) := do
  if ← sees .ident then
    let token ← advance
    noteVariable token
    if !name.name.isEmpty && token.folded != name.folded then
      report (.nextMismatch name.name token.text) token.span
    return some ⟨token.text, .reference, token.span⟩
  else return none

/-- A counting loop behind its keyword. -/
def countedLoop (start : Span) : Step (Span → Statement) := do
  let header ← counter start
  let body ← loopBody statement .counted
  let closed ← sees (.keyword .NEXT)
  discard <| closeBlock .NEXT RegionKind.counted.construct start
  let closing ← if closed then closingName? header.name else pure none
  recordRegion .counted (← spanFrom start)
  return .counted header body closing

/-- Any other loop behind its keyword. -/
def plainLoop (start : Span) : Step (Span → Statement) := do
  let body ← loopBody statement .loop
  discard <| closeBlock .REPEAT RegionKind.loop.construct start
  recordRegion .loop (← spanFrom start)
  return .loop body

/-! ## 4. Choices -/

/-- An arm of a choice. A malformed condition leaves the arm without one. -/
def caseArm : Step CaseArm := do
  let start := (← advance).span
  let cond ← recover (.missing start) do
    let cond ← expression
    expectSeparator
    return cond
  let body ← block statement .caseArm
  let span ← spanFrom start
  recordRegion .caseArm span
  return .mk cond body span

/-- Reads one more arm of a choice that starts at a given span. Lines outside all arms are reported
    and left out. -/
def choiceTurn (start : Span) (found : Array CaseArm) :
    Step (Turn (Array CaseArm) (List CaseArm)) := do
  skipNewlines
  if ← sees (.keyword .CASE) then return .again (found.push (← caseArm statement))
  else if (← sees (.keyword .END)) && (← nextKind) == .keyword .CASE then
    discard advance
    discard advance
    return .done found.toList
  else if ← sees .endOfFile then
    report (.missingTerminator RegionKind.choice.construct "END CASE") start
    return .done found.toList
  else
    report (.expected "CASE") (← current).span
    skipWhile fun kind => kind != .newline && kind != .endOfFile
    return .again found

/-- All arms of a choice that starts at a given span. -/
def choiceArms (start : Span) : Step (List CaseArm) :=
  loop (choiceTurn statement start) Array.toList #[]

/-- A choice behind its first keyword. -/
def choice (start : Span) : Parser (Span → Statement) := do
  discard <| expect (.keyword .CASE)
  expectSeparator
  begin
  let found ← choiceArms statement start
  recordRegion .choice (← spanFrom start)
  return .choice found

/-! ## 5. Statements -/

/-- A decision behind its keyword. -/
def decision (test : Parser Decision) : Parser (Span → Statement) := do
  let test ← test
  let (thenArm, elseArm) ← arms statement (armsOptional test)
  return .decision test thenArm elseArm

/-- How a statement goes on behind its keyword, if the keyword opens one. -/
def statementAfter? (keyword : Token) (word : Keyword) : Option (Parser (Span → Statement)) :=
  match word with
  | .FOR => some (countedLoop statement keyword.span)
  | .LOOP => some (plainLoop statement keyword.span)
  | .BEGIN => some (choice statement keyword.span)
  | word =>
    match decisionAfter? word with
    | some test => some (decision statement test)
    | none => (actionAfter? keyword word).map (Statement.action <$> ·)

/-- A statement that opens with a keyword. A keyword that only ever follows an expression is a
    variable if an assignment follows. -/
def keywordStatement (keyword : Token) (word : Keyword) : Parser (Span → Statement) := do
  if word.isContextual && (AssignOp.ofKind? (← nextKind)).isSome then
    Statement.action <$> assignmentOrCall
  else
    match statementAfter? statement keyword word with
    | some p =>
      discard advance
      p
    | none => failHere (.unexpectedToken "statement" keyword.describe)

/-- A statement over the statements within it. -/
def statementLayer : Parser Statement := do
  let token ← current
  let build : Span → Statement ← match token.kind with
    | .semicolon =>
      discard advance
      pure (Statement.action .empty)
    | .ident =>
      if (← nextKind) == .colon then Statement.action <$> labelAction
      else Statement.action <$> assignmentOrCall
    | .systemVariable => Statement.action <$> assignmentOrCall
    | .insertDirective => Statement.action <$> insertAction
    | .keyword word => keywordStatement statement token word
    | _ => failHere (.unexpectedToken "statement" token.describe)
  return build (← spanFrom token.span)

end Statements

/-- A statement. -/
def statement : Parser Statement := nest statementLayer

end BasicCheck.Parse
