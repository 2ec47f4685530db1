import BasicCheck.Parse.Expression

/-!
# Reading actions

The statements that hold no other statements. All but assignments and calls open with a keyword, and
the keyword alone decides how they go on (`actionAfter?`).
-/

namespace BasicCheck.Parse

/-! ## 1. Names -/

/-- Reads `ON` or `TO` between a value and its destination. -/
def expectOnOrTo : Parser Unit := do
  if ← consume (.keyword .ON) then return
  if ← consume (.keyword .TO) then return
  failHere (.expected "ON or TO")

/-- Reads the name of a variable that is named outside an expression. -/
def expectVariable : Parser Token := do
  match ← currentKind with
  | .ident | .systemVariable => advance
  | _ => failHere .expectedIdent

/-- A reference to a variable outside an expression. -/
def variableIdent (role : Role) : Parser Ident := do
  let token ← expectVariable
  noteVariable token
  return ⟨token.text, role, token.span⟩

/-- A reference to a label. -/
def labelIdent : Parser Ident := do
  let token ← expectIdent
  noteLabel token
  return ⟨token.text, .label, token.span⟩

/-! ## 2. Assignments and calls -/

/-- A label and its colon. -/
def labelAction : Parser Action := do
  let token ← advance
  discard advance
  unless ← trySymbols (·.declareLabel token) do
    report (.duplicateDefinition "Label" token.text) token.span
  return .label ⟨token.text, .label, token.span⟩

/-- A call by the name of a declared routine alone. -/
def subroutineCall : Parser Action := do
  let token ← advance
  unless ← noteIfKnown .subroutine token do
    unless ← noteIfKnown .function token do
      report (.undeclaredSubroutine token.text) token.span
  return .subroutineCall ⟨token.text, .functionName, token.span⟩ (← arguments)

/-- An assignment, or the call of a member of an object. -/
def assignment : Parser Action := do
  let left ← target
  if left.isMember && (← atStatementEnd) then return .memberCall left
  match AssignOp.ofKind? (← currentKind) with
  | none => failHere (.expected "'=' or an assignment operator")
  | some op =>
    discard advance
    let value ← expression
    match left, op with
    | .matrixIndex name row col _, .assign => return .matrixAssignment name row col value
    | left, op => return .assignment left op value

/-- A statement that opens with a name. -/
def assignmentOrCall : Parser Action := do
  let s ← get
  let token := s.current
  if token.kind == .ident && (← nextKind) == .leftParen && !s.symbols.isMatrix token.text then
    subroutineCall
  else assignment

/-- A call of a subroutine, or through a variable that holds its name. -/
def callAction : Parser Action := do
  let indirect ← consume .atSign
  let name ← if indirect then variableIdent .reference else do
    let token ← expectIdent
    noteCalled token
    pure ⟨token.text, .functionName, token.span⟩
  let args ← if ← sees .leftParen then arguments else pure []
  return .call name args indirect

/-! ## 3. Control flow -/

/-- The condition of a loop, behind its keyword. -/
def loopCondition (keyword : Token) (test : LoopTest) : Parser Action := do
  if (← get).loopDepth = 0 then
    report (.misplacedLoopCondition (Text.capitalize keyword.text)) keyword.span
  let cond ← expression
  discard <| consume (.keyword .DO)
  return .loopCondition test cond

/-- A jump to one of several labels. -/
def onJump : Parser Action := do
  let selector ← expression
  let jump : Jump ← match ← currentKind with
    | .keyword .GOTO => pure .goto
    | .keyword .GOSUB => pure .gosub
    | _ => failHere (.expected "GOTO or GOSUB")
  discard advance
  return .onJump jump selector (← commaList labelIdent)

/-- An expression, unless the statement ends here. -/
def optionalExpression : Parser (Option Expr) := do
  if ← atStatementEnd then return none else return some (← expression)

/-- An expression behind a keyword that may be left out. -/
def expressionAfter? (word : Keyword) : Parser (Option Expr) := do
  if ← consume (.keyword word) then return some (← expression) else return none

/-! ## 4. Declarations -/

/-- What a name is declared as. -/
inductive Declared where
  | equate | commonVariable | matrix
  deriving DecidableEq, Repr

/-- What messages call a class of names. -/
def Declared.phrase : Declared → String
  | equate => "an equate"
  | commonVariable => "a common variable"
  | matrix => "a matrix"

/-- What messages call a variable that is already there. -/
def variablePhrase (s : Symbol) : String :=
  match s.scope? with
  | some .system => "a system variable"
  | some .parameter => "a parameter"
  | some .common => "a common variable"
  | _ => if s.isMatrix then "a matrix" else "a variable"

/-- What keeps a name from being declared, if anything does: it belongs to the system, or it is in
    use as something else or for the same thing already. -/
def conflict? (symbols : SymbolTable) (token : Token) (wanted : Declared) : Option Cause :=
  let name := token.text
  let isEquate := symbols.contains .equate name
  if token.kind = .systemVariable then some (.systemVariableRedefinition name)
  else if wanted ≠ .equate ∧ isEquate then
    some (.invalidRedeclaration name Declared.equate.phrase wanted.phrase)
  else
    match symbols.lookup? .variable name with
    | none => if isEquate then some (.duplicateDefinition "Equate" name) else none
    | some s =>
      if s.isMatrix ∧ wanted = .matrix then some (.duplicateDefinition "Matrix" name)
      else if s.scope? = some .common ∧ wanted = .commonVariable then
        some (.duplicateDefinition "Common variable" name)
      else some (.invalidRedeclaration name (variablePhrase s) wanted.phrase)

/-- Declares a name unless something keeps it from being declared, which is then reported. -/
def declareAs (wanted : Declared) (token : Token)
    (declare : SymbolTable → Bool × SymbolTable) : Step Unit := do
  match conflict? (← get).symbols token wanted with
  | some cause => report cause token.span
  | none => discard <| trySymbols declare

/-- A routine in a declaration; keywords may name one too. -/
def declaredRoutine (routine : Routine) : Parser Ident := do
  let token ← current
  unless token.kind == .ident || token.kind.isKeyword do throw ⟨.expectedIdent, token.span⟩
  discard advance
  match routine with
  | .function =>
    unless ← trySymbols (·.declareFunction token) do
      report (.redundantDeclaration "Function" token.text) token.span
  | .subroutine =>
    unless ← trySymbols (·.declareSubroutine token) do
      report (.redundantDeclaration "Subroutine" token.text) token.span
  return ⟨token.text, .functionName, token.span⟩

def declareAction : Parser Action := do
  let routine : Routine ← match ← currentKind with
    | .keyword .FUNCTION => pure .function
    | .keyword .SUBROUTINE => pure .subroutine
    | _ => failHere (.expected "FUNCTION or SUBROUTINE")
  discard advance
  return .declare routine (← commaList (declaredRoutine routine))

def equateAction : Parser Action := do
  let token ← expectVariable
  discard <| expect (.keyword .TO)
  let value ← expression
  declareAs .equate token (·.declareEquate token value)
  return .equate ⟨token.text, .assignment, token.span⟩ value

/-- The name of a common block between slashes. -/
def commonBlockName? : Parser (Option Ident) := do
  if ← consume .slash then
    let token ← expectIdent
    discard <| expect .slash
    unless ← trySymbols (·.declareCommonBlock token) do
      report (.duplicateDefinition "Common block" token.text) token.span
    return some ⟨token.text, .label, token.span⟩
  else return none

/-- A variable of a common block, with its size if it is a matrix. -/
def commonItem : Parser CommonItem := do
  let token ← expectVariable
  let size ← if ← sees .leftParen then some <$> rowAndColumn primary token.span else pure none
  declareAs .commonVariable token (·.declareCommonVariable token size)
  let name : Ident := ⟨token.text, .assignment, token.span⟩
  return ⟨name, size.map fun (rows, cols) => ⟨name, rows, cols⟩⟩

def commonAction : Parser Action := do
  let block ← commonBlockName?
  return .common block (← commaList commonItem)

/-- A matrix and its size. -/
def dimension : Parser Dimension := do
  let token ← expectVariable
  let (rows, cols) ← rowAndColumn primary token.span
  declareAs .matrix token (·.declareMatrix token rows cols)
  return ⟨⟨token.text, .assignment, token.span⟩, rows, cols⟩

/-- All elements of a matrix at once, from a value or from another matrix. -/
def matAction : Parser Action := do
  let name ← variableIdent .assignment
  unless (← get).symbols.isMatrix name.name do
    report (.expected "a dimensioned matrix") name.span
  discard <| expect .equal
  if ← consume (.keyword .MAT) then return .mat name (.variable (← variableIdent .reference))
  else return .mat name (← expression)

def insertAction : Parser Action := do
  discard advance
  let token ← expectIdent
  unless ← trySymbols (·.declareInsert token) do
    report (.duplicateInsert token.text) token.span
  return .insert ⟨token.text, .insertName, token.span⟩

/-! ## 5. Dynamic arrays and files -/

def swapAction : Parser Action := do
  let old ← expression
  discard <| expect (.keyword .WITH)
  let new ← expression
  discard <| expect (.keyword .IN)
  return .swap old new (← target)

def convertAction : Parser Action := do
  let source ← expression
  discard <| expect (.keyword .TO)
  let result ← expression
  discard <| expect (.keyword .IN)
  return .convert source result (← target)

def transferAction : Parser Action := do
  let source ← primary
  discard <| expect (.keyword .TO)
  return .transfer source (← target)

def removeAction : Parser Action := do
  let left ← target
  discard <| expect (.keyword .FROM)
  let source ← expression
  discard <| expect (.keyword .AT)
  let position ← target
  discard <| expect (.keyword .SETTING)
  return .remove left source position (← target)

def matParseAction : Parser Action := do
  let source ← expression
  discard <| expect (.keyword .INTO)
  let name ← variableIdent .assignment
  return .matParse source name (← expressionAfter? .USING)

def osWriteAction : Parser Action := do
  let value ← expression
  expectOnOrTo
  return .osWrite value (← expression)

def osBReadAction : Parser Action := do
  let left ← target
  discard <| expect (.keyword .FROM)
  let handle ← expression
  discard <| expect (.keyword .AT)
  let position ← expression
  discard <| expect (.keyword .LENGTH)
  return .osBRead left handle position (← expression)

def osBWriteAction : Parser Action := do
  let value ← expression
  expectOnOrTo
  let handle ← expression
  discard <| expect (.keyword .AT)
  return .osBWrite value handle (← expression)

/-! ## 6. The keywords of actions -/

/-- How an action goes on behind its keyword, if the keyword opens one. -/
def actionAfter? (keyword : Token) : Keyword → Option (Parser Action)
  | .WHILE => some <| loopCondition keyword .whileHolds
  | .UNTIL => some <| loopCondition keyword .untilHolds
  | .GOSUB => some <| .gosub <$> labelIdent
  | .GOTO => some <| .goto <$> labelIdent
  | .ON => some onJump
  | .RETURN => some <| .return <$> optionalExpression
  | .CALL => some callAction
  | .DECLARE => some declareAction
  | .EQU => some equateAction
  | .COMMON => some commonAction
  | .DIM => some <| .dim <$> commaList dimension
  | .MAT => some matAction
  | .SELECT => some <| .select <$> expression
  | .CLEARSELECT => some <| .clearSelect <$> optionalExpression
  | .SWAP => some swapAction
  | .CONVERT => some convertAction
  | .TRANSFER => some transferAction
  | .REMOVE => some removeAction
  | .MATPARSE => some matParseAction
  | .OSWRITE => some osWriteAction
  | .OSBREAD => some osBReadAction
  | .OSBWRITE => some osBWriteAction
  | .OSCLOSE => some <| .osClose <$> expression
  | .OSDELETE => some <| .osDelete <$> expression
  | .INITRND => some <| .initRnd <$> expression
  | .FLUSH => some <| pure .flush
  | .GARBAGECOLLECT => some <| pure .garbageCollect
  | .NULL => some <| pure .null
  | .DEBUG => some <| pure .debug
  | .STOP => some <| pure .stop
  | .END => some <| pure .finish
  | _ => none

end BasicCheck.Parse
