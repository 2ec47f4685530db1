import BasicCheck.Parse.Action

/-!
# Reading decisions

What stands between the keyword of a decision and its arms, and which decisions need no arm.
-/

namespace BasicCheck.Parse

/-- A file and the key of a record in it. -/
def fileAndKey : Parser (Expr × Expr) := do
  let file ← expression
  discard <| expect .comma
  return (file, ← expression)

/-- The column of a record, behind a comma. -/
def columnIf (wanted : Bool) : Parser (Option Expr) := do
  if wanted then
    discard <| expect .comma
    return some (← expression)
  else return none

def readDecision (form : ReadForm) : Parser Decision := do
  let left ← target
  discard <| expect (.keyword .FROM)
  let (file, key) ← fileAndKey
  return .read form left file key (← columnIf (form == .readV))

def matReadDecision : Parser Decision := do
  let name ← variableIdent .assignment
  discard <| expect (.keyword .FROM)
  let (file, key) ← fileAndKey
  return .matRead name file key

def readNextDecision : Parser Decision := do
  let left ← target
  return .readNext left (← expressionAfter? .USING)

def writeDecision (form : WriteForm) : Parser Decision := do
  let value ← expression
  expectOnOrTo
  let (file, key) ← fileAndKey
  return .write form value file key (← columnIf (form == .writeV))

def matWriteDecision : Parser Decision := do
  let name ← variableIdent .reference
  expectOnOrTo
  let (file, key) ← fileAndKey
  return .matWrite name file key

def openDecision : Parser Decision := do
  let first ← expression
  let second ← if ← consume .comma then some <$> expression else pure none
  discard <| expect (.keyword .TO)
  let handle ← target
  match second with
  | some table => return .open (some first) table handle
  | none => return .open none first handle

/-- The delimiter and the order of a search, in any sequence; the last of each counts. -/
def searchOptions : Parser (Option Expr × Option Expr) :=
  tryLoop (fun (delimiter, order) => do
    if ← consume (.keyword .USING) then return .again (some (← expression), order)
    else if ← consume (.keyword .BY) then return .again (delimiter, some (← expression))
    else return .done (delimiter, order)) (none, none)

def locateDecision : Parser Decision := do
  let needle ← expression
  discard <| expect (.keyword .IN)
  let haystack ← expression
  let (delimiter, order) ← searchOptions
  discard <| expect (.keyword .SETTING)
  return .locate needle haystack delimiter order (← target)

def osReadDecision : Parser Decision := do
  let left ← target
  discard <| expect (.keyword .FROM)
  return .osRead left (← expression)

def osOpenDecision : Parser Decision := do
  let path ← expression
  discard <| expect (.keyword .TO)
  return .osOpen path (← target)

/-- How a decision goes on behind its keyword, if the keyword opens one. -/
def decisionAfter? : Keyword → Option (Parser Decision)
  | .IF => some <| .condition <$> expression
  | .READ => some <| readDecision .read
  | .READU => some <| readDecision .readU
  | .READO => some <| readDecision .readO
  | .READV => some <| readDecision .readV
  | .MATREAD => some matReadDecision
  | .READNEXT => some readNextDecision
  | .WRITE => some <| writeDecision .write
  | .WRITEU => some <| writeDecision .writeU
  | .WRITEV => some <| writeDecision .writeV
  | .MATWRITE => some matWriteDecision
  | .OPEN => some openDecision
  | .DELETE => some <| (fun (file, key) => .delete file key) <$> fileAndKey
  | .LOCK => some <| (fun (file, key) => .lock file key) <$> fileAndKey
  | .UNLOCK => some <| (fun (file, key) => .unlock file key) <$> fileAndKey
  | .LOCATE => some locateDecision
  | .OSREAD => some osReadDecision
  | .OSOPEN => some osOpenDecision
  | _ => none

/-- Decisions that need neither a `then` nor an `else`. -/
def armsOptional : Decision → Bool
  | .write _ _ _ _ _ | .matWrite _ _ _ | .delete _ _ | .unlock _ _ => true
  | _ => false

end BasicCheck.Parse
