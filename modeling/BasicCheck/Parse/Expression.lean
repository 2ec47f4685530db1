import BasicCheck.Parse.State

/-!
# Reading expressions

Binary operators bind on six levels, from the loosest to the tightest: logic, comparison,
concatenation, addition, multiplication and powers, all of them from the left. Everything is built
over the operands of the tightest level (`primaryLayer`), which contain whole expressions again in
brackets and arguments; `nest` ties the two together.

A `<` behind a name may open an index list or compare. The list is tried first, and everything that
the attempt has changed is taken back if no `>` closes it (`angleIndexes?`).
-/

namespace BasicCheck.Parse

/-! ## 1. Going back -/

/-- What has to be known of a state to come back to it from an attempt that starts at a `<`. -/
structure Snapshot where
  rest : Unread
  last : Option Token
  symbols : Checkpoint
  diagnostics : Nat
  regions : Nat

/-- What has to be known to come back to a state. -/
def State.snapshot (s : State) : Snapshot where
  rest := s.rest
  last := s.last
  symbols := s.symbols.checkpoint
  diagnostics := s.diagnostics.size
  regions := s.regions.size

/-- The state without anything that has been read or recorded since a snapshot. -/
def State.restore (s : State) (snapshot : Snapshot) : State :=
  { s with
    rest := snapshot.rest
    last := snapshot.last
    split := none
    symbols := s.symbols.rollback snapshot.symbols
    diagnostics := s.diagnostics.take snapshot.diagnostics
    regions := s.regions.take snapshot.regions }

/-- The state after an attempt that started at a snapshot has been taken back. -/
@[inline] def State.takeBack (s : State) (snapshot : Snapshot) (before : Reading) : State :=
  let back := s.restore snapshot
  { back with
    takenBack := fun a => s.takenBack a ∨ a = ⟨before, back.toReading⟩
    retreats := s.retreats + 1 }

/-- Reads the `>` of a token `>=` and leaves its `=` as the next token. -/
def splitGreaterEqual : Step Bool := fun s =>
  let token := s.current
  if token.kind = .greaterEqual ∧ token.text = ">=" then
    (true, { s with rest := s.rest.tail, last := some token, split := some token })
  else (false, s)

/-- Reads the `>` that closes an index list. -/
def closeAngle : Step Bool := do
  if ← consume .greater then return true else splitGreaterEqual

/-! ## 2. The levels of binary operators -/

section Levels

variable (primary : Parser Expr)

/-- A binary expression over the spans of its operands. -/
def binaryOf (op : BinOp) (left right : Expr) : Expr :=
  .binary op left right (left.span.join right.span)

/-- Reads an operator between two operands. -/
def takeOperator : Parser BinOp := do
  let token ← advance
  match BinOp.ofKind? token.kind with
  | some op => return op
  | none => throw ⟨.expectedExpr, token.span⟩

/-- Operands with operators of one level between them, taken together from the left. -/
def chain (operand : Parser Expr) (isOperator : Kind → Bool) : Parser Expr := do
  let first ← operand
  tryLoop (fun left => do
    if isOperator (← currentKind) then
      let op ← takeOperator
      let right ← operand
      return .again (binaryOf op left right)
    else return .done left) first

def powers : Parser Expr := chain primary (· == .caret)

def products : Parser Expr := chain (powers primary) Kind.isMultiplicative

def sums : Parser Expr := chain (products primary) Kind.isAdditive

def concatenations : Parser Expr := chain (sums primary) Kind.isConcatenation

def comparisons : Parser Expr := chain (concatenations primary) Kind.isComparison

/-- An expression over given operands. -/
def expressionOver : Parser Expr := chain (comparisons primary) Kind.isLogical

/-! ## 3. Lists of expressions -/

/-- Arguments in parentheses. -/
def argumentsOver : Parser (List Expr) := do
  discard <| expect .leftParen
  let args ← if ← sees .rightParen then pure [] else commaList (expressionOver primary)
  discard <| expect .rightParen
  return args

/-- The row and perhaps the column of a matrix, in parentheses behind a name that starts at a given
    span. -/
def rowAndColumn (start : Span) : Parser (Expr × Option Expr) := do
  match ← argumentsOver primary with
  | [] => throw ⟨.expectedExpr, (← get).previous.span⟩
  | row :: cols =>
    if cols.length > 1 then report (.tooManyIndexes "matrix" 2) (← spanFrom start)
    return (row, cols.head?)

/-- Reads indexes from their `<` to their `>`. An index is read without comparisons, so that a `>` can
    only close the list. -/
def closedIndexes? : Step (Option (List Expr)) := do
  discard advance
  match ← (commaList (concatenations primary)).run with
  | .ok indexes => if ← closeAngle then return some indexes else return none
  | .error _ => return none

/-- The indexes in angle brackets behind an expression. If they are not closed, the `<` is left for a
    comparison and nothing of the attempt remains. -/
def angleIndexes? (base : Expr) : Step (Option (List Expr)) := do
  let start ← get
  let snapshot := start.snapshot
  match ← closedIndexes? primary with
  | some indexes =>
    if indexes.length > 3 then report (.tooManyIndexes "array" 3) (← spanFrom base.span)
    return some indexes
  | none =>
    modify (·.takeBack snapshot start.toReading)
    return none

/-! ## 4. Operands -/

/-- A part of a text behind an expression. -/
def substringOf (base : Expr) : Parser Expr := do
  discard advance
  let indexes ← commaList (expressionOver primary)
  discard <| expect .rightBracket
  let span ← spanFrom base.span
  if indexes.length > 2 then report (.tooManyIndexes "substring" 2) span
  return .substring base indexes span

/-- A member of an object behind an expression. Any word may name it. -/
def memberOf (object : Expr) : Parser Expr := do
  discard advance
  let token ← advance
  unless token.kind == .ident || token.kind.isKeyword do throw ⟨.expectedIdent, token.span⟩
  let member : Ident := ⟨token.text, .functionName, token.span⟩
  if ← sees .leftParen then
    let args ← argumentsOver primary
    return .method object member args (← spanFrom object.span)
  else return .property object member (← spanFrom object.span)

/-- Indexes, substrings and members behind an expression, as many as there are. -/
def suffixes (base : Expr) : Parser Expr :=
  tryLoop (fun e => do
    match ← currentKind with
    | .less =>
      if e.isIndexable then
        match ← angleIndexes? primary e with
        | some indexes => return .again (.arrayIndex e indexes (← spanFrom e.span))
        | none => return .done e
      else return .done e
    | .leftBracket => return .again (← substringOf primary e)
    | .arrow => return .again (← memberOf primary e)
    | _ => return .done e) base

/-- A call of a function with a given name. -/
def callOf (name : Ident) : Parser Expr := do
  let args ← argumentsOver primary
  return .call name args (← spanFrom name.span)

/-- Whether the next token is a keyword that is used as the name of a function. -/
def seesFunctionKeyword : Step Bool := do
  let s ← get
  let token := s.current
  return token.kind.mayNameFunction && !token.functionDisallowed &&
    (← nextKind) == .leftParen &&
    (Builtin.isIntrinsic token.text || s.symbols.contains .function token.text)

/-- A name: an element of a matrix, a call, an equate or a variable. -/
def named : Parser Expr := do
  let token ← advance
  if ← sees .leftParen then
    if (← get).symbols.isMatrix token.text then
      noteVariable token
      let name : Ident := ⟨token.text, .reference, token.span⟩
      let (row, col) ← rowAndColumn primary token.span
      return .matrixIndex name row col (← spanFrom token.span)
    else
      let known ← noteIfKnown .function token
      if !known && !Builtin.isIntrinsic token.text then
        report (.undeclaredFunction token.text) token.span
      callOf primary ⟨token.text, .functionName, token.span⟩
  else
    unless ← noteIfKnown .equate token do noteVariable token
    return .variable ⟨token.text, .reference, token.span⟩

/-- A choice between two values. -/
def conditional : Parser Expr := do
  let start := (← advance).span
  let cond ← expressionOver primary
  discard <| expect (.keyword .THEN)
  let thenValue ← expressionOver primary
  discard <| expect (.keyword .ELSE)
  let elseValue ← expressionOver primary
  return .conditional cond thenValue elseValue (← spanFrom start)

/-- An operand that opens with a keyword: a call, a choice, or a variable with the name of a keyword
    that only ever follows an expression. -/
def keywordOperand (word : Keyword) : Parser Expr := do
  let token ← current
  if ← seesFunctionKeyword then
    discard advance
    discard <| noteIfKnown .function token
    callOf primary ⟨token.text, .functionName, token.span⟩
  else if word = .IF then conditional primary
  else if word.isContextual then
    discard advance
    noteVariable { token with kind := .ident }
    return .variable ⟨token.text, .reference, token.span⟩
  else failHere .expectedExpr

/-- An operand over the operands within it. -/
def primaryLayer : Parser Expr := do
  let token ← current
  match token.kind with
  | .number | .hexNumber =>
    discard advance
    suffixes primary (.number token.text token.span)
  | .string =>
    discard advance
    suffixes primary (.string (literalValue token.text) token.span)
  | .leftParen =>
    discard advance
    let inner ← expressionOver primary
    discard <| expect .rightParen
    suffixes primary inner
  | .minus =>
    discard advance
    let inner ← primary
    return .negate inner (token.span.join inner.span)
  | .plus =>
    discard advance
    primary
  | .atSign =>
    discard advance
    if ← sees .leftParen then
      suffixes primary (← callOf primary ⟨"@", .functionName, token.span⟩)
    else failHere (.expected "'(' after '@'")
  | .systemVariable =>
    discard advance
    noteVariable token
    suffixes primary (.variable ⟨token.text, .reference, token.span⟩)
  | .ident => suffixes primary (← named primary)
  | .keyword word => suffixes primary (← keywordOperand primary word)
  | _ => throw ⟨.expectedExpr, token.span⟩

end Levels

/-! ## 5. The grammar of expressions -/

/-- An operand with its suffixes. -/
def primary : Parser Expr := nest primaryLayer

/-- An expression. -/
def expression : Parser Expr := expressionOver primary

/-- Arguments in parentheses. -/
def arguments : Parser (List Expr) := argumentsOver primary

/-- An expression that can be assigned to. Its base identifier is marked as assigned, except that a
    member of an object leaves the object as it is. -/
def target : Parser Expr := do
  let start := (← current).span
  let e ← primary
  if e.isMember then return e
  else if e.baseIdent?.isSome then return e.setBaseRole .assignment
  else throw ⟨.expected "variable", start⟩

end BasicCheck.Parse
