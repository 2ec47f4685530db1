import BasicCheck.Builtin
import BasicCheck.Procedure

/-!
# Reading tokens

The state of reading a procedure, and the steps that all of the grammar is made of. A parser may
fail with a fault; the state at the failure is kept, so that whoever catches the fault can go on from
there. What limits every repetition and every nesting is `State.size`, the number of steps that the
unread tokens allow: each step forward takes at least one from it (`State.size_advance_lt`).
-/

namespace BasicCheck.Parse

/-! ## 1. States -/

/-- Tokens in sequence, together with their number. -/
structure Unread where
  tokens : List Token
  count : Nat
  count_eq : count = tokens.length

namespace Unread

def ofList (tokens : List Token) : Unread := ⟨tokens, tokens.length, rfl⟩

instance : Inhabited Unread := ⟨ofList []⟩

/-- The tokens behind the first one. -/
def tail (u : Unread) : Unread := ⟨u.tokens.tail, u.count - 1, by simp [u.count_eq]⟩

/-- The number says nothing that the tokens do not say. -/
theorem ext {u v : Unread} (h : u.tokens = v.tokens) : u = v := by
  obtain ⟨tokens, count, hu⟩ := u
  obtain ⟨_, _, hv⟩ := v
  cases h
  simp [hu, hv]

end Unread

/-- What is known while a procedure is read. -/
structure Reading where
  /-- The tokens that are not read yet. -/
  rest : Unread
  /-- The token that was read last. -/
  last : Option Token
  /-- A token `>=` of which the `>` has been read and the `=` has not. -/
  split : Option Token
  /-- The token that stands behind all others. -/
  eof : Token
  symbols : SymbolTable
  diagnostics : Array Diagnostic
  regions : Array Region
  /-- How many loops are open. -/
  loopDepth : Nat
  deriving Inhabited

/-- An attempt that was taken back: what was known before it and what was known after it. -/
structure Attempt where
  before : Reading
  after : Reading

/-- A fault that was caught, and what was read on account of it. -/
structure Recovery where
  fault : Fault
  /-- The tokens that were unread before the attempt that failed. -/
  before : List Token
  /-- The tokens that were unread when reading went on. -/
  after : List Token
  /-- Whether the attempt had begun with an arm, the body of a loop or the arms of a choice. -/
  begun : Bool
  deriving DecidableEq, Repr, Inhabited

/-- The state of reading a procedure. What it has besides what is known is a record of the run: no
    step decides anything by it. -/
structure State extends Reading where
  /-- The attempts at index lists that were taken back so far. They take no room in a run. -/
  takenBack : Attempt → Prop
  /-- How many attempts were taken back so far. -/
  retreats : Nat
  /-- The faults that were caught so far, in their order. -/
  recoveries : Array Recovery
  /-- How many arms, bodies of loops and choices were begun so far. -/
  begun : Nat
  deriving Inhabited

/-- The first half of a token `>=`. -/
def greaterHalf (t : Token) : Token :=
  let start := t.span.start
  ⟨.greater, ">", .onLine start.line start.column (start.column + 1) t.span.file, false⟩

/-- The second half of a token `>=`. -/
def equalHalf (t : Token) : Token :=
  let start := t.span.start
  ⟨.equal, "=", .onLine start.line (start.column + 1) t.span.stop.column t.span.file, false⟩

namespace State

/-- The state before the first of some tokens. -/
def initial (tokens : List Token) : State where
  rest := .ofList tokens
  last := none
  split := none
  eof := Token.endAt ((tokens.getLast?.map (·.span)).getD .blank)
  symbols := .empty
  diagnostics := #[]
  regions := #[]
  loopDepth := 0
  takenBack := fun _ => False
  retreats := 0
  recoveries := #[]
  begun := 0

/-- The next token. -/
def current (s : State) : Token :=
  match s.split with
  | some whole => equalHalf whole
  | none => s.rest.tokens.headD s.eof

/-- The token behind the next one. -/
def next? (s : State) : Option Token :=
  match s.split with
  | some _ => s.rest.tokens.head?
  | none => s.rest.tokens[1]?

/-- The token that was read last; before the first one, the next. -/
def previous (s : State) : Token :=
  match s.split with
  | some whole => greaterHalf whole
  | none => s.last.getD s.current

/-- The next token, and the state behind it. The end of the file is never passed. -/
def advance (s : State) : Token × State :=
  match s.split with
  | some whole => (equalHalf whole, { s with split := none })
  | none =>
    match s.rest.tokens with
    | [] => (s.eof, s)
    | t :: _ => (t, { s with rest := s.rest.tail, last := some t })

/-- How many steps forward there can still be; a token `>=` is good for two. -/
def size (s : State) : Nat :=
  2 * s.rest.count + (if s.split.isSome then 1 else 0)

/-- A step forward makes the state smaller, unless all tokens have been read. -/
theorem size_advance_lt (s : State) (h : s.rest.tokens ≠ [] ∨ s.split.isSome) :
    s.advance.2.size < s.size := by
  unfold advance size
  split
  · simp [*]
  · split
    · simp_all
    · simp_all [Unread.tail, s.rest.count_eq]

end State

/-! ## 2. Parsers -/

/-- A step that cannot fail. -/
abbrev Step := StateM State

/-- A step that may fail. -/
abbrev Parser := ExceptT Fault Step

/-! ### Looking -/

/-- The next token. -/
def current : Step Token := return (← get).current

/-- The kind of the next token. -/
def currentKind : Step Kind := return (← get).current.kind

/-- The kind of the token behind the next one. -/
def nextKind : Step Kind := return ((← get).next?.map (·.kind)).getD .endOfFile

/-- Whether the next token is of a given kind. -/
def sees (kind : Kind) : Step Bool := return (← get).current.kind == kind

/-- Whether a statement may end here: before a separator, at the end, or before the `else` that
    closes a `then` on the same line. -/
def atStatementEnd : Step Bool := do
  match ← currentKind with
  | .newline | .semicolon | .endOfFile | .keyword .ELSE => return true
  | _ => return false

/-- The span from a given one to the token that was read last. -/
def spanFrom (start : Span) : Step Span := return start.join (← get).previous.span

/-! ### Reading -/

/-- Reads the next token, whatever it is. -/
def advance : Step Token := fun s => s.advance

/-- Reads the next token if it is of a given kind. -/
def consume (kind : Kind) : Step Bool := do
  if ← sees kind then
    discard advance
    return true
  else return false

/-- How messages call a kind of token that they ask for. -/
def wording : Kind → String
  | .keyword word => Text.capitalize word.title
  | .leftParen => "'('"
  | .rightParen => "')'"
  | .rightBracket => "']'"
  | .equal => "'='"
  | .comma => "','"
  | .slash => "'/'"
  | kind => kind.title

/-- Fails at the next token. -/
def failHere {α : Type} (cause : Cause) : Parser α := do throw ⟨cause, (← current).span⟩

/-- Reads a token that has to be of a given kind. -/
def expect (kind : Kind) : Parser Token := do
  if ← sees kind then advance
  else failHere (.unexpectedToken (wording kind) (← current).describe)

/-- Reads a name. -/
def expectIdent : Parser Token := do
  if ← sees .ident then advance else failHere .expectedIdent

/-- Reads a separator; at the end of the file none is needed. -/
def expectSeparator : Parser Unit := do
  match ← currentKind with
  | .newline | .semicolon => discard advance
  | .endOfFile => pure ()
  | _ => failHere (.expectedSeparator (← current).describe)

/-! ### Recording -/

/-- Records a fault and goes on. -/
def reportFault (f : Fault) : Step Unit :=
  modify fun s => { s with diagnostics := s.diagnostics.push (.ofFault f) }

/-- Records a fault with a given cause. -/
def report (cause : Cause) (span : Span) : Step Unit := reportFault ⟨cause, span⟩

/-- Records a region that is closed by the token that was read last. -/
def recordRegion (kind : RegionKind) (span : Span) : Step Unit :=
  modify fun s => { s with regions := s.regions.push ⟨kind, span⟩ }

/-- Changes the symbol table, and is told whether that was possible. -/
def trySymbols (f : SymbolTable → Bool × SymbolTable) : Step Bool :=
  modifyGet fun s => ((f s.symbols).1, { s with symbols := (f s.symbols).2 })

/-- Refers to a variable. -/
def noteVariable (token : Token) : Step Unit :=
  modify fun s => { s with symbols := (s.symbols.referenceVariable token).2 }

/-- Refers to a label. -/
def noteLabel (token : Token) : Step Unit :=
  modify fun s => { s with symbols := (s.symbols.referenceLabel token).2 }

/-- Refers to a subroutine that need not be declared. -/
def noteCalled (token : Token) : Step Unit :=
  modify fun s => { s with symbols := (s.symbols.referenceOrDeclareSubroutine token).2 }

/-- Refers to a symbol of a given kind, if there is one. -/
def noteIfKnown (kind : SymbolKind) (token : Token) : Step Bool :=
  trySymbols fun symbols =>
    let (found, symbols) := symbols.reference? kind token
    (found.isSome, symbols)

/-! ### Keeping the record -/

/-- Where an attempt starts. -/
structure Outset where
  unread : List Token
  begun : Nat

/-- Remembers where an attempt starts. -/
def outset : Step Outset := return ⟨(← get).rest.tokens, (← get).begun⟩

/-- Begins with an arm, the body of a loop or the arms of a choice. -/
def begin : Step Unit := modify fun s => { s with begun := s.begun + 1 }

/-- A fault that was caught, as a state tells it that was reached behind it. -/
def State.recovery (s : State) (start : Outset) (f : Fault) : Recovery :=
  ⟨f, start.unread, s.rest.tokens, start.begun < s.begun⟩

/-- Notes that a fault was caught. -/
def noteRecovery (start : Outset) (f : Fault) : Step Unit :=
  modify fun s => { s with recoveries := s.recoveries.push (s.recovery start f) }

/-! ## 3. Repetition and nesting -/

/-- What a turn of a loop ends with. -/
inductive Turn (α β : Type) where
  | again (a : α)
  | done (b : β)

/-- A loop of at most a given number of turns. -/
def loopUpTo {α β : Type} (body : α → Step (Turn α β)) (giveUp : α → β) : Nat → α → Step β
  | 0, a => pure (giveUp a)
  | n + 1, a => do
    match ← body a with
    | .again a => loopUpTo body giveUp n a
    | .done b => pure b

/-- A loop each turn of which but the last steps forward. One that stood still would be given up
    when there had been more turns than tokens. -/
def loop {α β : Type} (body : α → Step (Turn α β)) (giveUp : α → β) (a : α) : Step β := do
  loopUpTo body giveUp ((← get).size + 1) a

/-- The fault of a parser that stands still; no part of the grammar does. -/
def standstill : Fault := ⟨.expectedExpr, .blank⟩

/-- A loop whose turns may fail. -/
def tryLoop {α β : Type} (body : α → Parser (Turn α β)) (a : α) : Parser β :=
  ExceptT.mk <| loop
    (fun a => do
      match ← (body a).run with
      | .ok (.again a) => return .again a
      | .ok (.done b) => return .done (.ok b)
      | .error f => return .done (.error f))
    (fun _ => .error standstill) a

/-- A parser that contains itself, nested at most a given number of times. -/
def nestUpTo {α : Type} (layer : Parser α → Parser α) : Nat → Parser α
  | 0 => throw standstill
  | n + 1 => layer (nestUpTo layer n)

/-- A parser that contains itself behind at least one step forward. -/
def nest {α : Type} (layer : Parser α → Parser α) : Parser α := do
  nestUpTo layer ((← get).size + 1)

/-- Items between commas, at least one. -/
def commaList {α : Type} (item : Parser α) : Parser (List α) := do
  let first ← item
  let items ← tryLoop (fun (items : Array α) => do
    if ← consume .comma then return .again (items.push (← item))
    else return .done items) #[first]
  return items.toList

/-- Reads on as long as tokens are of certain kinds; the end of the file must not be one. -/
def skipWhile (skipped : Kind → Bool) : Step Unit :=
  loop (fun _ => do
    if skipped (← currentKind) then
      discard advance
      return .again ()
    else return .done ()) id ()

def skipNewlines : Step Unit := skipWhile (· == .newline)

/-- Reads up to the next separator and over it. -/
def synchronize : Step Unit := do
  skipWhile fun kind => !kind.isSeparator && kind != .endOfFile
  unless ← sees .endOfFile do discard advance

end BasicCheck.Parse
