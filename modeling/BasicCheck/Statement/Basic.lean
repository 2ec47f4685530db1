import BasicCheck.Expr

/-!
# Statements

A statement is an action, which holds no other statements; a decision, whose outcome picks a `then`
or an `else` arm; one of the two loops; or a choice of cases. Most statements that work on files are
decisions: their `then` arm is run when they succeed and their `else` arm when they fail.
-/

namespace BasicCheck

/-! ## 1. Small enumerations -/

/-- The operator of an assignment. -/
inductive AssignOp where
  | assign
  | update (op : Arithmetic)
  | concat
  deriving DecidableEq, Repr, Inhabited

namespace AssignOp

/-- The assignment operator that a token stands for. -/
def ofKind? : Kind → Option AssignOp
  | .equal => some assign
  | .plusEqual => some (update .add)
  | .minusEqual => some (update .sub)
  | .starEqual => some (update .mul)
  | .slashEqual => some (update .div)
  | .colonEqual => some concat
  | _ => none

/-- Operators that read the target before they write it. -/
def isCompound : AssignOp → Bool
  | assign => false
  | _ => true

end AssignOp

/-- Whether a loop goes on while its condition holds or until it does. -/
inductive LoopTest where
  | whileHolds | untilHolds
  deriving DecidableEq, Repr, Inhabited

/-- How a jump through a list of labels leaves. -/
inductive Jump where
  | goto | gosub
  deriving DecidableEq, Repr, Inhabited

/-- The routines that can be declared. -/
inductive Routine where
  | function | subroutine
  deriving DecidableEq, Repr, Inhabited

/-- The forms of reading a record. -/
inductive ReadForm where
  | read | readU | readO | readV
  deriving DecidableEq, Repr, Inhabited

/-- The forms of writing a record. -/
inductive WriteForm where
  | write | writeU | writeV
  deriving DecidableEq, Repr, Inhabited

/-! ## 2. Parts of statements -/

/-- A matrix and its size. -/
structure Dimension where
  name : Ident
  rows : Expr
  cols : Option Expr
  deriving Repr, Inhabited

/-- A variable of a common block, with its size if it is a matrix. -/
structure CommonItem where
  name : Ident
  size : Option Dimension
  deriving Repr, Inhabited

/-- What a counting loop runs through. -/
structure Counter where
  name : Ident
  start : Expr
  limit : Expr
  step : Option Expr
  deriving Repr, Inhabited

/-! ## 3. Actions -/

/-- A statement without statements in it. -/
inductive Action where
  | assignment (target : Expr) (op : AssignOp) (value : Expr)
  | matrixAssignment (name : Ident) (row : Expr) (col : Option Expr) (value : Expr)
  /-- All elements of a matrix at once. -/
  | mat (name : Ident) (value : Expr)
  /-- The condition under which the enclosing loop is left. -/
  | loopCondition (test : LoopTest) (cond : Expr)
  | gosub (label : Ident)
  | goto (label : Ident)
  /-- A jump to the label whose number the selector gives. -/
  | onJump (jump : Jump) (selector : Expr) (labels : List Ident)
  /-- The start of an internal subroutine. -/
  | label (label : Ident)
  | return (value : Option Expr)
  /-- A call of a subroutine, or of the one that a variable names. -/
  | call (name : Ident) (args : List Expr) (indirect : Bool)
  /-- A call of a declared subroutine by its name alone. -/
  | subroutineCall (name : Ident) (args : List Expr)
  | memberCall (target : Expr)
  | declare (routine : Routine) (names : List Ident)
  | equate (name : Ident) (value : Expr)
  | common (block : Option Ident) (items : List CommonItem)
  | dim (matrices : List Dimension)
  | insert (name : Ident)
  | swap (old new target : Expr)
  | convert (source result target : Expr)
  | transfer (source target : Expr)
  | remove (target source position flag : Expr)
  | select (source : Expr)
  | clearSelect (cursor : Option Expr)
  | osWrite (value path : Expr)
  | osBRead (target handle position length : Expr)
  | osBWrite (value handle position : Expr)
  | osClose (handle : Expr)
  | osDelete (path : Expr)
  | matParse (source : Expr) (name : Ident) (delimiter : Option Expr)
  | initRnd (seed : Expr)
  | flush | garbageCollect | null | debug | stop
  /-- The end of the procedure. -/
  | finish
  /-- A semicolon on its own. -/
  | empty
  deriving Repr, Inhabited

/-! ## 4. Decisions -/

/-- What decides between a `then` and an `else` arm. -/
inductive Decision where
  | condition (cond : Expr)
  | read (form : ReadForm) (target file key : Expr) (column : Option Expr)
  | matRead (name : Ident) (file key : Expr)
  | readNext (target : Expr) (cursor : Option Expr)
  | write (form : WriteForm) (value file key : Expr) (column : Option Expr)
  | matWrite (name : Ident) (file key : Expr)
  | open (dict : Option Expr) (table handle : Expr)
  | delete (file key : Expr)
  | lock (file key : Expr)
  | unlock (file key : Expr)
  | locate (needle haystack : Expr) (delimiter order : Option Expr) (position : Expr)
  | osRead (target path : Expr)
  | osOpen (path handle : Expr)
  deriving Repr, Inhabited

/-! ## 5. Statements -/

mutual

/-- A statement and its span. -/
inductive Statement where
  | action (form : Action) (span : Span)
  | decision (test : Decision) (thenArm elseArm : Option (List Statement)) (span : Span)
  /-- A loop that counts; the name behind its `next` is kept. -/
  | counted (counter : Counter) (body : List Statement) (closing : Option Ident) (span : Span)
  | loop (body : List Statement) (span : Span)
  | choice (arms : List CaseArm) (span : Span)

/-- An arm of a choice of cases. -/
inductive CaseArm where
  | mk (cond : Expr) (body : List Statement) (span : Span)

end

/-- Statements in sequence. -/
abbrev Block := List Statement

instance : Inhabited Statement := ⟨.action .empty .blank⟩

instance : Inhabited CaseArm := ⟨.mk default [] .blank⟩

namespace CaseArm

def cond : CaseArm → Expr
  | mk cond _ _ => cond

def body : CaseArm → Block
  | mk _ body _ => body

def span : CaseArm → Span
  | mk _ _ span => span

end CaseArm

namespace Statement

/-- Where a statement stands. -/
def span : Statement → Span
  | action _ span | decision _ _ _ span | counted _ _ _ span | loop _ span | choice _ span => span

/-- A semicolon on its own. -/
def isEmpty : Statement → Bool
  | action .empty _ => true
  | _ => false

/-- Statements that need no separator behind them. -/
def isSeparatorExempt : Statement → Bool
  | action (.label _) _ | action .empty _ => true
  | _ => false

end Statement

end BasicCheck
