import BasicCheck.Span
import BasicCheck.Token.Kind

/-!
# Expressions

Identifiers with the role that they play, operators, and expression trees. `Expr.baseIdent?` is the
identifier that a write to an expression lands on, `Expr.idents` lists all identifiers of an
expression in the order in which they are evaluated.
-/

namespace BasicCheck

/-! ## 1. Identifiers -/

/-- What an identifier does where it stands. -/
inductive Role where
  | assignment | reference | label | functionName | insertName
  deriving DecidableEq, Repr, Inhabited

/-- A name in a procedure. -/
structure Ident where
  name : String
  role : Role
  span : Span
  deriving DecidableEq, Repr, Inhabited

/-- The name that an identifier is looked up by. -/
def Ident.folded (i : Ident) : String := Text.fold i.name

/-! ## 2. Operators -/

/-- The operators of arithmetic. -/
inductive Arithmetic where
  | add | sub | mul | div
  deriving DecidableEq, Repr, Inhabited

/-- An operator between two operands. -/
inductive BinOp where
  | and | or | matching
  | compare (manner : Manner) (relation : Relation)
  | concat
  /-- Concatenation value by value. -/
  | multiConcat
  | arithmetic (op : Arithmetic)
  /-- Arithmetic value by value. -/
  | multiArithmetic (op : Arithmetic)
  | power
  deriving DecidableEq, Repr, Inhabited

/-- The operator that a token stands for between two operands. -/
def BinOp.ofKind? : Kind → Option BinOp
  | .keyword .AND => some .and
  | .keyword .OR => some .or
  | .keyword .MATCHES => some .matching
  | .relation manner relation => some (.compare manner relation)
  | .doubleEqual => some (.compare .plain .eq)
  | .colon => some .concat
  | .doubleColon => some .multiConcat
  | .plus => some (.arithmetic .add)
  | .minus => some (.arithmetic .sub)
  | .star => some (.arithmetic .mul)
  | .slash => some (.arithmetic .div)
  | .caret => some .power
  | .doublePlus => some (.multiArithmetic .add)
  | .doubleMinus => some (.multiArithmetic .sub)
  | .doubleStar => some (.multiArithmetic .mul)
  | .doubleSlash => some (.multiArithmetic .div)
  | _ => none

/-! ## 3. Expressions -/

/-- An expression. -/
inductive Expr where
  /-- A variable, an equate or a system variable. -/
  | variable (ident : Ident)
  /-- A decimal or hexadecimal literal as written. -/
  | number (text : String) (span : Span)
  /-- The value of a quoted literal. -/
  | string (value : String) (span : Span)
  | binary (op : BinOp) (left right : Expr) (span : Span)
  | negate (inner : Expr) (span : Span)
  /-- Elements of a dynamic array: `x<f, v, s>`. -/
  | arrayIndex (base : Expr) (indexes : List Expr) (span : Span)
  /-- A part of a text: `x[start, length]`. -/
  | substring (base : Expr) (indexes : List Expr) (span : Span)
  /-- An element of a declared matrix: `m(r, c)`. -/
  | matrixIndex (name : Ident) (row : Expr) (col : Option Expr) (span : Span)
  /-- A function call; `@(x, y)` is one with the name `@`. -/
  | call (name : Ident) (args : List Expr) (span : Span)
  /-- A choice: `if c then a else b`. -/
  | conditional (cond thenValue elseValue : Expr) (span : Span)
  /-- A member of an object: `object->member`. -/
  | property (object : Expr) (member : Ident) (span : Span)
  /-- A member of an object with arguments: `object->member(args)`. -/
  | method (object : Expr) (member : Ident) (args : List Expr) (span : Span)
  deriving Repr, Inhabited

namespace Expr

/-- Where an expression stands. -/
def span : Expr → Span
  | .variable ident => ident.span
  | number _ span | string _ span | binary _ _ _ span | negate _ span | arrayIndex _ _ span
  | substring _ _ span | matrixIndex _ _ _ span | call _ _ span | conditional _ _ _ span
  | property _ _ span | method _ _ _ span => span

/-- An expression that stands for one that could not be read. -/
def missing (span : Span) : Expr := string "" span

/-- A member of an object, with arguments or without. -/
def isMember : Expr → Bool
  | property _ _ _ | method _ _ _ _ => true
  | _ => false

/-- Expressions that an index list in angle brackets may follow. -/
def isIndexable : Expr → Bool
  | .variable _ | matrixIndex _ _ _ _ | call _ _ _ => true
  | _ => false

/-- The identifier that a write to an expression lands on. -/
def baseIdent? : Expr → Option Ident
  | .variable ident => some ident
  | matrixIndex name _ _ _ => some name
  | arrayIndex base _ _ | substring base _ _ => base.baseIdent?
  | property object _ _ | method object _ _ _ => object.baseIdent?
  | _ => none

/-- The expression with another role for its base identifier. -/
def setBaseRole (role : Role) : Expr → Expr
  | .variable ident => .variable { ident with role }
  | matrixIndex name row col span => matrixIndex { name with role } row col span
  | arrayIndex base indexes span => arrayIndex (base.setBaseRole role) indexes span
  | substring base indexes span => substring (base.setBaseRole role) indexes span
  | property object member span => property (object.setBaseRole role) member span
  | method object member args span => method (object.setBaseRole role) member args span
  | e => e

mutual

/-- The identifiers of an expression, in the order in which they are evaluated. -/
def idents : Expr → List Ident
  | .variable ident => [ident]
  | number _ _ | string _ _ => []
  | binary _ left right _ => left.idents ++ right.idents
  | negate inner _ => inner.idents
  | arrayIndex base indexes _ | substring base indexes _ => base.idents ++ identsOfAll indexes
  | matrixIndex name row none _ => name :: row.idents
  | matrixIndex name row (some col) _ => name :: (row.idents ++ col.idents)
  | call name args _ => name :: identsOfAll args
  | conditional cond thenValue elseValue _ =>
    cond.idents ++ thenValue.idents ++ elseValue.idents
  | property object member _ => object.idents ++ [member]
  | method object member args _ => object.idents ++ member :: identsOfAll args

/-- The identifiers of several expressions. -/
def identsOfAll : List Expr → List Ident
  | [] => []
  | e :: rest => e.idents ++ identsOfAll rest

end

theorem identsOfAll_eq_flatMap (es : List Expr) : identsOfAll es = es.flatMap idents := by
  induction es with
  | nil => rfl
  | cons e rest ih => simp [identsOfAll, ih]

/-- Another role for the base identifier leaves it the same name at the same place. -/
theorem baseIdent?_setBaseRole (role : Role) (e : Expr) :
    (e.setBaseRole role).baseIdent? = e.baseIdent?.map ({ · with role }) := by
  fun_induction setBaseRole role e <;> simp_all [baseIdent?]

end Expr

end BasicCheck
