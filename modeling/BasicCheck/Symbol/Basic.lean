import BasicCheck.Expr
import BasicCheck.Token

/-!
# Symbols

What a name stands for. Only a variable has a scope and a shape, only an equate a value, and only a
label can be known before it is declared.
-/

namespace BasicCheck

/-- The name spaces of a procedure. -/
inductive SymbolKind where
  | function | subroutine | insert | label | variable | equate | commonBlock
  deriving DecidableEq, Repr, Inhabited

namespace SymbolKind

/-- What messages call a kind of symbol. -/
def describe : SymbolKind → String
  | function => "function"
  | subroutine => "subroutine"
  | insert => "insert"
  | label => "label"
  | .variable => "variable"
  | equate => "equate"
  | commonBlock => "common label"

/-- The position of a name space among all of them. -/
def rank : SymbolKind → Nat
  | function => 0 | subroutine => 1 | insert => 2 | label => 3 | .variable => 4 | equate => 5
  | commonBlock => 6

theorem rank_injective {a b : SymbolKind} (h : a.rank = b.rank) : a = b := by
  cases a <;> cases b <;> first | rfl | exact absurd h (by decide)

end SymbolKind

/-- Where a variable comes from: the header, the procedure itself, a common block, or the system. -/
inductive Scope where
  | parameter | own | common | system
  deriving DecidableEq, Repr, Inhabited

/-- The name of a scope in listings. -/
def Scope.title : Scope → String
  | parameter => "Parameter"
  | own => "Local"
  | common => "Common"
  | system => "System"

/-- What a variable holds: one value, or the elements of a matrix. A matrix that is a parameter has
    no size of its own. -/
inductive Shape where
  | dynamic
  | matrix (rows cols : Option Expr)
  deriving Repr, Inhabited

/-- What a symbol is, with what is known of it. -/
inductive Meaning where
  | function | subroutine | insert | commonBlock
  /-- A label; it is only referred to as long as it is not declared. -/
  | label (declared : Bool)
  | variable (scope : Scope) (shape : Shape)
  | equate (value : Expr)
  deriving Repr, Inhabited

/-- The name space of a meaning. -/
def Meaning.kind : Meaning → SymbolKind
  | function => .function
  | subroutine => .subroutine
  | insert => .insert
  | commonBlock => .commonBlock
  | label _ => .label
  | .variable _ _ => .variable
  | equate _ => .equate

/-- A name and what it stands for. -/
structure Symbol where
  /-- The position in the table. -/
  id : Nat
  /-- The name as it was first written. -/
  name : String
  /-- The declaring token, or the first reference to a name that needs no declaration. -/
  token : Token
  meaning : Meaning
  /-- The numbers of the references to the symbol, in their order. -/
  references : Array Nat
  deriving Repr, Inhabited

namespace Symbol

def kind (s : Symbol) : SymbolKind := s.meaning.kind

/-- Everything but a label that is only referred to is declared. -/
def isDeclared (s : Symbol) : Bool :=
  match s.meaning with
  | .label declared => declared
  | _ => true

def scope? (s : Symbol) : Option Scope :=
  match s.meaning with
  | .variable scope _ => some scope
  | _ => none

def isMatrix (s : Symbol) : Bool :=
  match s.meaning with
  | .variable _ (.matrix _ _) => true
  | _ => false

end Symbol

/-- A use of a symbol. -/
structure Reference where
  symbol : Nat
  token : Token
  deriving DecidableEq, Repr, Inhabited

end BasicCheck
