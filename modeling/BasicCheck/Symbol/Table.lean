import Std.Data.ExtTreeMap
import BasicCheck.Symbol.Basic

/-!
# The symbol table

The symbols of one procedure, filled while it is read. Symbols are found by name space and name
without regard to case, and every declaration and lookup is kept as a reference, so that a place in
the text leads back to its symbol. Tables only grow, but for `rollback`, which takes a table back to
the sizes of a `Checkpoint`.
-/

namespace BasicCheck

/-! ## 1. Keys -/

/-- What a symbol is found by. -/
structure SymbolKey where
  kind : SymbolKind
  /-- The name in small letters. -/
  name : String
  deriving DecidableEq, Repr

namespace SymbolKey

/-- Keys are ordered by name space, then by name. -/
def order : SymbolKey → SymbolKey → Ordering :=
  compareLex (compareOn (·.kind.rank)) (compareOn (·.name))

instance : Ord SymbolKey := ⟨order⟩

instance : Std.TransOrd SymbolKey := inferInstanceAs (Std.TransCmp (compareLex _ _))

theorem order_eq_iff {a b : SymbolKey} : order a b = .eq ↔ a = b := by
  obtain ⟨k, n⟩ := a
  obtain ⟨l, m⟩ := b
  simp only [order, compareLex, compareOn, Ordering.then_eq_eq, Std.compare_eq_iff_eq, mk.injEq]
  exact ⟨fun ⟨h, g⟩ => ⟨SymbolKind.rank_injective h, g⟩, fun ⟨h, g⟩ => ⟨h ▸ rfl, g⟩⟩

instance : Std.LawfulEqOrd SymbolKey where
  compare_self := order_eq_iff.2 rfl
  eq_of_compare := order_eq_iff.1

end SymbolKey

/-- A character of a file. -/
structure Spot where
  line : Nat
  column : Nat
  file : Nat
  deriving DecidableEq, Repr

namespace Spot

/-- Spots are ordered by line, column and file. -/
def order : Spot → Spot → Ordering :=
  compareLex (compareOn (·.line)) (compareLex (compareOn (·.column)) (compareOn (·.file)))

instance : Ord Spot := ⟨order⟩

instance : Std.TransOrd Spot := inferInstanceAs (Std.TransCmp (compareLex _ _))

theorem order_eq_iff {a b : Spot} : order a b = .eq ↔ a = b := by
  obtain ⟨l, c, f⟩ := a
  obtain ⟨m, d, g⟩ := b
  simp only [order, compareLex, compareOn, Ordering.then_eq_eq, Std.compare_eq_iff_eq, mk.injEq]

instance : Std.LawfulEqOrd Spot where
  compare_self := order_eq_iff.2 rfl
  eq_of_compare := order_eq_iff.1

end Spot

/-! ## 2. The table -/

/-- The symbols of a procedure. -/
structure SymbolTable where
  symbols : Array Symbol
  /-- The number of the symbol with a given key. -/
  keys : Std.ExtTreeMap SymbolKey Nat
  /-- All references in the order in which they were made. -/
  references : Array Reference
  /-- The number of the last reference that covers a given character. -/
  spots : Std.ExtTreeMap Spot Nat

/-- The size of a table at some moment. -/
structure Checkpoint where
  symbols : Nat
  references : Nat
  deriving DecidableEq, Repr, Inhabited

namespace SymbolTable

def empty : SymbolTable := ⟨#[], ∅, #[], ∅⟩

instance : Inhabited SymbolTable := ⟨empty⟩

def size (t : SymbolTable) : Nat := t.symbols.size

/-! ## 3. Looking up -/

/-- The number of the symbol with a given name, sought without regard to case. -/
def find? (t : SymbolTable) (kind : SymbolKind) (name : String) : Option Nat :=
  t.keys[(⟨kind, Text.fold name⟩ : SymbolKey)]?

/-- The symbol with a given name. -/
def lookup? (t : SymbolTable) (kind : SymbolKind) (name : String) : Option Symbol :=
  (t.find? kind name).bind (t.symbols[·]?)

def contains (t : SymbolTable) (kind : SymbolKind) (name : String) : Bool :=
  (t.find? kind name).isSome

/-- Whether a variable is a matrix. -/
def isMatrix (t : SymbolTable) (name : String) : Bool :=
  (t.lookup? .variable name).any Symbol.isMatrix

/-- Whether a variable is a parameter. -/
def isParameter (t : SymbolTable) (name : String) : Bool :=
  (t.lookup? .variable name).any fun s => s.scope? == some .parameter

/-- The references to a symbol in their order. -/
def referencesOf (t : SymbolTable) (s : Symbol) : List Reference :=
  s.references.toList.filterMap (t.references[·]?)

/-- The reference that covers a character. -/
def referenceAt? (t : SymbolTable) (spot : Spot) : Option Reference :=
  t.spots[spot]?.bind (t.references[·]?)

/-- The symbol that a character refers to. -/
def symbolAt? (t : SymbolTable) (spot : Spot) : Option Symbol :=
  (t.referenceAt? spot).bind fun r => t.symbols[r.symbol]?

/-- All references to labels that were never declared, in the order of the text. -/
def unresolvedLabels (t : SymbolTable) : List (String × Span) :=
  let references := t.symbols.toList.flatMap fun s =>
    if s.kind == .label && !s.isDeclared then
      (t.referencesOf s).map fun r => (r.token.text, r.token.span)
    else []
  references.mergeSort fun a b => a.2.start ≤ b.2.start

/-! ## 4. Growing -/

/-- The characters by which a token is found: all of them if it stays on a line, else its first. An
    empty token is found where it stands. -/
def spotsOf (span : Span) : List Spot :=
  if span.start.line = span.stop.line then
    (List.range' span.start.column (max (span.stop.column - span.start.column) 1)).map fun column =>
      ⟨span.start.line, column, span.file⟩
  else [⟨span.start.line, span.start.column, span.file⟩]

/-- A further reference to a symbol. -/
def addReference (t : SymbolTable) (id : Nat) (token : Token) : SymbolTable :=
  let number := t.references.size
  { t with
    references := t.references.push ⟨id, token⟩
    symbols := t.symbols.modify id fun s => { s with references := s.references.push number }
    spots := (spotsOf token.span).foldl (·.insert · number) t.spots }

/-- A further symbol, whose key has to be free, and its first reference. -/
def create (t : SymbolTable) (token : Token) (meaning : Meaning) : SymbolTable :=
  let id := t.symbols.size
  { t with
    symbols := t.symbols.push ⟨id, token.text, token, meaning, #[]⟩
    keys := t.keys.insert ⟨meaning.kind, token.folded⟩ id }.addReference id token

/-- A declaration; it is refused if the name is taken. -/
def declare (t : SymbolTable) (token : Token) (meaning : Meaning) : Bool × SymbolTable :=
  if t.contains meaning.kind token.text then (false, t)
  else (true, t.create token meaning)

/-- A reference to a symbol that is already there. -/
def reference? (t : SymbolTable) (kind : SymbolKind) (token : Token) : Option Nat × SymbolTable :=
  match t.find? kind token.text with
  | some id => (some id, t.addReference id token)
  | none => (none, t)

/-- A reference to a symbol that comes into being with it if it is not there yet. -/
def referenceOrCreate (t : SymbolTable) (token : Token) (meaning : Meaning) : Nat × SymbolTable :=
  match t.find? meaning.kind token.text with
  | some id => (id, t.addReference id token)
  | none => (t.symbols.size, t.create token meaning)

/-! ## 5. Declarations -/

def declareFunction (t : SymbolTable) (token : Token) : Bool × SymbolTable :=
  t.declare token .function

def declareSubroutine (t : SymbolTable) (token : Token) : Bool × SymbolTable :=
  t.declare token .subroutine

def declareInsert (t : SymbolTable) (token : Token) : Bool × SymbolTable :=
  t.declare token .insert

def declareCommonBlock (t : SymbolTable) (token : Token) : Bool × SymbolTable :=
  t.declare token .commonBlock

def declareEquate (t : SymbolTable) (token : Token) (value : Expr) : Bool × SymbolTable :=
  t.declare token (.equate value)

def declareMatrix (t : SymbolTable) (token : Token) (rows : Expr) (cols : Option Expr) :
    Bool × SymbolTable :=
  t.declare token (.variable .own (.matrix (some rows) cols))

/-- A variable of a common block; with a size it is a matrix. -/
def declareCommonVariable (t : SymbolTable) (token : Token)
    (dimensions : Option (Expr × Option Expr)) : Bool × SymbolTable :=
  t.declare token <| .variable .common <|
    match dimensions with
    | some (rows, cols) => .matrix (some rows) cols
    | none => .dynamic

def declareParameter (t : SymbolTable) (token : Token) (matrix : Bool) : Bool × SymbolTable :=
  t.declare token (.variable .parameter (if matrix then .matrix none none else .dynamic))

/-- A label; one that was only referred to so far becomes declared by it. -/
def declareLabel (t : SymbolTable) (token : Token) : Bool × SymbolTable :=
  match t.find? .label token.text with
  | none => (true, t.create token (.label true))
  | some id =>
    match (t.symbols[id]?).map Symbol.isDeclared with
    | some false =>
      (true, { t with
        symbols := t.symbols.modify id fun s =>
          { s with token, meaning := .label true } }.addReference id token)
    | _ => (false, t)

/-! ## 6. References -/

/-- A variable; it comes into being when it is first named. -/
def referenceVariable (t : SymbolTable) (token : Token) : Nat × SymbolTable :=
  t.referenceOrCreate token
    (.variable (if token.kind = .systemVariable then .system else .own) .dynamic)

def referenceEquate (t : SymbolTable) (token : Token) : Option Nat × SymbolTable :=
  t.reference? .equate token

def referenceFunction (t : SymbolTable) (token : Token) : Option Nat × SymbolTable :=
  t.reference? .function token

def referenceSubroutine (t : SymbolTable) (token : Token) : Option Nat × SymbolTable :=
  t.reference? .subroutine token

/-- A called subroutine; a call makes it known. -/
def referenceOrDeclareSubroutine (t : SymbolTable) (token : Token) : Nat × SymbolTable :=
  t.referenceOrCreate token .subroutine

/-- A label; it may be declared later. -/
def referenceLabel (t : SymbolTable) (token : Token) : Nat × SymbolTable :=
  t.referenceOrCreate token (.label false)

/-! ## 7. Going back -/

/-- The present size. -/
def checkpoint (t : SymbolTable) : Checkpoint := ⟨t.symbols.size, t.references.size⟩

/-- The table without the symbols and references that came after a checkpoint. A character that has
    been referred to since is no longer found. -/
def rollback (t : SymbolTable) (mark : Checkpoint) : SymbolTable where
  symbols := (t.symbols.take mark.symbols).map fun s =>
    { s with references := s.references.filter (· < mark.references) }
  keys := (t.symbols.toList.drop mark.symbols).foldl
    (fun keys s => keys.erase ⟨s.kind, Text.fold s.name⟩) t.keys
  references := t.references.take mark.references
  spots := t.spots.filter fun _ number => number < mark.references

end SymbolTable

end BasicCheck
