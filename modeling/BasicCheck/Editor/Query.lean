import BasicCheck.Editor.Range
import BasicCheck.Editor.Workspace
import BasicCheck.Finding

/-!
# What an editor asks about a document

Answers about a position: what stands there, where it is defined and where it is used. Answers about
a whole document: its messages, its outline and the ranges that may be folded. About a document that
is not open there is nothing to say.
-/

namespace BasicCheck.Editor

/-! ## 1. Symbols in words -/

/-- What a text about a variable calls its scope. -/
def scopeWord : Scope → String
  | .parameter => "parameter"
  | .own => "local"
  | .common => "common"
  | .system => "system"

/-- A symbol in a few words. -/
def describe (s : Symbol) : String :=
  match s.meaning with
  | .variable scope .dynamic => scopeWord scope ++ " variable " ++ s.name
  | .variable scope (.matrix _ _) => scopeWord scope ++ " matrix " ++ s.name
  | _ => s.kind.describe ++ " " ++ s.name

/-! ## 2. Messages -/

/-- How an editor shows a message. -/
inductive Level where
  | error | warning | information | hint
  deriving DecidableEq, Repr, Inhabited

namespace Level

/-- The number of a level: the graver, the smaller. -/
def number : Level → Nat
  | error => 1
  | warning => 2
  | information => 3
  | hint => 4

def ofSeverity : Severity → Level
  | .error => error
  | .warning => warning
  | .info => information

end Level

/-- A message about a range of a document. -/
structure Message where
  range : Range
  level : Level
  /-- The name of the analysis that the message comes from. -/
  code : Option String
  text : String
  deriving DecidableEq, Repr, Inhabited

namespace Message

def ofDiagnostic (d : Diagnostic) : Message :=
  ⟨.ofSpan d.span, .ofSeverity d.severity, none, d.message⟩

/-- Text that is never reached is only hinted at, without a word about the statement. -/
def ofFinding (f : Finding) : Message :=
  match f with
  | .unreachable _ => ⟨.ofSpan f.span, .hint, some f.code, "Unreachable code"⟩
  | .unassigned _ => ⟨.ofSpan f.span, .ofSeverity f.severity, some f.code, f.message⟩

end Message

namespace Workspace

/-- The messages about a document: its diagnostics, then what the analyses find. -/
def messages (w : Workspace) (uri : String) : List Message :=
  match w.get? uri with
  | none => []
  | some ⟨_, p⟩ => p.diagnostics.map .ofDiagnostic ++ (p.findings .all).map .ofFinding

/-! ## 3. Symbols at a position -/

/-- The symbol at a position, with the reference that stands there and the symbols around it. -/
def symbolAt? (w : Workspace) (uri : String) (position : Position) :
    Option (SymbolTable × Reference × Symbol) := do
  let ⟨_, p⟩ ← w.get? uri
  let place := position.toPlace
  let reference ← p.symbols.referenceAt? ⟨place.line, place.column, p.file⟩
  let symbol ← p.symbols.symbols[reference.symbol]?
  return (p.symbols, reference, symbol)

/-- What stands at a position, in words, and the range of the name. -/
def hover? (w : Workspace) (uri : String) (position : Position) : Option (String × Range) := do
  let (_, reference, symbol) ← w.symbolAt? uri position
  let remark := if symbol.isDeclared then "" else " (not defined)"
  return (describe symbol ++ remark, .ofSpan reference.token.span)

/-- Where the symbol at a position is defined. -/
def definition? (w : Workspace) (uri : String) (position : Position) : Option Range := do
  let (_, _, symbol) ← w.symbolAt? uri position
  if symbol.isDeclared then some (.ofSpan symbol.token.span) else none

/-- Where the symbol at a position is used. -/
def references (w : Workspace) (uri : String) (position : Position) : List Range :=
  match w.symbolAt? uri position with
  | none => []
  | some (table, _, symbol) => (table.referencesOf symbol).map fun r => .ofSpan r.token.span

/-! ## 4. Outline -/

/-- What an outline calls a symbol. -/
inductive OutlineKind where
  | function | constant | variable | array | module | key
  deriving DecidableEq, Repr, Inhabited

/-- A line of an outline. -/
structure OutlineItem where
  name : String
  kind : OutlineKind
  range : Range
  deriving DecidableEq, Repr, Inhabited

/-- What an outline calls a symbol; local and system variables are no part of it. -/
def outlineKind? (s : Symbol) : Option OutlineKind :=
  match s.meaning with
  | .label true => some .key
  | .label false => none
  | .function | .subroutine => some .function
  | .equate _ => some .constant
  | .variable _ (.matrix _ _) => some .array
  | .variable .common .dynamic => some .variable
  | .variable _ .dynamic => none
  | .commonBlock | .insert => some .module

/-- The outline of a document in the order of its text. -/
def outline (w : Workspace) (uri : String) : List OutlineItem :=
  match w.get? uri with
  | none => []
  | some ⟨_, p⟩ =>
    let items := p.symbols.symbols.toList.filterMap fun s =>
      (outlineKind? s).map fun kind => ⟨s.name, kind, .ofSpan s.token.span⟩
    items.mergeSort fun a b => a.range.start ≤ b.range.start

/-! ## 5. Folding -/

/-- Lines that may be folded, the first and the last one included. -/
structure Fold where
  first : UInt32
  last : UInt32
  kind : RegionKind
  deriving DecidableEq, Repr, Inhabited

namespace Fold

/-- The lines of a region. -/
def ofRegion (r : Region) : Fold :=
  let range := Range.ofSpan r.span
  ⟨range.start.line, range.stop.line, r.kind⟩

/-- Folds are ordered by their first line, then by their last one. -/
def before (a b : Fold) : Bool :=
  a.first < b.first || a.first == b.first && a.last ≤ b.last

end Fold

/-- The folds of a document: its regions of more than one line. -/
def folds (w : Workspace) (uri : String) : List Fold :=
  match w.get? uri with
  | none => []
  | some ⟨_, p⟩ =>
    let regions := p.regions.filter fun r => r.span.start.line < r.span.stop.line
    (regions.map Fold.ofRegion).mergeSort Fold.before

end Workspace

end BasicCheck.Editor
