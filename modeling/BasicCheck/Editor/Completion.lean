import BasicCheck.Editor.Query

/-!
# Completion

What an editor offers to complete a word: the keywords, the intrinsic functions, and the symbols of
the document. A symbol is offered once for each kind of item that its name stands for.
-/

namespace BasicCheck.Editor

/-- What an item completes to. -/
inductive CompletionKind where
  | function | variable | constant | keyword | label
  deriving DecidableEq, Repr, Inhabited

/-- An item that is offered. -/
structure Completion where
  label : String
  kind : CompletionKind
  detail : Option String
  deriving DecidableEq, Repr, Inhabited

namespace Completion

/-! ## 1. Words of the language -/

/-- The keywords that are offered. -/
def keywords : List String :=
  ["begin case", "call", "case", "clearselect", "common", "compile", "convert", "debug", "declare",
    "delete", "dim", "do", "else", "end", "end case", "equ", "flush", "for", "function",
    "garbagecollect", "gosub", "goto", "if", "in", "initrnd", "locate", "lock", "loop", "mat",
    "matparse", "matread", "matwrite", "next", "null", "on", "open", "osbread", "osbwrite",
    "osclose", "osdelete", "osopen", "osread", "oswrite", "read", "readnext", "reado", "readu",
    "readv", "remove", "repeat", "return", "select", "setting", "step", "stop", "subroutine", "swap",
    "then", "to", "transfer", "unlock", "until", "using", "while", "write", "writeu", "writev"]

/-- The items that are offered in every document. -/
def builtin : List Completion :=
  keywords.map (⟨·, .keyword, none⟩) ++
    Builtin.intrinsics.map (⟨·, .function, some "intrinsic"⟩)

/-! ## 2. Symbols of a document -/

/-- What the name of a symbol completes to, if it is offered. -/
def kindOf? (s : Symbol) : Option CompletionKind :=
  match s.meaning with
  | .function | .subroutine => some .function
  | .equate _ => some .constant
  | .label true => some .label
  | .label false => none
  | .variable .system _ => none
  | .variable _ _ => some .variable
  | .insert | .commonBlock => none

/-- The item that offers a symbol. -/
def ofSymbol? (s : Symbol) : Option Completion :=
  (kindOf? s).map fun kind => ⟨s.name, kind, some (describe s)⟩

/-- Items of one kind whose labels differ in case alone. -/
def sameAs (a b : Completion) : Bool :=
  Text.fold a.label == Text.fold b.label && a.kind == b.kind

end Completion

/-- The items that are offered in a document. -/
def Workspace.completions (w : Workspace) (uri : String) : List Completion :=
  Completion.builtin ++
    match w.get? uri with
    | none => []
    | some ⟨_, p⟩ =>
      (p.symbols.symbols.toList.filterMap Completion.ofSymbol?).eraseDupsBy Completion.sameAs

end BasicCheck.Editor
