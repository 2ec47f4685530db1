import Std.Data.ExtTreeMap
import BasicCheck.Parse.Procedure

/-!
# Open documents

The documents that are open in an editor, each under its own name and read anew with every version
of its text. A document gets a file number when it is opened and keeps it until it is closed; numbers
are never given twice. What an event does to a document is said by `Workspace.get?_openDocument`,
`Workspace.get?_updateDocument` and `Workspace.get?_closeDocument`.
-/

namespace BasicCheck.Editor

/-! ## 1. Documents -/

/-- A version of a document. -/
structure Document where
  version : Int
  procedure : Procedure
  deriving Inhabited

/-- The open documents. -/
structure Workspace where
  documents : Std.ExtTreeMap String Document
  /-- The file number that was given last. -/
  lastFile : Nat

namespace Workspace

/-- No document is open. -/
def empty : Workspace := ⟨∅, 0⟩

instance : Inhabited Workspace := ⟨empty⟩

/-- The open document with a given name. -/
def get? (w : Workspace) (uri : String) : Option Document := w.documents[uri]?

/-! ## 2. Events -/

/-- The file number of a document; one that is not open would get the next free number. -/
def fileOf (w : Workspace) (uri : String) : Nat :=
  match w.get? uri with
  | some document => document.procedure.file
  | none => w.lastFile + 1

/-- A text that is taken for the present version of a document, whatever is open under its name. -/
def openDocument (w : Workspace) (uri text : String) (version : Int) : Workspace where
  documents := w.documents.insert uri ⟨version, .ofText text (w.fileOf uri)⟩
  lastFile := if (w.get? uri).isSome then w.lastFile else w.lastFile + 1

/-- A new version of a document; one that is not newer than the present version is ignored. -/
def updateDocument (w : Workspace) (uri text : String) (version : Int) : Workspace :=
  if (w.get? uri).any (version ≤ ·.version) then w else w.openDocument uri text version

def closeDocument (w : Workspace) (uri : String) : Workspace :=
  { w with documents := w.documents.erase uri }

/-- What may happen to a document. -/
inductive Event where
  | open (uri text : String) (version : Int)
  | update (uri text : String) (version : Int)
  | close (uri : String)
  deriving DecidableEq, Repr, Inhabited

/-- The documents after an event. -/
def apply (w : Workspace) : Event → Workspace
  | .open uri text version => w.openDocument uri text version
  | .update uri text version => w.updateDocument uri text version
  | .close uri => w.closeDocument uri

/-- The documents after several events. -/
def run (w : Workspace) (events : List Event) : Workspace := events.foldl apply w

/-! ## 3. What an event does -/

theorem get?_openDocument (w : Workspace) (uri text : String) (version : Int) (other : String) :
    (w.openDocument uri text version).get? other =
      if uri = other then some ⟨version, .ofText text (w.fileOf uri)⟩ else w.get? other := by
  simp [openDocument, get?, Std.ExtTreeMap.getElem?_insert]

theorem get?_updateDocument (w : Workspace) (uri text : String) (version : Int) (other : String) :
    (w.updateDocument uri text version).get? other =
      if uri = other ∧ ∀ document, w.get? uri = some document → document.version < version then
        some ⟨version, .ofText text (w.fileOf uri)⟩
      else w.get? other := by
  unfold updateDocument
  cases h : w.get? uri with
  | none => simp [get?_openDocument]
  | some document =>
    by_cases k : version ≤ document.version
    · simp [k, Int.not_lt.2 k]
    · simp [k, Int.not_le.1 k, get?_openDocument]

theorem get?_closeDocument (w : Workspace) (uri other : String) :
    (w.closeDocument uri).get? other = if uri = other then none else w.get? other := by
  simp [closeDocument, get?, Std.ExtTreeMap.getElem?_erase]

end Workspace

end BasicCheck.Editor
