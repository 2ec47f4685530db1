import BasicCheck.Span

/-!
# Positions and ranges of an editor

An editor counts lines from zero, as it does columns, and keeps both in words of 32 bits. Larger
numbers lose their high bits.
-/

namespace BasicCheck.Editor

/-! ## 1. Positions -/

/-- A position between two characters of a document. -/
structure Position where
  line : UInt32
  character : UInt32
  deriving DecidableEq, Repr, Inhabited

namespace Position

/-- The position of a place. -/
def ofPlace (p : Place) : Position := ⟨(p.line - 1).toUInt32, p.column.toUInt32⟩

/-- The place of a position. -/
def toPlace (p : Position) : Place := ⟨p.line.toNat + 1, p.character.toNat⟩

/-- Positions are ordered as their places. -/
instance : LE Position := ⟨fun a b => a.toPlace ≤ b.toPlace⟩

instance (a b : Position) : Decidable (a ≤ b) :=
  inferInstanceAs (Decidable (a.toPlace ≤ b.toPlace))

@[simp] theorem ofPlace_toPlace (p : Position) : ofPlace p.toPlace = p := by
  simp [ofPlace, toPlace]

/-- A place within 32 bits is kept. -/
theorem toPlace_ofPlace {p : Place} (h : 0 < p.line) (hl : p.line ≤ UInt32.size)
    (hc : p.column < UInt32.size) : (ofPlace p).toPlace = p := by
  obtain ⟨line, column⟩ := p
  simp only [ofPlace, toPlace, Nat.toUInt32, UInt32.toNat_ofNat', Place.mk.injEq, UInt32.size] at *
  omega

end Position

/-! ## 2. Ranges -/

/-- A range of a document. -/
structure Range where
  start : Position
  stop : Position
  deriving DecidableEq, Repr, Inhabited

/-- The range of a span. -/
def Range.ofSpan (span : Span) : Range := ⟨.ofPlace span.start, .ofPlace span.stop⟩

end BasicCheck.Editor
