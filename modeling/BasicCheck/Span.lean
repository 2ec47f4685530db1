/-!
# Places and spans

Where something stands in a source text. Lines are counted from one, columns from zero, and a column
is a number of characters. A span runs from its first character to just behind its last one. Places
are ordered as they are read (`Place.le_total`, `Place.le_trans`), and joining two spans gives one
that covers both (`Span.start_join_le`, `Span.le_stop_join`).
-/

namespace BasicCheck

/-! ## 1. Places -/

/-- A place between two characters of a text. -/
structure Place where
  line : Nat
  column : Nat
  deriving DecidableEq, Repr, Inhabited

namespace Place

/-- The place where every text starts. -/
def origin : Place := ⟨1, 0⟩

/-- The place behind a character: a line feed opens the next line. -/
def step (p : Place) (c : Char) : Place :=
  if c = '\n' then ⟨p.line + 1, 0⟩ else ⟨p.line, p.column + 1⟩

/-- The place behind a piece of text. -/
def after (p : Place) (text : List Char) : Place :=
  text.foldl step p

/-- Places are ordered by line, then by column. -/
instance : LE Place := ⟨fun a b => a.line < b.line ∨ a.line = b.line ∧ a.column ≤ b.column⟩

theorem le_iff {a b : Place} :
    a ≤ b ↔ a.line < b.line ∨ a.line = b.line ∧ a.column ≤ b.column := Iff.rfl

instance (a b : Place) : Decidable (a ≤ b) :=
  inferInstanceAs (Decidable (a.line < b.line ∨ a.line = b.line ∧ a.column ≤ b.column))

/-- One place stands strictly before another. -/
instance : LT Place := ⟨fun a b => a.line < b.line ∨ a.line = b.line ∧ a.column < b.column⟩

theorem lt_iff {a b : Place} :
    a < b ↔ a.line < b.line ∨ a.line = b.line ∧ a.column < b.column := Iff.rfl

theorem le_refl (a : Place) : a ≤ a := Or.inr ⟨rfl, Nat.le_refl _⟩

theorem le_trans {a b c : Place} (h : a ≤ b) (k : b ≤ c) : a ≤ c := by
  simp only [le_iff] at *
  omega

theorem le_total (a b : Place) : a ≤ b ∨ b ≤ a := by
  simp only [le_iff]
  omega

theorem le_of_lt {a b : Place} (h : a < b) : a ≤ b := by
  simp only [le_iff, lt_iff] at *
  omega

theorem lt_of_lt_of_le {a b c : Place} (h : a < b) (k : b ≤ c) : a < c := by
  simp only [le_iff, lt_iff] at *
  omega

theorem lt_of_le_of_lt {a b c : Place} (h : a ≤ b) (k : b < c) : a < c := by
  simp only [le_iff, lt_iff] at *
  omega

theorem lt_irrefl (a : Place) : ¬ a < a := by
  simp only [lt_iff]
  omega

theorem le_antisymm {a b : Place} (h : a ≤ b) (k : b ≤ a) : a = b := by
  obtain ⟨l, c⟩ := a
  obtain ⟨m, d⟩ := b
  simp only [le_iff] at h k
  simp only [Place.mk.injEq]
  omega

@[simp] theorem after_nil (p : Place) : p.after [] = p := rfl

@[simp] theorem after_cons (p : Place) (c : Char) (text : List Char) :
    p.after (c :: text) = (p.step c).after text := rfl

/-- Walking over two pieces is walking over the first, then over the second. -/
theorem after_append (p : Place) (s t : List Char) : p.after (s ++ t) = (p.after s).after t :=
  List.foldl_append

/-- A character is walked over forwards. -/
theorem lt_step (p : Place) (c : Char) : p < p.step c := by
  unfold step
  split <;> simp [lt_iff]

theorem le_after (p : Place) (text : List Char) : p ≤ p.after text := by
  induction text generalizing p with
  | nil => exact le_refl p
  | cons c text ih => exact le_trans (le_of_lt (lt_step p c)) (ih _)

/-- A piece of text that is not empty takes room. -/
theorem lt_after (p : Place) {text : List Char} (h : text ≠ []) : p < p.after text := by
  cases text with
  | nil => exact absurd rfl h
  | cons c text => exact lt_of_lt_of_le (lt_step p c) (le_after _ _)

end Place

/-! ## 2. Spans -/

/-- A range of a file: from `start` to just before `stop`. -/
structure Span where
  start : Place
  stop : Place
  file : Nat
  deriving DecidableEq, Repr, Inhabited

namespace Span

/-- The empty span at the start of file zero. -/
def blank : Span := ⟨.origin, .origin, 0⟩

/-- A span within one line. -/
def onLine (line column stop file : Nat) : Span := ⟨⟨line, column⟩, ⟨line, stop⟩, file⟩

/-- The span from the earlier start to the later stop, in the file of the first. -/
def join (a b : Span) : Span where
  start := if a.start ≤ b.start then a.start else b.start
  stop := if b.stop ≤ a.stop then a.stop else b.stop
  file := a.file

/-- All spans of a list joined from left to right; the blank span for an empty list. -/
def joinAll : List Span → Span
  | [] => blank
  | a :: rest => rest.foldl join a

theorem start_join_le (a b : Span) : (a.join b).start ≤ a.start ∧ (a.join b).start ≤ b.start := by
  by_cases h : a.start ≤ b.start
  · simp [join, h, Place.le_refl]
  · simp [join, h, Place.le_refl, (Place.le_total a.start b.start).resolve_left h]

theorem le_stop_join (a b : Span) : a.stop ≤ (a.join b).stop ∧ b.stop ≤ (a.join b).stop := by
  by_cases h : b.stop ≤ a.stop
  · simp [join, h, Place.le_refl]
  · simp [join, h, Place.le_refl, (Place.le_total a.stop b.stop).resolve_right h]

end Span

end BasicCheck
