import BasicCheck.Proofs.LetterCase.Tree
import BasicCheck.Proofs.Recast.Symbol

/-!
# Symbols that differ in ASCII case

The table of symbols with small letters in its names, tokens and values (`SymbolTable.lower`). Its
keys and spots are those of the table itself, for a key is a name that has been folded. It is what
the table becomes when it is written anew (**`SymbolTable.recasts_lowercase_iff`**).
-/

namespace BasicCheck

open Recast (lowercase)

/-! ## 1. Symbols -/

def Shape.lower : Shape → Shape
  | dynamic => dynamic
  | matrix rows cols => matrix (rows.map Expr.lower) (cols.map Expr.lower)

/-- The meaning with small letters in its expressions. -/
def Meaning.lower : Meaning → Meaning
  | .variable scope shape => .variable scope shape.lower
  | equate value => equate value.lower
  | meaning => meaning

/-- The symbol with small letters. -/
def Symbol.lower (s : Symbol) : Symbol :=
  { s with name := Text.lower s.name, token := s.token.lower, meaning := s.meaning.lower }

/-- The reference with small letters. -/
def Reference.lower (r : Reference) : Reference := ⟨r.symbol, r.token.lower⟩

theorem Meaning.lower_eq_recast (meaning : Meaning) : meaning.lower = meaning.recast lowercase := by
  cases meaning with
  | «variable» scope shape =>
    cases shape with
    | dynamic => rfl
    | matrix rows cols =>
      rw [lower, Shape.lower, Expr.lower_eq]
      rfl
  | equate value => exact congrArg equate value.lower_eq_recast
  | _ => rfl

theorem Symbol.lower_eq : lower = recast lowercase := by
  funext s
  rw [lower, Meaning.lower_eq_recast]
  rfl

/-! ## 2. Tables -/

namespace SymbolTable

/-- The table with small letters. -/
def lower (t : SymbolTable) : SymbolTable :=
  { t with symbols := t.symbols.map Symbol.lower, references := t.references.map Reference.lower }

/-- **A table with small letters is the table, written anew.** -/
theorem recasts_lowercase_iff {t u : SymbolTable} : t.Recasts lowercase u ↔ u = t.lower := by
  constructor
  · intro h
    obtain ⟨symbols, keys, references, spots⟩ := u
    rw [lower, Symbol.lower_eq, SymbolTable.mk.injEq]
    exact ⟨h.symbols, h.keys, h.references, h.spots fun _ => rfl⟩
  · rintro rfl
    exact ⟨congrArg t.symbols.map Symbol.lower_eq, rfl, rfl, fun _ => rfl⟩

end SymbolTable

end BasicCheck
