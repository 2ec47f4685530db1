import BasicCheck.Proofs.Recast.Tree
import BasicCheck.Symbol.Table

/-!
# Symbols that are written anew

A table of symbols is written anew with its names, tokens and values (`SymbolTable.Recasts`). Its
keys are the same, for a key is a name that has been folded; which characters lead to which
reference is said only if no span is changed. Every declaration, reference and rollback leads from
such a table to such a table, and what is found and what is refused are the same.
-/

namespace BasicCheck

variable {ρ : Recast}

/-! ## 1. Symbols -/

def Shape.recast (ρ : Recast) : Shape → Shape
  | dynamic => dynamic
  | matrix rows cols => matrix (rows.map (Expr.recast ρ)) (cols.map (Expr.recast ρ))

/-- The meaning with its expressions written anew. -/
def Meaning.recast (ρ : Recast) : Meaning → Meaning
  | .variable scope shape => .variable scope (shape.recast ρ)
  | equate value => equate (value.recast ρ)
  | meaning => meaning

@[simp] theorem Meaning.kind_recast (meaning : Meaning) :
    (meaning.recast ρ).kind = meaning.kind := by
  cases meaning <;> rfl

/-- The symbol that is written anew. -/
def Symbol.recast (ρ : Recast) (s : Symbol) : Symbol :=
  { s with name := ρ.text s.name, token := s.token.recast ρ, meaning := s.meaning.recast ρ }

namespace Symbol

@[simp] theorem kind_recast (s : Symbol) : (s.recast ρ).kind = s.kind := s.meaning.kind_recast

@[simp] theorem fold_name_recast (s : Symbol) : Text.fold (s.recast ρ).name = Text.fold s.name :=
  ρ.fold_text s.name

@[simp] theorem isDeclared_recast (s : Symbol) : (s.recast ρ).isDeclared = s.isDeclared := by
  obtain ⟨id, name, token, meaning, references⟩ := s
  cases meaning <;> rfl

@[simp] theorem scope?_recast (s : Symbol) : (s.recast ρ).scope? = s.scope? := by
  obtain ⟨id, name, token, meaning, references⟩ := s
  cases meaning <;> rfl

@[simp] theorem isMatrix_recast (s : Symbol) : (s.recast ρ).isMatrix = s.isMatrix := by
  obtain ⟨id, name, token, meaning, references⟩ := s
  cases meaning with
  | «variable» scope shape => cases shape <;> rfl
  | _ => rfl

end Symbol

/-- The reference that is written anew. -/
def Reference.recast (ρ : Recast) (r : Reference) : Reference := ⟨r.symbol, r.token.recast ρ⟩

/-- The second table is the first one, written anew. -/
structure SymbolTable.Recasts (ρ : Recast) (t u : SymbolTable) : Prop where
  symbols : u.symbols = t.symbols.map (Symbol.recast ρ)
  keys : u.keys = t.keys
  references : u.references = t.references.map (Reference.recast ρ)
  /-- Spots are told by spans, so they stay if these do. -/
  spots : (∀ span : Span, span.recast ρ = span) → u.spots = t.spots

namespace SymbolTable.Recasts

variable {t u : SymbolTable}

theorem refl_empty : empty.Recasts ρ empty where
  symbols := Array.map_empty.symm
  keys := rfl
  references := Array.map_empty.symm
  spots _ := rfl

theorem size_symbols (h : t.Recasts ρ u) : u.symbols.size = t.symbols.size := by
  rw [h.symbols, Array.size_map]

theorem size_references (h : t.Recasts ρ u) : u.references.size = t.references.size := by
  rw [h.references, Array.size_map]

theorem checkpoint (h : t.Recasts ρ u) : u.checkpoint = t.checkpoint := by
  rw [SymbolTable.checkpoint, SymbolTable.checkpoint, h.size_symbols, h.size_references]

/-! ## 2. Looking up -/

variable (kind : SymbolKind) (name : String)

theorem find? (h : t.Recasts ρ u) : u.find? kind (ρ.text name) = t.find? kind name := by
  rw [SymbolTable.find?, SymbolTable.find?, ρ.fold_text, h.keys]

theorem lookup? (h : t.Recasts ρ u) :
    u.lookup? kind (ρ.text name) = (t.lookup? kind name).map (Symbol.recast ρ) := by
  rw [SymbolTable.lookup?, SymbolTable.lookup?, h.find?, h.symbols]
  cases t.find? kind name with
  | none => rfl
  | some id => exact Array.getElem?_map

theorem contains (h : t.Recasts ρ u) : u.contains kind (ρ.text name) = t.contains kind name := by
  rw [SymbolTable.contains, SymbolTable.contains, h.find?]

theorem isMatrix (h : t.Recasts ρ u) : u.isMatrix (ρ.text name) = t.isMatrix name := by
  rw [SymbolTable.isMatrix, SymbolTable.isMatrix, h.lookup?, Option.any_map]
  exact congrArg (Option.any · _) (funext Symbol.isMatrix_recast)

theorem referencesOf (h : t.Recasts ρ u) (s : Symbol) :
    u.referencesOf (s.recast ρ) = (t.referencesOf s).map (Reference.recast ρ) := by
  rw [SymbolTable.referencesOf, SymbolTable.referencesOf, List.map_filterMap, h.references]
  exact congrArg (List.filterMap · s.references.toList) (funext fun _ => Array.getElem?_map)

/-- The same labels are missing. -/
theorem unresolvedLabels (h : t.Recasts ρ u) : u.unresolvedLabels =
    t.unresolvedLabels.map fun found => (ρ.text found.1, found.2.recast ρ) := by
  have hsort (found : List (String × Span)) :
      (found.mergeSort fun a b => a.2.start ≤ b.2.start).map (fun found =>
          (ρ.text found.1, found.2.recast ρ)) =
        (found.map fun found => (ρ.text found.1, found.2.recast ρ)).mergeSort fun a b =>
          a.2.start ≤ b.2.start :=
    List.map_mergeSort fun a _ b _ => by simp only [Span.start_recast, ρ.place_le]
  rw [SymbolTable.unresolvedLabels, SymbolTable.unresolvedLabels, hsort, h.symbols,
    Array.toList_map, List.flatMap_map, List.map_flatMap]
  refine congrArg (List.mergeSort · _) (congrArg (List.flatMap · _) (funext fun s => ?_))
  rw [Symbol.kind_recast, Symbol.isDeclared_recast, h.referencesOf]
  split
  · rw [List.map_map, List.map_map]
    rfl
  · rfl

/-! ## 3. Growing -/

variable (token : Token) (meaning : Meaning)

/-- One symbol is changed, in both tables alike. -/
theorem modify (h : t.Recasts ρ u) (id : Nat) {f g : Symbol → Symbol}
    (hfg : ∀ s, g (s.recast ρ) = (f s).recast ρ) :
    u.symbols.modify id g = (t.symbols.modify id f).map (Symbol.recast ρ) := by
  refine Array.ext_getElem? fun i => ?_
  rw [h.symbols, Array.getElem?_modify, Array.getElem?_map, Array.getElem?_map,
    Array.getElem?_modify]
  split
  · rw [Option.map_map, Option.map_map]
    exact congrArg (Option.map · _) (funext hfg)
  · rfl

theorem addReference (h : t.Recasts ρ u) (id : Nat) :
    (t.addReference id token).Recasts ρ (u.addReference id (token.recast ρ)) where
  symbols := by
    show u.symbols.modify id (fun s =>
        { s with references := s.references.push u.references.size }) =
      (t.symbols.modify id fun s =>
        { s with references := s.references.push t.references.size }).map _
    rw [h.size_references]
    exact h.modify id fun _ => rfl
  keys := h.keys
  references := by
    show u.references.push _ = (t.references.push _).map _
    rw [h.references, Array.map_push]
    rfl
  spots hspans := by
    show (spotsOf (token.span.recast ρ)).foldl _ u.spots = (spotsOf token.span).foldl _ t.spots
    rw [hspans, h.spots hspans, h.size_references]

theorem create (h : t.Recasts ρ u) :
    (t.create token meaning).Recasts ρ (u.create (token.recast ρ) (meaning.recast ρ)) := by
  rw [SymbolTable.create, SymbolTable.create, h.size_symbols]
  refine addReference token ?_ t.symbols.size
  exact {
    symbols := by
      rw [h.symbols, Array.map_push]
      rfl
    keys := by rw [h.keys, Meaning.kind_recast, Token.folded_recast]
    references := h.references
    spots := h.spots }

theorem declare (h : t.Recasts ρ u) :
    (u.declare (token.recast ρ) (meaning.recast ρ)).1 = (t.declare token meaning).1 ∧
      (t.declare token meaning).2.Recasts ρ (u.declare (token.recast ρ) (meaning.recast ρ)).2 := by
  rw [SymbolTable.declare, SymbolTable.declare, Meaning.kind_recast, Token.text_recast, h.contains]
  split
  · exact ⟨rfl, h⟩
  · exact ⟨rfl, h.create token meaning⟩

theorem reference? (h : t.Recasts ρ u) :
    (u.reference? kind (token.recast ρ)).1 = (t.reference? kind token).1 ∧
      (t.reference? kind token).2.Recasts ρ (u.reference? kind (token.recast ρ)).2 := by
  rw [SymbolTable.reference?, SymbolTable.reference?, Token.text_recast, h.find?]
  cases t.find? kind token.text with
  | none => exact ⟨rfl, h⟩
  | some id => exact ⟨rfl, h.addReference token id⟩

theorem referenceOrCreate (h : t.Recasts ρ u) : (t.referenceOrCreate token meaning).2.Recasts ρ
    (u.referenceOrCreate (token.recast ρ) (meaning.recast ρ)).2 := by
  rw [SymbolTable.referenceOrCreate, SymbolTable.referenceOrCreate, Meaning.kind_recast,
    Token.text_recast, h.find?]
  cases t.find? meaning.kind token.text with
  | none => exact h.create token meaning
  | some id => exact h.addReference token id

theorem declareLabel (h : t.Recasts ρ u) :
    (u.declareLabel (token.recast ρ)).1 = (t.declareLabel token).1 ∧
      (t.declareLabel token).2.Recasts ρ (u.declareLabel (token.recast ρ)).2 := by
  rw [SymbolTable.declareLabel, SymbolTable.declareLabel, Token.text_recast, h.find?]
  cases t.find? .label token.text with
  | none => exact ⟨rfl, h.create token (.label true)⟩
  | some id =>
    have hdeclared : (u.symbols[id]?).map Symbol.isDeclared =
        (t.symbols[id]?).map Symbol.isDeclared := by
      rw [h.symbols, Array.getElem?_map, Option.map_map]
      exact congrArg (Option.map · _) (funext Symbol.isDeclared_recast)
    dsimp only
    rw [hdeclared]
    split
    · have hsymbols := h.modify id (f := fun s => { s with token, meaning := .label true })
        (g := fun s => { s with token := token.recast ρ, meaning := .label true }) fun _ => rfl
      have hpromoted : Recasts ρ { t with symbols := _ } { u with symbols := _ } :=
        ⟨hsymbols, h.keys, h.references, h.spots⟩
      exact ⟨rfl, hpromoted.addReference token id⟩
    · exact ⟨rfl, h⟩

/-! ## 4. Going back -/

theorem rollback (h : t.Recasts ρ u) (mark : Checkpoint) :
    (t.rollback mark).Recasts ρ (u.rollback mark) where
  symbols := by
    show (u.symbols.take mark.symbols).map _ = ((t.symbols.take mark.symbols).map _).map _
    rw [h.symbols]
    simp only [Array.take_eq_extract, ← Array.map_extract, Array.map_map]
    rfl
  keys := by
    show (u.symbols.toList.drop mark.symbols).foldl _ u.keys =
      (t.symbols.toList.drop mark.symbols).foldl _ t.keys
    rw [h.symbols, h.keys, Array.toList_map, ← List.map_drop, List.foldl_map]
    simp only [Symbol.kind_recast, Symbol.fold_name_recast]
  references := by
    show u.references.take mark.references = (t.references.take mark.references).map _
    rw [h.references]
    simp only [Array.take_eq_extract, Array.map_extract]
  spots hspans := by
    show u.spots.filter _ = t.spots.filter _
    rw [h.spots hspans]

end SymbolTable.Recasts

end BasicCheck
