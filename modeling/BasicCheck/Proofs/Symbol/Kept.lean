import BasicCheck.Proofs.Symbol.Reached

/-!
# What a symbol table keeps

A table that grows keeps its symbols at their positions, each under its key and with its shape, and
its references (**`Grows.keeps`**). So does a table that is rolled back to what it was before it grew,
however it grew in between (**`Follows.rollback`**); hence what has become a matrix stays one
(`Follows.isMatrix`).
-/

namespace BasicCheck.SymbolTable

variable {t u v : SymbolTable}

/-! ## 1. Tables that keep others -/

/-- A table has all that another one has. -/
structure Keeps (t u : SymbolTable) : Prop where
  symbols : ∀ {i : Nat} {s : Symbol}, t.symbols[i]? = some s →
    ∃ s' : Symbol, u.symbols[i]? = some s' ∧ s'.key = s.key ∧ s'.isMatrix = s.isMatrix
  references : ∀ {n : Nat} {r : Reference}, t.references[n]? = some r → u.references[n]? = some r

namespace Keeps

theorem refl (t : SymbolTable) : t.Keeps t := ⟨fun hs => ⟨_, hs, rfl, rfl⟩, id⟩

theorem trans (h : t.Keeps u) (g : u.Keeps v) : t.Keeps v where
  symbols hs := by
    obtain ⟨s', hs', hkey, hmatrix⟩ := h.symbols hs
    obtain ⟨s'', hs'', hkey', hmatrix'⟩ := g.symbols hs'
    exact ⟨s'', hs'', hkey'.trans hkey, hmatrix'.trans hmatrix⟩
  references hr := g.references (h.references hr)

/-- A further reference keeps everything. -/
theorem addReference (t : SymbolTable) (id : Nat) (token : Token) :
    t.Keeps (t.addReference id token) where
  symbols {i s} hs := by
    rw [symbols_addReference, hs]
    split
    · exact ⟨_, rfl, rfl, rfl⟩
    · exact ⟨s, rfl, rfl, rfl⟩
  references {n r} hr := by
    obtain ⟨hn, -⟩ := Array.getElem?_eq_some_iff.mp hr
    rw [references_addReference, Array.getElem?_push, if_neg (Nat.ne_of_lt hn)]
    exact hr

theorem addSymbol (t : SymbolTable) (token : Token) (meaning : Meaning) :
    t.Keeps (t.addSymbol token meaning) where
  symbols {i s} hs := by
    obtain ⟨hi, -⟩ := Array.getElem?_eq_some_iff.mp hs
    refine ⟨s, ?_, rfl, rfl⟩
    rw [symbols_addSymbol, Array.getElem?_push, if_neg (Nat.ne_of_lt hi)]
    exact hs
  references := id

theorem declareAt {id : Nat} (hlabel : ∀ s, t.symbols[id]? = some s → s.kind = .label)
    (token : Token) : t.Keeps (t.declareAt id token) where
  symbols {i s} hs := by
    rw [symbols_declareAt, hs]
    split
    · rename_i heq
      subst heq
      have hkind : s.meaning.kind = .label := hlabel s hs
      refine ⟨_, rfl, ?_, ?_⟩
      · show (⟨.label, Text.fold s.name⟩ : SymbolKey) = ⟨s.meaning.kind, Text.fold s.name⟩
        rw [hkind]
      · -- a label is no variable, declared or not
        unfold Symbol.isMatrix
        cases hmeaning : s.meaning with
        | «variable» =>
          rw [hmeaning] at hkind
          cases hkind
        | _ => rfl
    · exact ⟨s, rfl, rfl, rfl⟩
  references hr := hr

end Keeps

/-- **A table that grows keeps what it has.** -/
theorem Grows.keeps (h : t.Grows u) : t.Keeps u := by
  cases h with
  | same => exact .refl t
  | refer hid token => exact .addReference t _ token
  | @create token meaning hfree =>
    rw [create_eq]
    exact (Keeps.addSymbol t token meaning).trans (.addReference _ _ token)
  | promote hid hlabel => exact (Keeps.declareAt hlabel _).trans (.addReference _ _ _)

/-! ## 2. Tables that follow others -/

/-- A table from which nothing can be torn by a rollback to its own size. -/
structure Whole (t : SymbolTable) : Prop where
  sound : t.Sound
  fits : t.Fits t.checkpoint

theorem whole_empty : empty.Whole := ⟨sound_empty, fits_empty⟩

/-- What a whole table turns into: a whole one again that keeps what it has. -/
def Follows (t u : SymbolTable) : Prop := t.Whole → u.Whole ∧ t.Keeps u

namespace Follows

theorem refl (t : SymbolTable) : t.Follows t := fun h => ⟨h, .refl t⟩

theorem trans (h : t.Follows u) (g : u.Follows v) : t.Follows v := by
  intro ht
  obtain ⟨hu, hkeeps⟩ := h ht
  obtain ⟨hv, hkeeps'⟩ := g hu
  exact ⟨hv, hkeeps.trans hkeeps'⟩

theorem of_grows (h : t.Sound → t.Grows u) : t.Follows u := by
  intro ht
  have hgrows := h ht.sound
  have hsound := ht.sound.grow hgrows
  exact ⟨⟨hsound, ht.fits.grow_checkpoint hgrows hsound⟩, hgrows.keeps⟩

end Follows

theorem follows_declare (t : SymbolTable) (token : Token) (meaning : Meaning) :
    t.Follows (t.declare token meaning).2 :=
  .of_grows fun _ => grows_declare t token meaning

theorem follows_reference? (t : SymbolTable) (kind : SymbolKind) (token : Token) :
    t.Follows (t.reference? kind token).2 :=
  .of_grows fun h => h.grows_reference? kind token

theorem follows_referenceOrCreate (t : SymbolTable) (token : Token) (meaning : Meaning) :
    t.Follows (t.referenceOrCreate token meaning).2 :=
  .of_grows fun h => h.grows_referenceOrCreate token meaning

theorem follows_declareLabel (t : SymbolTable) (token : Token) :
    t.Follows (t.declareLabel token).2 :=
  .of_grows fun h => h.grows_declareLabel token

namespace Follows

/-- What is whole and kept can be cut off again. -/
theorem fits_checkpoint (ht : t.Whole) (h : t.Keeps u) : u.Fits t.checkpoint := by
  have hsymbols : t.symbols.size ≤ u.symbols.size := by
    refine Nat.le_of_not_lt fun hlt => ?_
    obtain ⟨s', hs', -⟩ := h.symbols (Array.getElem?_eq_getElem hlt)
    obtain ⟨hlt', -⟩ := Array.getElem?_eq_some_iff.mp hs'
    exact Nat.lt_irrefl _ hlt'
  have hreferences : t.references.size ≤ u.references.size := by
    refine Nat.le_of_not_lt fun hlt => ?_
    obtain ⟨hlt', -⟩ := Array.getElem?_eq_some_iff.mp (h.references (Array.getElem?_eq_getElem hlt))
    exact Nat.lt_irrefl _ hlt'
  refine ht.fits.of_references hsymbols hreferences fun n hn => ?_
  have hget : t.references[n]? = some t.references[n] := Array.getElem?_eq_getElem hn
  rw [hget, h.references hget]

/-- **A table that is rolled back to an earlier one** follows it, whatever was done in between. -/
theorem rollback (h : t.Follows u) : t.Follows (u.rollback t.checkpoint) := by
  intro ht
  obtain ⟨hu, hkeeps⟩ := h ht
  have hfits := fits_checkpoint ht hkeeps
  have hown : (u.rollback t.checkpoint).Fits (u.rollback t.checkpoint).checkpoint := by
    rw [hfits.checkpoint_rollback]
    exact hfits.rollback hfits ⟨Nat.le_refl _, Nat.le_refl _⟩
  refine ⟨⟨hu.sound.rollback hfits, hown⟩, fun {i s} hs => ?_, fun {n r} hr => ?_⟩
  · obtain ⟨hi, -⟩ := Array.getElem?_eq_some_iff.mp hs
    obtain ⟨s', hs', hkey, hmatrix⟩ := hkeeps.symbols hs
    have hlt : i < t.checkpoint.symbols := hi
    rw [symbols_rollback, if_pos hlt, hs']
    exact ⟨_, rfl, hkey, hmatrix⟩
  · obtain ⟨hn, -⟩ := Array.getElem?_eq_some_iff.mp hr
    have hlt : n < t.checkpoint.references := hn
    rw [references_rollback, if_pos hlt]
    exact hkeeps.references hr

/-- **What is a matrix stays one.** -/
theorem isMatrix (h : t.Follows u) (ht : t.Whole) {name : String} (hname : t.isMatrix name) :
    u.isMatrix name := by
  obtain ⟨hu, hkeeps⟩ := h ht
  unfold SymbolTable.isMatrix at hname ⊢
  cases hs : t.lookup? .variable name with
  | none =>
    rw [hs] at hname
    cases hname
  | some s =>
    rw [hs, Option.any_some] at hname
    obtain ⟨i, hi, hsymbol⟩ := Option.bind_eq_some_iff.mp hs
    obtain ⟨s₁, hs₁, hkey⟩ := ht.sound.keys.mp hi
    obtain rfl : s₁ = s := Option.some.inj (hs₁.symm.trans hsymbol)
    obtain ⟨s', hs', hkey', hmatrix⟩ := hkeeps.symbols hs₁
    have hfind : u.find? .variable name = some i := hu.sound.keys.mpr ⟨s', hs', hkey'.trans hkey⟩
    rw [lookup?, hfind, Option.bind_some, hs', Option.any_some, hmatrix, hname]

end Follows

end BasicCheck.SymbolTable
