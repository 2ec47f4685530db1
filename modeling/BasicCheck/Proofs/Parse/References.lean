import BasicCheck.Proofs.Parse.Procedure
import BasicCheck.Proofs.Token.Lossless

/-!
# References of a text

A name is noted when it has just been read, or later, but then as a symbol of its own; so no token is
noted twice, and the references to one symbol come in the order of the text. One step of a run keeps a
table indexed, and so does every run (**`Run.indexed`**). As the names of a text lie on one line each,
places and symbols then tell the same about the procedure of a text: a reference is found at exactly
the columns of its token, and the references to a symbol, its own token among them, stand one behind
the other (**`Procedure.consistent_ofText`**).
-/

namespace BasicCheck

namespace Parse.Run

variable {o s : State} {trace : List Event}

/-! ## 1. Runs -/

/-- **A run keeps a table indexed.** -/
theorem indexed (ho : o.Sound) (hindexed : o.symbols.Indexed) (h : Run o trace s) :
    s.symbols.Indexed := by
  induction h with
  | start => exact hindexed
  | @next trace s e h legal ih =>
    cases e with
    | refers kind id t => exact ih.addReference legal.2.2.clear fun r hr _ => legal.2.2 r hr
    | creates meaning t => exact ih.create (h.sound ho).table legal.2.2 meaning
    | promotes id t => exact ih.promote legal.2.2
    | _ => exact ih

/-- A run keeps the token of each symbol among the references to it. -/
theorem owning (howning : o.symbols.Owning) (h : Run o trace s) : s.symbols.Owning := by
  induction h with
  | start => exact howning
  | @next trace s e h legal ih =>
    cases e with
    | refers kind id t => exact ih.addReference
    | creates meaning t => exact ih.create meaning
    | promotes id t => exact ih.promote
    | _ => exact ih

end Parse.Run

/-! ## 2. Procedures -/

namespace SymbolTable

/-- A token on one line is found at each of its columns. -/
theorem mem_spotsOf {span : Span} (h : span.OnLine) (p : Spot) :
    p ∈ spotsOf span ↔ p.file = span.file ∧ p.line = span.start.line ∧
      span.start.column ≤ p.column ∧ p.column < span.stop.column := by
  obtain ⟨line, column, file⟩ := p
  obtain ⟨hline, hcolumn⟩ := h
  simp only [spotsOf, if_pos hline, List.mem_map, List.mem_range'_1, Spot.mk.injEq]
  constructor
  · rintro ⟨c, hc, hl, rfl, hf⟩
    exact ⟨hf.symm, hl.symm, by omega⟩
  · rintro ⟨hf, hl, hc⟩
    exact ⟨column, by omega, hl.symm, rfl, hf.symm⟩

/-- What a table tells about places is what it tells about symbols. -/
structure Consistent (t : SymbolTable) (file : Nat) : Prop where
  onLine : ∀ r ∈ t.references, r.token.span.OnLine
  /-- A reference is found at each column of its token, and nowhere else. -/
  exact : ∀ r ∈ t.references, ∀ spot : Spot, t.referenceAt? spot = some r ↔
    spot.file = file ∧ spot.line = r.token.span.start.line ∧
      r.token.span.start.column ≤ spot.column ∧ spot.column < r.token.span.stop.column
  increasing : ∀ s ∈ t.symbols,
    (t.referencesOf s).Pairwise fun a b => a.token.span.start < b.token.span.start
  own : ∀ s ∈ t.symbols, ∃ r ∈ t.referencesOf s, r.token = s.token

end SymbolTable

namespace Procedure

open Parse

theorem symbols_ofText (source : String) (file : Nat) :
    (ofText source file).symbols = (readText source file).2.symbols := by
  simp only [ofText, ofTokens, readText]

theorem sound_symbols (source : String) (file : Nat) : (ofText source file).symbols.Sound := by
  obtain ⟨trace, hat, -⟩ := exists_run_readText source file
  rw [symbols_ofText]
  exact hat.state_sound.table

theorem indexed_symbols (source : String) (file : Nat) :
    (ofText source file).symbols.Indexed := by
  obtain ⟨trace, hat, -⟩ := exists_run_readText source file
  rw [symbols_ofText]
  exact hat.run.indexed hat.sound SymbolTable.indexed_empty

theorem owning_symbols (source : String) (file : Nat) : (ofText source file).symbols.Owning := by
  obtain ⟨trace, hat, -⟩ := exists_run_readText source file
  rw [symbols_ofText]
  exact hat.run.owning SymbolTable.owning_empty

/-- Whatever a procedure refers to stands where a name of its text stands. -/
theorem isNamed_of_mem_references {source : String} {file : Nat} {r : Reference}
    (hr : r ∈ (ofText source file).symbols.references) :
    r.token.IsNamed (Lexed.ofText source file).tokens := by
  obtain ⟨trace, hat, -⟩ := exists_run_readText source file
  rw [symbols_ofText] at hr
  rcases hat.run.named hr with hr | hnamed
  · exact absurd hr (Array.not_mem_empty r)
  · refine hnamed.of_subset fun u hu => ?_
    have hprimary : u ∈ (Lexed.ofText source file).primary := by
      rw [show (Lexed.ofText source file).primary = _ from hat.run.tokens_eq]
      exact List.mem_append_left _ hu
    exact (List.mem_filter.mp hprimary).1

theorem onLine_of_mem_references {source : String} {file : Nat} {r : Reference}
    (hr : r ∈ (ofText source file).symbols.references) :
    r.token.span.OnLine ∧ r.token.span.file = file := by
  obtain ⟨u, hu, hname, hspan⟩ := isNamed_of_mem_references hr
  rw [hspan]
  exact Lexed.onLine_of_isName hu hname

/-- **Places and symbols of a text tell the same.** -/
theorem consistent_ofText (source : String) (file : Nat) :
    (ofText source file).symbols.Consistent file := by
  have hsound := sound_symbols source file
  have hindexed := indexed_symbols source file
  constructor
  case onLine => exact fun r hr => (onLine_of_mem_references hr).1
  case exact =>
    intro r hr spot
    obtain ⟨hline, hfile⟩ := onLine_of_mem_references hr
    rw [hindexed.referenceAt?_eq_some_iff hsound hr, SymbolTable.mem_spotsOf hline, hfile]
  case increasing =>
    intro s hs
    obtain ⟨i, hi⟩ := Array.mem_iff_getElem?.mp hs
    exact (hindexed.pairwise_referencesOf hsound hi).imp fun h => h.1
  case own =>
    intro s hs
    obtain ⟨i, hi⟩ := Array.mem_iff_getElem?.mp hs
    exact ⟨_, SymbolTable.Owning.mem_referencesOf (owning_symbols source file) hsound hi, rfl⟩

end Procedure

end BasicCheck
