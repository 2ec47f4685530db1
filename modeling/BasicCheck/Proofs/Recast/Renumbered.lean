import BasicCheck.Proofs.Parse.References
import BasicCheck.Proofs.Recast.Analysis
import BasicCheck.Proofs.Token.Lossless

/-!
# The number of a file, and places that fit into words

Written anew for file zero, a text is read as it is with any other number: no step of reading and
neither analysis asks for the number of a file (**`Procedure.recasts_ofText`**).

In the same way places beyond 32 bits are moved (`Place.spread`), and those within are not. If all
places of a text stay, so does whatever is said of it, and therefore all places that it is said of
are within 32 bits: no step of reading makes up a place (**`Span.fits_of_recast`**).
-/

namespace BasicCheck

/-! ## 1. Places -/

/-- A place whose line and column fit into words of 32 bits. -/
def Place.Fits (p : Place) : Prop :=
  0 < p.line ∧ p.line < UInt32.size ∧ p.column < UInt32.size

/-- The place itself if it fits into words, else one that is a line or a column further. -/
def Place.spread (p : Place) : Place :=
  if p.line < UInt32.size then
    ⟨p.line, if 0 < p.line ∧ p.column < UInt32.size then p.column else p.column + 1⟩
  else ⟨p.line + 1, p.column⟩

namespace Place

/-- Exactly the places that fit stay. -/
theorem spread_eq_iff {p : Place} : p.spread = p ↔ p.Fits := by
  obtain ⟨line, column⟩ := p
  simp only [spread, Fits]
  split
  · split <;> simp only [Place.mk.injEq, true_and, iff_true_left, Nat.add_eq_left] <;> omega
  · simp only [Place.mk.injEq]
    omega

theorem spread_le {a b : Place} : a.spread ≤ b.spread ↔ a ≤ b := by
  simp only [spread, le_iff]
  split_ifs <;> dsimp only <;> omega

theorem spread_inj {a b : Place} (h : a.spread = b.spread) : a = b :=
  le_antisymm (spread_le.mp (h ▸ le_refl _)) (spread_le.mp (h ▸ le_refl _))

end Place

/-! ## 2. The way to write anew -/

/-- The same text in file zero, with the places that do not fit into words moved. -/
def Recast.renumbered : Recast where
  text := id
  char := id
  place := Place.spread
  file _ := 0
  fold_text _ := rfl
  capitalize_text _ := rfl
  text_append _ _ := rfl
  text_text _ := rfl
  text_char _ := rfl
  text_of_small _ := rfl
  text_eq_iff _ := Iff.rfl
  place_le _ _ := Place.spread_le
  place_origin := by decide
  file_zero := rfl

open Recast (renumbered)

/-- A span whose two ends fit into words. -/
def Span.Fits (s : Span) : Prop := s.start.Fits ∧ s.stop.Fits

namespace Span

variable {s : Span}

/-- A span that fits keeps its place. -/
theorem recast_of_fits (h : s.Fits) : s.recast renumbered = ⟨s.start, s.stop, 0⟩ := by
  rw [recast, show renumbered.place = Place.spread from rfl, Place.spread_eq_iff.mpr h.1,
    Place.spread_eq_iff.mpr h.2]
  rfl

/-- A span fits if it stays when it is written anew once more. -/
theorem fits_of_recast (h : (s.recast renumbered).recast renumbered = s.recast renumbered) :
    s.Fits :=
  ⟨Place.spread_eq_iff.mp (Place.spread_inj (congrArg start h)),
    Place.spread_eq_iff.mp (Place.spread_inj (congrArg stop h))⟩

end Span

/-! ## 3. Tokens -/

namespace Piece

theorem tokensFrom_zero {file : Nat} {place : Place} {pieces : List Piece}
    (h : ∀ t ∈ tokensFrom file place pieces, t.span.Fits) :
    tokensFrom 0 place pieces = (tokensFrom file place pieces).map (Token.recast renumbered) := by
  induction pieces generalizing place with
  | nil => rfl
  | cons piece rest ih =>
    cases piece with
    | space text => exact ih h
    | lexeme kind text fault =>
      rw [tokensFrom, tokensFrom, List.map_cons, Token.recast,
        Span.recast_of_fits (h _ List.mem_cons_self),
        ih fun t ht => h t (List.mem_cons_of_mem _ ht)]
      rfl

theorem faultsFrom_zero {file : Nat} {place : Place} {pieces : List Piece}
    (h : ∀ f ∈ faultsFrom file place pieces, f.span.Fits) :
    faultsFrom 0 place pieces = (faultsFrom file place pieces).map (Fault.recast renumbered) := by
  induction pieces generalizing place with
  | nil => rfl
  | cons piece rest ih =>
    cases piece with
    | space text => exact ih h
    | lexeme kind text fault =>
      cases fault with
      | none => exact ih h
      | some cause =>
        rw [faultsFrom, faultsFrom, List.map_cons, Fault.recast,
          Span.recast_of_fits (h _ List.mem_cons_self),
          ih fun f hf => h f (List.mem_cons_of_mem _ hf)]
        cases cause <;> rfl

end Piece

/-- A sign `>=` that fits is written anew with its halves: its middle fits too. -/
theorem Token.halves_of_fits {t : Token} {line column file : Nat} (h : t.span.Fits)
    (hspan : t.span = .onLine line column (column + 2) file) : t.Halves renumbered := by
  rw [hspan] at h
  obtain ⟨⟨hline, hbelow, hcolumn⟩, -, -, hend⟩ := h
  have hmiddle : Place.Fits ⟨line, column + 1⟩ :=
    ⟨hline, hbelow, Nat.lt_of_succ_lt hend⟩
  have hleft : (Span.onLine line column (column + 1) file).Fits :=
    ⟨⟨hline, hbelow, hcolumn⟩, hmiddle⟩
  have hright : (Span.onLine line (column + 1) (column + 2) file).Fits :=
    ⟨hmiddle, hline, hbelow, hend⟩
  have hwhole : t.span.recast renumbered = .onLine line column (column + 2) 0 := by
    rw [hspan]
    exact Span.recast_of_fits ⟨hleft.1, hright.2⟩
  constructor
  · rw [Parse.greaterHalf, Parse.greaterHalf, span_recast, hwhole, hspan]
    exact congrArg (Token.mk .greater ">" · false) (Span.recast_of_fits hleft).symm
  · rw [Parse.equalHalf, Parse.equalHalf, span_recast, hwhole, hspan]
    exact congrArg (Token.mk .equal "=" · false) (Span.recast_of_fits hright).symm

namespace Lexed

variable {source : String} {file : Nat}

/-- The spans of the tokens fit if all places of the text do. -/
theorem fits_of_mem_tokens (h : ∀ n, (Place.ofOffset source.toList n).Fits) {t : Token}
    (ht : t ∈ (ofText source file).tokens) : t.span.Fits := by
  obtain ⟨start, stop, hspan⟩ := exists_offsets source file ht
  rw [hspan]
  exact ⟨h start, h stop⟩

theorem fits_of_mem_faults (h : ∀ n, (Place.ofOffset source.toList n).Fits) {f : Fault}
    (hf : f ∈ (ofText source file).faults) : f.span.Fits := by
  obtain ⟨t, ht, hspan⟩ := Piece.exists_token_of_mem_faultsFrom hf
  rw [hspan]
  exact fits_of_mem_tokens h (List.mem_append_left _ ht)

/-- **Texts that fit have the same tokens in file zero**, and the same faults. -/
theorem tokens_zero (h : ∀ n, (Place.ofOffset source.toList n).Fits) :
    (ofText source 0).tokens = (ofText source file).tokens.map (Token.recast renumbered) := by
  have hfits : ∀ t ∈ (ofText source file).tokens, t.span.Fits := fun t => fits_of_mem_tokens h
  have htokens := Piece.tokensFrom_zero fun t ht => hfits t (List.mem_append_left _ ht)
  let stop := Place.origin.after source.toList
  have hend : Span.recast renumbered ⟨stop, stop, file⟩ = ⟨stop, stop, 0⟩ :=
    Span.recast_of_fits (hfits _ (List.mem_append_right _ (List.mem_singleton_self _)))
  show Piece.tokensFrom 0 .origin _ ++ [.endAt ⟨stop, stop, 0⟩] =
    List.map _ (Piece.tokensFrom file .origin _ ++ [.endAt ⟨stop, stop, file⟩])
  rw [htokens, List.map_append, List.map_singleton, Token.recast_endAt, hend]

theorem faults_zero (h : ∀ n, (Place.ofOffset source.toList n).Fits) :
    (ofText source 0).faults = (ofText source file).faults.map (Fault.recast renumbered) :=
  Piece.faultsFrom_zero fun _ => fits_of_mem_faults h

theorem primary_zero (h : ∀ n, (Place.ofOffset source.toList n).Fits) :
    (ofText source 0).primary = (ofText source file).primary.map (Token.recast renumbered) := by
  rw [primary, primary, tokens_zero h, List.filter_map]
  rfl

/-- The tokens of a text that fits suit being written anew. -/
theorem suits_of_mem_tokens (h : ∀ n, (Place.ofOffset source.toList n).Fits) {t : Token}
    (ht : t ∈ (ofText source file).tokens) : t.Suits renumbered := by
  refine ⟨fun _ => rfl, fun hkind htext => ?_⟩
  have hfits := fits_of_mem_tokens h ht
  obtain ⟨_, first, rest, -, hchars, ⟨line, column⟩, hspan⟩ := exists_read ht (by rw [hkind]; nofun)
  rw [htext, ← String.ofList_toList (s := ">=")] at hchars
  rw [← String.ofList_inj.mp hchars] at hspan
  exact Token.halves_of_fits hfits hspan

end Lexed

/-! ## 4. Procedures -/

namespace Procedure

variable {source : String} (h : ∀ n, (Place.ofOffset source.toList n).Fits) (file : Nat)

include h

/-- **A text is read as it is in file zero.** -/
theorem recasts_ofText : (ofText source file).Recasts renumbered (ofText source 0) := by
  have hsuits : ∀ t ∈ (Lexed.ofText source file).primary, t.Suits renumbered :=
    fun t ht => Lexed.suits_of_mem_tokens h (List.mem_filter.mp ht).1
  have hread := recasts_ofTokens hsuits
    (Lexed.ofText source file).faults source source (Lexed.ofText source file).tokens
    (Lexed.ofText source 0).tokens file 0
  rwa [← Lexed.primary_zero h, ← Lexed.faults_zero h] at hread

/-- **The analyses find what they find in file zero.** -/
theorem findings_ofText (options : CheckOptions) : (ofText source 0).findings options =
    ((ofText source file).findings options).map (Finding.recast renumbered) := by
  have hrecasts := recasts_ofText h file
  exact hrecasts.findings options (hrecasts.apart (nodup_idents source 0))

theorem diagnostics_ofText : (ofText source 0).diagnostics =
    (ofText source file).diagnostics.map (Diagnostic.recast renumbered) := by
  have hdiagnostics := (recasts_ofText h file).diagnostics
  have hreworded : Diagnostic.reworded renumbered = id := rfl
  rwa [hreworded, List.map_id] at hdiagnostics

/-- Whatever a diagnostic is about fits. -/
theorem fits_of_mem_diagnostics {d : Diagnostic} (hd : d ∈ (ofText source file).diagnostics) :
    d.span.Fits := by
  have hsame := (diagnostics_ofText h 0).symm.trans (List.map_id _).symm
  have hmem : d.recast renumbered ∈ (ofText source 0).diagnostics := by
    rw [diagnostics_ofText h file]
    exact List.mem_map_of_mem hd
  exact Span.fits_of_recast (congrArg Diagnostic.span (List.map_inj_left.mp hsame _ hmem))

/-- Whatever a finding is about fits. -/
theorem fits_of_mem_findings {options : CheckOptions} {f : Finding}
    (hf : f ∈ (ofText source file).findings options) : f.span.Fits := by
  have hsame := (findings_ofText h 0 options).symm.trans (List.map_id _).symm
  have hmem : f.recast renumbered ∈ (ofText source 0).findings options := by
    rw [findings_ofText h file]
    exact List.mem_map_of_mem hf
  have hspan := congrArg Finding.span (List.map_inj_left.mp hsame _ hmem)
  rw [Finding.span_recast, id, Finding.span_recast] at hspan
  exact Span.fits_of_recast hspan

end Procedure

end BasicCheck
