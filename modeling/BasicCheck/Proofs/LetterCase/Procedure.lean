import BasicCheck.Proofs.LetterCase.Symbol
import BasicCheck.Proofs.Recast.Procedure

/-!
# Procedures that differ in ASCII case

What is read from a text with small letters is what is read from the text, with small letters. So
two texts that differ in ASCII case give procedures that differ in ASCII case
(**`Procedure.lower_ofText`**).
-/

namespace BasicCheck

open Recast (lowercase)

/-! ## 1. Procedures with small letters -/

/-- The parameter with small letters. -/
def Parameter.lower (p : Parameter) : Parameter := { p with name := p.name.lower }

/-- The header with small letters. -/
def Header.lower (head : Header) : Header :=
  { head with name := Text.lower head.name, parameters := head.parameters.map Parameter.lower }

/-- The procedure with small letters, and the text and the tokens that it was read from. -/
def Procedure.lower (p : Procedure) : Procedure where
  header := p.header.lower
  body := p.body.map Statement.lower
  symbols := p.symbols.lower
  labels := p.labels
  diagnostics := p.diagnostics.map Diagnostic.lower
  regions := p.regions
  tokens := p.tokens.map Token.lower
  source := Text.lower p.source
  file := p.file

theorem Cause.lower_eq_recast (cause : Cause) : cause.lower = cause.recast lowercase := by
  cases cause <;> rfl

theorem Fault.lower_eq : lower = recast lowercase := by
  funext f
  rw [lower, Cause.lower_eq_recast]
  rfl

/-- The halves of a sign hold no letters. -/
theorem Token.halves_lowercase (t : Token) : t.Halves lowercase where
  greater := congrArg (Token.mk .greater · _ false) (by decide : ">" = Text.lower ">")
  equal := congrArg (Token.mk .equal · _ false) (by decide : "=" = Text.lower "=")

namespace Procedure

/-- Every procedure is written anew with small letters. -/
theorem recasts_lower (p : Procedure) : p.Recasts lowercase p.lower where
  header := rfl
  body := congrArg (List.map · p.body) Statement.lower_eq
  symbols := SymbolTable.recasts_lowercase_iff.mpr rfl
  labels := rfl
  diagnostics := by
    show (p.diagnostics.map Diagnostic.lower).map Diagnostic.lower =
      p.diagnostics.map Diagnostic.lower
    rw [List.map_map]
    refine congrArg (List.map · p.diagnostics) (funext fun d => ?_)
    exact congrArg (Diagnostic.mk · d.span d.severity) (lowercase.text_text d.message)
  regions := p.regions.map_id.symm

/-- What a procedure is written anew to is the procedure with small letters, but for the messages,
    which have capitals of their own. -/
theorem Recasts.lower_eq {p q : Procedure} (h : p.Recasts lowercase q) : p.lower =
    { q with
      diagnostics := q.diagnostics.map Diagnostic.lower
      tokens := p.tokens.map Token.lower
      source := Text.lower p.source
      file := p.file } := by
  obtain ⟨header, body, symbols, labels, diagnostics, regions, tokens, source, file⟩ := q
  have hbody : body = p.body.map Statement.lower := by
    rw [Statement.lower_eq]
    exact h.body
  have hregions : regions = p.regions := h.regions.trans p.regions.map_id
  have hdiagnostics : diagnostics.map Diagnostic.lower = p.diagnostics.map Diagnostic.lower :=
    h.diagnostics
  rw [lower, Procedure.mk.injEq]
  exact ⟨h.header.symm, hbody.symm, (SymbolTable.recasts_lowercase_iff.mp h.symbols).symm,
    h.labels.symm, hdiagnostics.symm, hregions.symm, rfl, rfl, rfl⟩

/-! ## 2. Texts -/

/-- A procedure with small letters is what is read from the tokens with small letters, but for the
    messages, which have capitals of their own. -/
theorem lower_ofTokens {primary : List Token} (hquoted : ∀ token ∈ primary, token.Quoted)
    (faults : List Fault) (source : String) (tokens : List Token) (file : Nat) :
    let lowered := ofTokens (primary.map Token.lower) (faults.map Fault.lower) (Text.lower source)
      (tokens.map Token.lower) file
    (ofTokens primary faults source tokens file).lower =
      { lowered with diagnostics := lowered.diagnostics.map Diagnostic.lower } := by
  have hsuits : ∀ token ∈ primary, token.Suits lowercase := fun token htoken =>
    ⟨hquoted token htoken, fun _ _ => Token.halves_lowercase token⟩
  have hrecasts := recasts_ofTokens hsuits faults source (Text.lower source) tokens
    (tokens.map Token.lower) file file
  rw [← Fault.lower_eq] at hrecasts
  exact hrecasts.lower_eq

theorem lower_ofText (source : String) (file : Nat) : (ofText source file).lower =
    { ofText (Text.lower source) file with
      diagnostics := (ofText (Text.lower source) file).diagnostics.map Diagnostic.lower } := by
  have hquoted : ∀ token ∈ (Lexed.ofText source file).primary, token.Quoted :=
    fun token htoken => Lexed.quoted_of_mem (List.mem_filter.mp htoken).1
  rw [ofText, ofText, Lexed.ofText_lower, Lexed.primary_lower]
  exact lower_ofTokens hquoted _ source _ file

end Procedure

end BasicCheck
