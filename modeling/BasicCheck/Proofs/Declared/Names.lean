import Mathlib.Data.List.Chain
import BasicCheck.Proofs.Extent.Tree
import BasicCheck.Proofs.Grammar.Resolved
import BasicCheck.Proofs.Symbol.Reached
import BasicCheck.Proofs.Token.Spelling

/-!
# One name, one symbol

An identifier that is read or assigned is noted as an equate or as a variable, and if no name is both of
these, all identifiers of one name lead to one symbol. In a text without errors a name can be both only
where it stands right behind a word that names a variable, for that is taken for one without a look at
the equates. Where no equate stands there, there is one symbol for each name
(**`Procedure.one_symbol`**).
-/

namespace BasicCheck

/-! ## 1. What a place leads to -/

namespace SymbolTable

variable {t : SymbolTable} {span : Span} {name : String}

/-- Every character of a span leads to a symbol. -/
def Resolves (t : SymbolTable) (span : Span) (s : Symbol) : Prop :=
  ∀ p ∈ spotsOf span, t.symbolAt? p = some s

/-- What is noted as a name of values leads to an equate or a variable of that name. -/
theorem Refers.exists_resolves (h : t.Refers span name) (ht : t.Sound) (hindexed : t.Indexed) :
    ∃ (i : Nat) (s : Symbol), t.symbols[i]? = some s ∧ t.Resolves span s ∧
      (s.key = ⟨.variable, name⟩ ∨ s.key = ⟨.equate, name⟩) := by
  obtain ⟨n, r, s, hr, rfl, hs, hkey⟩ := h
  refine ⟨r.symbol, s, hs, fun p hp => ?_, hkey⟩
  have hat : t.referenceAt? p = some r :=
    (hindexed.referenceAt?_eq_some_iff ht (Array.mem_of_getElem? hr) p).mpr hp
  rw [symbolAt?, hat]
  exact hs

/-- **A name that is not mixed** has one symbol. -/
theorem Sound.eq_of_not_mixed (ht : t.Sound) (hmixed : ¬ t.Mixed name) {i j : Nat} {a b : Symbol}
    (ha : t.symbols[i]? = some a) (hb : t.symbols[j]? = some b)
    (hkeya : a.key = ⟨.variable, name⟩ ∨ a.key = ⟨.equate, name⟩)
    (hkeyb : b.key = ⟨.variable, name⟩ ∨ b.key = ⟨.equate, name⟩) : a = b := by
  have hsame (hkey : a.key = b.key) : a = b := by
    obtain rfl := ht.eq_of_key ha hb hkey
    exact Option.some.inj (ha.symm.trans hb)
  rcases hkeya with hkeya | hkeya <;> rcases hkeyb with hkeyb | hkeyb
  · exact hsame (hkeya.trans hkeyb.symm)
  · exact absurd ⟨⟨j, b, hb, hkeyb⟩, ⟨i, a, ha, hkeya⟩⟩ hmixed
  · exact absurd ⟨⟨i, a, ha, hkeya⟩, ⟨j, b, hb, hkeyb⟩⟩ hmixed
  · exact hsame (hkeya.trans hkeyb.symm)

end SymbolTable

namespace Procedure

open Parse Grammar

variable {source : String} {file : Nat} {v : State} {i : Ident}

/-! ## 2. The identifiers of a text -/

/-- The identifiers of a procedure: its parameters, then those of its statements. -/
def idents (p : Procedure) : List Ident :=
  p.header.parameters.map (·.name) ++ (Block.all p.body).flatMap Statement.idents

/-- **Whatever is read or assigned** in a text without errors is noted as an equate or a variable. -/
theorem Reading.refers (hv : Reading source file v) (hclean : (ofText source file).hasErrors = false)
    (hi : i ∈ (ofText source file).idents) (hvalue : i.role.isValue) :
    (ofText source file).symbols.Refers i.span i.folded := by
  rw [← hv.symbols]
  rcases List.mem_append.mp hi with hparameter | hbody
  · exact (hv.parameters.names i hparameter).refers hvalue (hv.clean hclean) SymbolTable.whole_empty
  · obtain ⟨st, hst, hin⟩ := List.mem_flatMap.mp hbody
    obtain ⟨k, m, hk, hwritten, hm⟩ := hv.statements st hst
    have hwhole : k.symbols.Whole := hk.whole SymbolTable.whole_empty
    have hend : m.symbols.Whole := (hwritten.has.onward.symbols hwhole).1
    refine (hm.fixes hend).refers ?_
    rcases List.mem_append.mp hin with hname | hexpression
    · exact (hwritten.has.names i hname).refers hvalue (hm.clean (hv.clean hclean)) hwhole
    · obtain ⟨e, he, hident⟩ := List.mem_flatMap.mp hexpression
      obtain ⟨k₁, m₁, hk₁, hderives, hsequel⟩ := hwritten.has.expressions e he
      have hnames := hderives.names hident hvalue
      have hwhole₁ : k₁.symbols.Whole := (hk₁.symbols hwhole).1
      exact (hsequel.fixes (hderives.onward.symbols hwhole₁).1).refers (hnames.refers hwhole₁)

/-! ## 3. Mixed names -/

/-- No equate is named right behind a word that names a variable. -/
def NamesNoEquate (source : String) (file : Nat) : Prop :=
  (Lexed.ofText source file).primary.IsChain fun k w =>
    k.kind.namesVariable → (ofText source file).symbols.contains .equate w.text = false

instance (source : String) (file : Nat) : Decidable (NamesNoEquate source file) :=
  inferInstanceAs (Decidable (List.IsChain _ _))

/-- **No name is both an equate and a variable** unless it is named as a variable in any case. As an
    equate is named by an identifier, it cannot be spelt like a keyword. -/
theorem not_mixed (h : NamesNoEquate source file) (name : String) :
    ¬ (ofText source file).symbols.Mixed name := by
  intro hmixed
  obtain ⟨v, hv⟩ := exists_reading source file
  obtain ⟨read, htokens, hstems⟩ := hv.exists_stems
  have ⟨⟨i, a, ha, hkey⟩, _⟩ := hmixed
  obtain ⟨hread, hident, hfolded⟩ := hstems.bound ha (Nat.zero_le i)
    (Symbol.isBound_of_kind (congrArg SymbolKey.kind hkey))
  have hname : a.token.folded = name := hfolded.trans (congrArg SymbolKey.name hkey)
  have hthere {t : Token} (ht : t ∈ read) : t ∈ (Lexed.ofText source file).tokens := by
    have hprimary : t ∈ (Lexed.ofText source file).primary := by
      rw [htokens]
      exact List.mem_append_left _ ht
    exact (List.mem_filter.mp hprimary).1
  -- nothing is mixed at the start; else the name was spelt like a keyword, which an equate is not, or
  -- it stood behind a word that names a variable, which the hypothesis excludes
  rcases hstems.mixed hmixed with ⟨⟨_, _, hnone, -⟩, -⟩ | hnamed | ⟨k, w, hpair, hk, hw⟩
  · simp [SymbolTable.empty] at hnone
  · obtain ⟨w, hw, hspelt, hkind⟩ := hnamed
    have hword : w.kind.IsName := by
      rcases hkind with hkeyword | hsystem
      · exact Or.inr (Or.inr hkeyword)
      · exact Or.inr (Or.inl hsystem)
    have hplain := Lexed.kind_eq_ident_of_folded (hthere hread) (hthere hw) hident hword
      (hspelt.trans hname.symm)
    rw [hplain] at hkind
    rcases hkind with hkind | hkind <;> cases hkind
  · obtain ⟨front, rest, rfl⟩ := hpair
    rw [NamesNoEquate, htokens] at h
    have hno := List.isChain_pair.mp h.left_of_append.left_of_append.right_of_append hk
    have hyes : (ofText source file).symbols.contains .equate w.text = true := by
      refine (sound_symbols source file).contains_iff.mpr ⟨i, a, ha, ?_⟩
      rw [hkey, ← hw]
      rfl
    rw [hno] at hyes
    cases hyes

/-- **One name, one symbol.** In a text without errors where no equate is named right behind a word that
    names a variable, no name is both an equate and a variable, and all identifiers of one name that are
    read or assigned lead to one symbol, which has that name. -/
theorem one_symbol (source : String) (file : Nat) (hclean : (ofText source file).hasErrors = false)
    (hnames : NamesNoEquate source file) :
    (∀ name, (ofText source file).symbols.contains .equate name = true →
      (ofText source file).symbols.contains .variable name = false) ∧
    ∀ i ∈ (ofText source file).idents, i.role.isValue →
      ∃ s ∈ (ofText source file).symbols.symbols,
        (s.key = ⟨.variable, i.folded⟩ ∨ s.key = ⟨.equate, i.folded⟩) ∧
        ∀ j ∈ (ofText source file).idents, j.role.isValue → j.folded = i.folded →
          (ofText source file).symbols.Resolves j.span s := by
  have hsound := sound_symbols source file
  obtain ⟨v, hv⟩ := exists_reading source file
  refine ⟨fun name hequate => eq_false_of_ne_true fun hvariable => ?_, fun i hi hvalue => ?_⟩
  · exact not_mixed hnames _ ⟨hsound.contains_iff.mp hequate, hsound.contains_iff.mp hvariable⟩
  · have hresolves {j : Ident} (hj : j ∈ (ofText source file).idents) (hvalue : j.role.isValue) :=
      (hv.refers hclean hj hvalue).exists_resolves hsound (indexed_symbols source file)
    obtain ⟨n, s, hs, -, hkey⟩ := hresolves hi hvalue
    refine ⟨s, Array.mem_of_getElem? hs, hkey, fun j hj hvalue' hsame => ?_⟩
    obtain ⟨n', s', hs', hthere, hkey'⟩ := hresolves hj hvalue'
    rw [hsame] at hkey'
    rwa [hsound.eq_of_not_mixed (not_mixed hnames i.folded) hs hs' hkey hkey']

/-- An equate that bounds a loop. -/
def boundedText : String := "equ x to 5\nfor i = 1 to x\nnext i\n"

/-- The name of the equate is no variable, and some two places lead to one symbol. -/
theorem one_symbol_bounded : (ofText boundedText 0).symbols.contains .variable "x" = false ∧
    ∃ i ∈ (ofText boundedText 0).idents, ∃ j ∈ (ofText boundedText 0).idents, i.span ≠ j.span ∧
      ∃ s ∈ (ofText boundedText 0).symbols.symbols,
        (ofText boundedText 0).symbols.Resolves i.span s ∧
        (ofText boundedText 0).symbols.Resolves j.span s := by
  obtain ⟨happart, hall⟩ := one_symbol boundedText 0 (by decide +kernel) (by decide +kernel)
  refine ⟨happart "x" (by decide +kernel), ?_⟩
  have hfound : ((ofText boundedText 0).idents.any fun i => i.role.isValue &&
      (ofText boundedText 0).idents.any fun j => j.role.isValue &&
        (j.folded == i.folded && i.span != j.span)) = true := by decide +kernel
  obtain ⟨i, hi, hfound⟩ := List.any_eq_true.mp hfound
  obtain ⟨hvalue, hfound⟩ := Bool.and_eq_true_iff.mp hfound
  obtain ⟨j, hj, hfound⟩ := List.any_eq_true.mp hfound
  obtain ⟨hvalue', hfound⟩ := Bool.and_eq_true_iff.mp hfound
  obtain ⟨hname, hspan⟩ := Bool.and_eq_true_iff.mp hfound
  obtain ⟨s, hs, -, hleads⟩ := hall i hi hvalue
  refine ⟨i, hi, j, hj, bne_iff_ne.mp hspan, s, hs, hleads i hi hvalue rfl, ?_⟩
  exact hleads j hj hvalue' (eq_of_beq hname)

/-- A loop that counts by the name of an equate. -/
def recountedText : String := "equ x to 5\nfor x = 1 to 3\nnext x\n"

/-- A text without errors may have an equate and a variable of one name. -/
theorem exists_equate_and_variable : (ofText recountedText 0).hasErrors = false ∧
    (ofText recountedText 0).symbols.contains .equate "x" = true ∧
    (ofText recountedText 0).symbols.contains .variable "x" = true := by decide +kernel

end Procedure

end BasicCheck
