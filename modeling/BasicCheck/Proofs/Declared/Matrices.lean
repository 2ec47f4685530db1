import BasicCheck.Proofs.Extent.Cover
import BasicCheck.Proofs.Grammar.Resolved

/-!
# An element or a call

A name in front of an opening bracket is that of a matrix or that of a call, and the table of symbols
decides at that moment. What it says then holds to the end: an element is one of a matrix that was
declared in front of it, and a call is none of a matrix unless the matrix was declared behind the name
of the call, or is the one that the call is a dimension of, or within one
(**`Procedure.matrices_settled`**). A matrix is declared when its dimensions have been read, which is
why these cannot be told by where they stand.
-/

namespace BasicCheck

namespace Procedure

open Parse Grammar

variable {source : String} {file : Nat} {k m v : State} {e : Expr} {name : Ident} {row : Expr}
  {col : Option Expr} {args : List Expr} {span : Span} {b : Symbol}

/-! ## 1. On the way -/

/-- The tokens in front of a word that comes next have named whatever is bound there. -/
theorem exists_front (h : Along (opening source file) m) (hword : m.current.kind.IsWord) :
    ∃ front, (Lexed.ofText source file).primary = front ++ m.current :: m.advance.2.rest.tokens ∧
      SymbolTable.empty.Stems [] front m.symbols := by
  obtain ⟨front, htokens, hstems⟩ := h.exists_stems SymbolTable.whole_empty
  have hregular := h.regular (orderly_opening source file).regular
  refine ⟨front, ?_, hstems⟩
  rw [hregular.advance_of_isWord hword]
  exact htokens.trans (congrArg (front ++ ·) (hregular.rest_of_isWord hword).2)

/-- The table behind a token is whole. -/
theorem whole_advance (h : Along (opening source file) m) : m.advance.2.symbols.Whole := by
  rw [m.symbols_advance]
  exact h.whole SymbolTable.whole_empty

/-- **What is a matrix on the way is one at the end**, and was named before. -/
theorem exists_matrix (h : Along (opening source file) m) (hword : m.current.kind.IsWord)
    (hfixes : m.symbols.Fixes (ofText source file).symbols) {text : String}
    (hmatrix : m.symbols.isMatrix text = true) :
    ∃ b, (ofText source file).symbols.lookup? .variable text = some b ∧ b.isMatrix ∧
      b.token ∈ (Lexed.ofText source file).primary ∧ b.token.span.stop ≤ here m := by
  obtain ⟨front, htokens, hstems⟩ := exists_front h hword
  have hwhole := h.whole SymbolTable.whole_empty
  obtain ⟨b, hb, hbm⟩ := SymbolTable.isMatrix_iff.mp hmatrix
  obtain ⟨n, hn, hkey⟩ := hwhole.sound.lookup?_eq_some_iff.mp hb
  obtain ⟨hfront, -⟩ := hstems.bound hn (Nat.zero_le n) (Symbol.isBound_of_isMatrix hbm)
  obtain ⟨b', hn', hkey', hsame⟩ := hfixes.symbols hn
  obtain ⟨htoken, hmeaning⟩ := hsame (Symbol.kind_ne_label_of_isMatrix hbm)
  have hlookup := (sound_symbols source file).lookup?_eq_some_iff.mpr ⟨n, hn', hkey'.trans hkey⟩
  refine ⟨b', hlookup, ?_, ?_, ?_⟩
  · rw [Symbol.isMatrix, hmeaning]
    exact hbm
  · rw [htokens, htoken]
    exact List.mem_append_left _ hfront
  · rw [htoken]
    have horder := Lexed.inOrder_primary source file
    rw [htokens] at horder
    exact ((List.pairwise_append.mp horder).2.2 _ hfront _ List.mem_cons_self).2

/-- **What is no matrix on the way** is one at the end only if it has come into being since. -/
theorem exists_later (h : Along (opening source file) m)
    (hfixes : m.symbols.Fixes (ofText source file).symbols) {text : String}
    (hmatrix : m.symbols.isMatrix text = false)
    (hb : (ofText source file).symbols.lookup? .variable text = some b) (hbm : b.isMatrix) :
    ∃ n : Nat, (ofText source file).symbols.symbols[n]? = some b ∧ m.symbols.symbols.size ≤ n := by
  obtain ⟨n, hn, hkey⟩ := (sound_symbols source file).lookup?_eq_some_iff.mp hb
  refine ⟨n, hn, Nat.le_of_not_lt fun hlt => ?_⟩
  obtain ⟨b', hn', hkey', hbm', -⟩ := hfixes.isMatrix_of_lt hn hlt hbm
  have hwhole := h.whole SymbolTable.whole_empty
  have hlookup := hwhole.sound.lookup?_eq_some_iff.mpr ⟨n, hn', hkey'.symm.trans hkey⟩
  rw [SymbolTable.isMatrix_iff.mpr ⟨b', hlookup, hbm'⟩] at hmatrix
  cases hmatrix

/-- The name of a call is no matrix where it is read; if it is one at the end, it has come into being
    since. What has been read since stands behind the name. -/
theorem exists_behind_call (h : Along (opening source file) m) (hword : m.current.kind.IsWord)
    (hcall : IsCall name m m.current) (hfixes : m.symbols.Fixes (ofText source file).symbols)
    {t : Token} (ht : t ∈ (Lexed.ofText source file).primary) (hspan : t.span = name.span)
    (hident : t.kind = .ident)
    (hb : (ofText source file).symbols.lookup? .variable name.name = some b) (hbm : b.isMatrix) :
    (∃ n : Nat, (ofText source file).symbols.symbols[n]? = some b ∧ m.symbols.symbols.size ≤ n) ∧
      ∀ w ∈ m.advance.2.rest.tokens, name.span.stop ≤ w.span.start := by
  obtain ⟨front, htokens, -⟩ := exists_front h hword
  have horder := Lexed.inOrder_primary source file
  have hthere : m.current ∈ (Lexed.ofText source file).primary := by
    rw [htokens]
    exact List.mem_append_right _ List.mem_cons_self
  obtain ⟨hname, -, hcalled⟩ := hcall
  obtain rfl : t = m.current := horder.eq_of_span ht hthere (hspan.trans hname.symm)
  obtain ⟨htext, hmatrix⟩ := hcalled hident
  refine ⟨exists_later h hfixes hmatrix (htext ▸ hb) hbm, fun w hw => ?_⟩
  rw [htokens] at horder
  rw [← hspan]
  exact (List.rel_of_pairwise_cons (List.pairwise_append.mp horder).2.1 hw).2

/-! ## 2. Elements -/

/-- What a name is that of at the end is a matrix, and its declaring token stands in front of a
    place. -/
def IsDeclaredBefore (source : String) (file : Nat) (name : String) (place : Place) : Prop :=
  ∃ b, (ofText source file).symbols.lookup? .variable name = some b ∧ b.isMatrix ∧
    b.token ∈ (Lexed.ofText source file).primary ∧ b.token.span.stop ≤ place

section Settled

variable {st : Statement} (hv : Reading source file v) (hk : Along (opening source file) k)
  (hst : Written (.statement st) k m) (hm : Along m v)

include hv hk hst hm

/-- An element of a matrix. -/
theorem isDeclaredBefore_of_matrixIndex (he : e ∈ st.expressions)
    (hx : Expr.matrixIndex name row col span ∈ e.all) :
    IsDeclaredBefore source file name.name span.start := by
  obtain ⟨k₁, m₁, hk₁, hderives, hsequel⟩ := hst.has.expressions e he
  have hwhole := (hk.trans (.of_onward hk₁)).whole SymbolTable.whole_empty
  obtain ⟨x, hx₁, hword, ⟨-, htext, hmatrix⟩, hderives'⟩ :=
    (hderives.of_mem_all _ hx).exists_element hwhole
  have hfront := (hk.trans (.of_onward hk₁)).trans (.of_onward hx₁)
  have hend : x.symbols.Fixes (ofText source file).symbols := by
    rw [← hv.symbols]
    exact ((hsequel.after hderives'.onward).along hm).fixes (hfront.whole SymbolTable.whole_empty)
  rw [htext] at hmatrix
  obtain ⟨b, hb, hbm, hmem, hstop⟩ := exists_matrix hfront hword hend hmatrix
  have hlies := (hderives'.tidy (hfront.orderly (orderly_opening source file))).lies
  exact ⟨b, hb, hbm, hmem, Place.le_trans hstop hlies.start⟩

/-- An assignment to an element of a matrix. -/
theorem isDeclaredBefore_of_matrixAssignment {value : Expr}
    (hform : st = .action (.matrixAssignment name row col value) span) :
    IsDeclaredBefore source file name.name span.start := by
  subst hform
  have hlies := hst.lies (hk.orderly (orderly_opening source file)) _ List.mem_cons_self
  cases hst with
  | action hopens htold =>
    obtain ⟨-, htext, hmatrix⟩ := htold.element _ _ _ _ rfl
    have hend : k.symbols.Fixes (ofText source file).symbols := by
      rw [← hv.symbols]
      exact ((Along.of_onward htold.has.onward).trans hm).fixes (hk.whole SymbolTable.whole_empty)
    rw [htext] at hmatrix
    have hword : k.current.kind.IsWord := hopens.next ▸ hopens.word
    obtain ⟨b, hb, hbm, hmem, hstop⟩ := exists_matrix hk hword hend hmatrix
    exact ⟨b, hb, hbm, hmem, Place.le_trans hstop hlies.start⟩

/-! ## 3. Calls -/

variable {t : Token} (ht : t ∈ (Lexed.ofText source file).primary) (hspan : t.span = name.span)
  (hident : t.kind = .ident)
  (hb : (ofText source file).symbols.lookup? .variable name.name = some b) (hbm : b.isMatrix)

include ht hspan hident hb hbm

/-- A call in an expression. -/
theorem behind_or_within_of_call (he : e ∈ st.expressions) (hx : Expr.call name args span ∈ e.all) :
    name.span.stop ≤ b.token.span.start ∨
      b.token.span.stop ≤ name.span.start ∧ ∃ d ∈ b.dimensions, Expr.call name args span ∈ d.all := by
  obtain ⟨k₁, m₁, hk₁, hderives, hsequel⟩ := hst.has.expressions e he
  obtain ⟨x, _, hx₁, rfl, hword, hbehind, hcall⟩ := (hderives.of_mem_all _ hx).called
  have hk₂ := hk.trans (.of_onward hk₁)
  have hfront := hk₂.trans (.of_onward hx₁)
  have hsince := (hsequel.after hbehind).along hm
  have hwhole := whole_advance hfront
  have hend : x.symbols.Fixes (ofText source file).symbols := by
    rw [← hv.symbols, ← x.symbols_advance]
    exact hsince.fixes hwhole
  obtain ⟨⟨n, hn, hle⟩, hafter⟩ := exists_behind_call hfront hword hcall hend ht hspan hident hb hbm
  obtain ⟨read, hread⟩ := hsince.reads
  rw [← hv.symbols] at hn
  rw [← x.symbols_advance] at hle
  rcases hsince.matrices hwhole hread.tokens hn hle hbm with hnamed | ⟨hdimension, hlast⟩
  · refine Or.inl (hafter _ ?_)
    have htokens : x.advance.2.rest.tokens = read ++ v.rest.tokens := hread.tokens
    rw [htokens]
    exact List.mem_append_left _ hnamed
  · -- the name of the matrix was read right before the dimension, and so before the call
    have horderly := hk₂.orderly (orderly_opening source file)
    have hregular := (hx₁.regular horderly.regular).rest_of_isWord hword
    have hmem : x.current ∈ k₁.rest.tokens := by
      refine hx₁.suffix.subset ?_
      rw [hregular.2]
      exact List.mem_cons_self
    refine Or.inr ⟨?_, e, hdimension, hx⟩
    rw [← hcall.1]
    exact horderly.stop_le hlast hmem

/-- A call by the name of a routine alone. -/
theorem behind_of_subroutineCall (hform : st = .action (.subroutineCall name args) span) :
    name.span.stop ≤ b.token.span.start := by
  subst hform
  cases hst with
  | action hopens htold =>
    obtain ⟨x, _, hx, rfl, hword, hbehind, hcall⟩ := htold.called _ _ rfl
    have hfront := hk.trans (.of_onward hx)
    have hsince := (Along.of_onward hbehind).trans hm
    have hwhole := whole_advance hfront
    have hend : x.symbols.Fixes (ofText source file).symbols := by
      rw [← hv.symbols, ← x.symbols_advance]
      exact hsince.fixes hwhole
    obtain ⟨⟨n, hn, hle⟩, hafter⟩ := exists_behind_call hfront hword hcall hend ht hspan hident hb hbm
    obtain ⟨read, htokens, hstems⟩ := hsince.exists_stems hwhole
    rw [← hv.symbols] at hn
    rw [← x.symbols_advance] at hle
    refine hafter _ ?_
    rw [htokens]
    exact List.mem_append_left _ (hstems.bound hn hle (Symbol.isBound_of_isMatrix hbm)).1

end Settled

/-- **Whether a name is that of a matrix or that of a call is settled by what was declared before.** An
    element names a matrix whose declaring token stands in front of it, and so does an assignment to an
    element. A call, and a statement that only calls, may have the name of a matrix at the end, but then
    the declaring token stands behind the name, or the call is within a dimension of that matrix, behind
    its declaring token. -/
theorem matrices_settled (source : String) (file : Nat) {st : Statement}
    (hst : st ∈ Block.all (ofText source file).body) :
    (∀ e ∈ st.expressions, ∀ name row col span, Expr.matrixIndex name row col span ∈ e.all →
      IsDeclaredBefore source file name.name span.start) ∧
    (∀ name row col value span, st = .action (.matrixAssignment name row col value) span →
      IsDeclaredBefore source file name.name span.start) ∧
    ∀ name, ∀ t ∈ (Lexed.ofText source file).primary, t.span = name.span → t.kind = .ident →
      ∀ b, (ofText source file).symbols.lookup? .variable name.name = some b → b.isMatrix →
        (∀ e ∈ st.expressions, ∀ args span, Expr.call name args span ∈ e.all →
          name.span.stop ≤ b.token.span.start ∨
            b.token.span.stop ≤ name.span.start ∧
              ∃ d ∈ b.dimensions, Expr.call name args span ∈ d.all) ∧
        ∀ args span, st = .action (.subroutineCall name args) span →
          name.span.stop ≤ b.token.span.start := by
  obtain ⟨v, hv⟩ := exists_reading source file
  obtain ⟨k, m, hk, hwritten, hm⟩ := hv.statements st hst
  refine ⟨fun e he name row col span hx => ?_, fun name row col value span hform => ?_,
    fun name t ht hspan hident b hb hbm => ⟨fun e he args span hx => ?_, fun args span hform => ?_⟩⟩
  · exact isDeclaredBefore_of_matrixIndex hv hk hwritten hm he hx
  · exact isDeclaredBefore_of_matrixAssignment hv hk hwritten hm hform
  · exact behind_or_within_of_call hv hk hwritten hm ht hspan hident hb hbm he hx
  · exact behind_of_subroutineCall hv hk hwritten hm ht hspan hident hb hbm hform

/-- The name that an expression calls. -/
def callee? : Expr → Option Ident
  | .call name _ _ => some name
  | _ => none

theorem exists_call_of_callee? (h : callee? e = some name) :
    ∃ args span, e = .call name args span := by
  cases e with
  | call => exact ⟨_, _, congrArg (Expr.call · _ _) (Option.some.inj h)⟩
  | _ => cases h

/-- A call that comes before the matrix of its name is declared. -/
def foretoldText : String := "x = m(1)\ndim m(2)\n"

/-- The call is read as one, and the matrix is declared behind its name. -/
theorem matrices_settled_early : ∃ st ∈ Block.all (ofText foretoldText 0).body,
    ∃ e ∈ st.expressions, ∃ name args span b, e = .call name args span ∧
      (ofText foretoldText 0).symbols.lookup? .variable name.name = some b ∧ b.isMatrix ∧
      name.span.stop ≤ b.token.span.start := by
  have hfound : ((Block.all (ofText foretoldText 0).body).any fun st => st.expressions.any fun e =>
      (callee? e).any fun name => (Lexed.ofText foretoldText 0).primary.any (fun t =>
          t.span == name.span && t.kind == .ident) &&
        ((ofText foretoldText 0).symbols.lookup? .variable name.name).any fun b =>
          b.isMatrix && !decide (b.token.span.stop ≤ name.span.start)) = true := by decide +kernel
  obtain ⟨st, hst, hfound⟩ := List.any_eq_true.mp hfound
  obtain ⟨e, he, hfound⟩ := List.any_eq_true.mp hfound
  obtain ⟨name, hcallee, hfound⟩ := (Option.any_eq_true _ _).mp hfound
  obtain ⟨args, span, rfl⟩ := exists_call_of_callee? hcallee
  obtain ⟨htoken, hfound⟩ := Bool.and_eq_true_iff.mp hfound
  obtain ⟨t, ht, hname⟩ := List.any_eq_true.mp htoken
  obtain ⟨hspan, hident⟩ := Bool.and_eq_true_iff.mp hname
  obtain ⟨b, hb, hmatrix⟩ := (Option.any_eq_true _ _).mp hfound
  obtain ⟨hbm, hno⟩ := Bool.and_eq_true_iff.mp hmatrix
  refine ⟨st, hst, _, he, name, args, span, b, rfl, hb, hbm, ?_⟩
  obtain ⟨-, -, hcall⟩ := matrices_settled foretoldText 0 hst
  obtain ⟨hexpressions, -⟩ := hcall name t ht (eq_of_beq hspan) (eq_of_beq hident) b hb hbm
  rcases hexpressions _ he args span (Expr.mem_all_self _) with hbehind | ⟨hbefore, -⟩
  · exact hbehind
  · simp [hbefore] at hno

end Procedure

end BasicCheck
