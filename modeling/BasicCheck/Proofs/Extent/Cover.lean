import BasicCheck.Proofs.Extent.Tree

/-!
# Statements cover the text

As long as there is no error, every token that is read for a block is a separator or stands within a
statement of the block. So the header and the statements of a text without errors cover all of it but
the separators, and whether there are errors or not the spans form a tree
(**`Procedure.spanTree`**).
-/

namespace BasicCheck

/-- The spans of a tree of statements are a tree themselves, over some tokens. -/
structure Block.SpanTree (primary : List Token) (body : Block) : Prop where
  spaced : body.Spaced primary
  nested : ∀ st ∈ Block.all body, ∀ inner ∈ st.blocks, Block.Spaced primary inner
  encloses : ∀ st ∈ Block.all body, st.Encloses

/-- Nothing but separators and the end of the file stands outside a header and some statements. -/
def Block.Covers (primary : List Token) (body : Block) : Prop :=
  ∀ t ∈ primary, t.kind ≠ .newline → t.kind ≠ .semicolon → t.kind ≠ .endOfFile →
    t ∈ headerTokens primary ∨ ∃ st ∈ body, t.span.Within st.span

namespace Grammar

open Parse

variable {s u : State}

/-! ## 1. What is read for a block -/

/-- A token that is read on the way starts no earlier than what came next and, if no token is half
    read, stops no later than what was read last. -/
theorem Reads.between {read : List Token} (h : Reads s read u) (hpast : Past s u) (hs : Orderly s)
    (hwhole : u.split = none) {r : Token} (hr : r ∈ read) :
    here s ≤ r.span.start ∧ r.span.stop ≤ behind u := by
  have hin : r ∈ s.rest.tokens := by
    rw [h.tokens]
    exact List.mem_append_left _ hr
  refine ⟨hs.here_le.1 r hin, ?_⟩
  rcases List.eq_nil_or_concat read with rfl | ⟨front, t, rfl⟩
  · exact absurd hr List.not_mem_nil
  · have hlast : u.last = some t := by
      rw [h.last]
      simp
    have hbehind : behind u = t.span.stop := by
      unfold behind State.previous
      rw [hwhole, hlast]
      rfl
    rw [hbehind]
    rw [List.concat_eq_append] at hr
    rcases List.mem_append.mp hr with hfront | hself
    · have horder : InOrder (front ++ [t]) := by
        have hall := (List.pairwise_append.mp hs.order).2.1
        rw [h.tokens, List.concat_eq_append] at hall
        exact (List.pairwise_append.mp hall).1
      have hbefore := (List.pairwise_append.mp horder).2.2 r hfront t (List.mem_singleton_self _)
      have ht : t.Measured := ((hs.past hpast).measured t (by simp [hlast])).1
      exact Place.le_trans hbefore.2 ht.start_le_stop
    · rw [List.mem_singleton.mp hself]
      exact Place.le_refl _

/-- What is read for a statement stands within it. -/
theorem Written.reads_within {st : Statement} (h : Written (.statement st) s u) (hs : Orderly s)
    (hwhole : u.split = none) {read : List Token} (hread : Reads s read u) :
    ∀ t ∈ read, t.span.Within st.span := by
  obtain ⟨t, hopens, hspan⟩ := h.exists_opens
  intro r hr
  obtain ⟨hstart, hstop⟩ := hread.between h.past hs hwhole hr
  rw [hspan]
  exact hopens.within hstart hstop

/-- A token is a separator, or it stands within one of some statements. -/
def Covered (statements : Block) (t : Token) : Prop :=
  t.kind.isSeparator ∨ ∃ st ∈ statements, t.span.Within st.span

/-- What is read for a block is covered behind a last statement, too. -/
theorem covered_concat {m v : State} {front : Block} {last : Statement}
    (hfront : ∀ read, Reads s read m → ∀ t ∈ read, Covered front t) (hm : Past s m)
    (hs : Orderly s) (hlast : Written (.statement last) m v) (hwhole : v.split = none)
    (gap : Gap v u) (hu : u.Clean) {read : List Token} (hread : Reads s read u) :
    ∀ t ∈ read, Covered (front ++ [last]) t := by
  obtain ⟨read₁, h₁⟩ := hm.reads
  obtain ⟨read₂, h₂⟩ := hlast.past.reads
  obtain ⟨read₃, h₃⟩ := gap.past.reads
  rw [((h₁.trans h₂).trans h₃).eq hread.tokens]
  refine List.forall_mem_append.mpr ⟨List.forall_mem_append.mpr ⟨fun t ht => ?_, fun t ht => ?_⟩, ?_⟩
  · refine (hfront read₁ h₁ t ht).imp_right ?_
    rintro ⟨st, hst, hwithin⟩
    exact ⟨st, List.mem_append_left _ hst, hwithin⟩
  · have hwithin := hlast.reads_within (hs.past hm) hwhole h₂ t ht
    exact Or.inr ⟨last, List.mem_append_right _ (List.mem_singleton_self _), hwithin⟩
  · exact fun t ht => Or.inl (gap.blank hu read₃ h₃.tokens t ht)

/-- **Whatever is read for a block is covered**, if there is no error. -/
theorem Written.covers {n : Node} (h : Written n s u) (hs : Orderly s) (hu : u.Clean) :
    ∀ ss, n = .front ss ∨ n = .block ss → ∀ read, Reads s read u → ∀ t ∈ read, Covered ss t := by
  -- only the lists of statements are at stake: each is covered because the shorter one in front is
  induction h with
  | nil gap =>
    rintro ss (hss | hss)
    · cases hss
      exact fun read hread t ht => Or.inl (gap.blank hu read hread.tokens t ht)
    · cases hss
  | snoc front last whole _ gap ih _ =>
    rintro ss (hss | hss)
    · cases hss
      have hm := (last.past.trans gap.past).clean hu
      exact fun read hread =>
        covered_concat (ih hs hm _ (Or.inl rfl)) front.past hs last whole gap hu hread
    · cases hss
  | closed _ ih =>
    rintro ss (hss | hss)
    · cases hss
    · cases hss
      exact ih hs hu _ (Or.inl rfl)
  | ended front last whole gap ih _ =>
    rintro ss (hss | hss)
    · cases hss
    · cases hss
      have hm := (last.past.trans gap.past).clean hu
      exact fun read hread =>
        covered_concat (ih hs hm _ (Or.inl rfl)) front.past hs last whole gap hu hread
  | action | decision | counted | loop | choice | arm | nested | looped =>
    rintro ss (hss | hss) <;> cases hss

end Grammar

/-! ## 2. Texts -/

namespace Lexed

variable {source : String} {file : Nat}

/-- The primary tokens are words and the end of the file, which takes no room. -/
theorem exists_primary_eq (source : String) (file : Nat) : ∃ words place,
    (ofText source file).primary = words ++ [Token.endAt ⟨place, place, file⟩] ∧
      ∀ w ∈ words, w.kind ≠ .endOfFile := by
  refine ⟨_, _, List.filter_append _ _, fun w hw => ?_⟩
  exact Piece.kind_ne_of_mem_tokensFrom (fun _ _ _ h => Piece.kind_ne_of_mem_ofChars h)
    (List.mem_of_mem_filter hw)

/-- Nothing stands behind the end of the file. -/
theorem eq_nil_of_endOfFile {front behind : List Token} {t : Token}
    (h : (ofText source file).primary = front ++ t :: behind) (hk : t.kind = .endOfFile) :
    behind = [] := by
  obtain ⟨words, place, hwords, hkinds⟩ := exists_primary_eq source file
  rcases List.eq_nil_or_concat behind with hnil | ⟨more, last, rfl⟩
  · exact hnil
  · have hall : (front ++ t :: more) ++ [last] = words ++ [Token.endAt ⟨place, place, file⟩] := by
      rw [← hwords, h]
      simp
    obtain ⟨hfront, -⟩ := List.append_inj' hall rfl
    refine absurd hk (hkinds t ?_)
    rw [← hfront]
    exact List.mem_append_right _ List.mem_cons_self

end Lexed

namespace Procedure

open Parse Grammar

variable {source : String} {file : Nat}

theorem orderly_opening (source : String) (file : Nat) : Orderly (opening source file) where
  regular := regular_opening _ _
  order := Lexed.inOrder_primary source file
  measured t ht := by
    have hmem : t ∈ (Lexed.ofText source file).primary := ht
    refine ⟨Lexed.measured_of_mem_primary hmem, ?_⟩
    obtain ⟨words, place, hwords, -⟩ := Lexed.exists_primary_eq source file
    have heof : (opening source file).eof.span.start = place := by
      simp [opening, State.opening, State.initial, hwords, Token.endAt]
    have horder := Lexed.inOrder_primary source file
    rw [heof]
    rw [hwords] at hmem horder
    rcases List.mem_append.mp hmem with hin | hin
    · exact ((List.pairwise_append.mp horder).2.2 t hin _ (List.mem_singleton_self _)).2
    · rw [List.mem_singleton.mp hin]
      exact Place.le_refl _

/-- Where the file ends nothing but its end is left. -/
theorem kind_of_mem_rest {v : State} {front : List Token} {t : Token}
    (htokens : (Lexed.ofText source file).primary = front ++ v.rest.tokens)
    (hended : v.current.kind = .endOfFile) (ht : t ∈ v.rest.tokens) : t.kind = .endOfFile := by
  have hwhole : v.split = none := split_eq_none (by rw [hended]; decide)
  cases hrest : v.rest.tokens with
  | nil =>
    rw [hrest] at ht
    exact absurd ht List.not_mem_nil
  | cons next behind =>
    have hnext : next.kind = .endOfFile := by
      have hcurrent : v.current = next := by
        unfold State.current
        rw [hwhole, hrest]
        rfl
      rw [← hcurrent]
      exact hended
    rw [hrest] at ht htokens
    rw [Lexed.eq_nil_of_endOfFile htokens hnext] at ht
    rw [List.mem_singleton.mp ht]
    exact hnext

/-- **The header and the statements of a text without errors cover it.** -/
theorem covers (h : (ofText source file).hasErrors = false) :
    (ofText source file).body.Covers (Lexed.ofText source file).primary := by
  obtain ⟨m, v, hbody⟩ := exists_written source file
  have hclean : v.Clean := hbody.behind.clean (clean_readText h)
  have horderly := (orderly_opening source file).past hbody.front
  obtain ⟨read, hread, hheaded⟩ := hbody.headed (hbody.written.past.clean hclean)
  obtain ⟨more, hmore⟩ := hbody.written.past.reads
  have htokens : (Lexed.ofText source file).primary = (read ++ more) ++ v.rest.tokens :=
    (hread.trans hmore).tokens
  have hseparator {t : Token} (hline : t.kind ≠ .newline) (hsemicolon : t.kind ≠ .semicolon) :
      ¬ t.kind.isSeparator := by
    intro hk
    rcases Kind.eq_of_isSeparator hk with hk | hk
    · exact hline hk
    · exact hsemicolon hk
  intro t ht hline hsemicolon hend
  rw [htokens] at ht ⊢
  rcases List.mem_append.mp ht with hin | hin
  · rcases List.mem_append.mp hin with hin | hin
    · have hheader := (hheaded t hin).resolve_left (hseparator hline hsemicolon)
      rw [List.append_assoc]
      exact Or.inl (headerTokens_subset_append _ _ hheader)
    · have hcovered := hbody.written.covers horderly hclean _ (Or.inr rfl) more hmore t hin
      exact Or.inr (hcovered.resolve_left (hseparator hline hsemicolon))
  · exact absurd (kind_of_mem_rest htokens hbody.ended hin) hend

/-- **The spans of a text form a tree**, whether there are errors or not; if there are none, they
    cover the text. -/
theorem spanTree (source : String) (file : Nat) :
    (ofText source file).body.SpanTree (Lexed.ofText source file).primary ∧
      ((ofText source file).hasErrors = false →
        (ofText source file).body.Covers (Lexed.ofText source file).primary) := by
  obtain ⟨m, v, hbody⟩ := exists_written source file
  have horderly := (orderly_opening source file).past hbody.front
  have htokens : m.rest.tokens ⊆ (Lexed.ofText source file).primary := hbody.front.suffix.subset
  have hsits := hbody.written.sits horderly htokens
  refine ⟨⟨(hbody.written.spaced horderly htokens).1, ?_, ?_⟩, covers⟩
  · exact fun st hst => (hsits st hst).spaced
  · exact fun st hst => (hsits st hst).encloses

/-- A text with a header, a label, a loop and a token that is read by halves. -/
def spanText : String :=
  "function f(a)\nagain: for i = 1 to 3\n  x<1, 2>=a; goto again\nnext i\nif x[1, 2] then null\n"

/-- The spans of such a text form a tree and cover it. -/
theorem spanTree_spanText : (ofText spanText 0).body.SpanTree (Lexed.ofText spanText 0).primary ∧
    (ofText spanText 0).hasErrors = false ∧
    (ofText spanText 0).body.Covers (Lexed.ofText spanText 0).primary := by
  have herrors : (ofText spanText 0).hasErrors = false := by decide +kernel
  exact ⟨(spanTree spanText 0).1, herrors, (spanTree spanText 0).2 herrors⟩

end Procedure

end BasicCheck
