import BasicCheck.Proofs.Expression.Tree
import BasicCheck.Proofs.Extent.Order
import BasicCheck.Proofs.Statement.Tree

/-!
# Spans form a tree

What an expression or a statement holds stands within its span (`Expr.Encloses`,
`Statement.Encloses`), and the statements of a block stand one behind the other, with a separator
between any two of them unless the first needs none (`Block.Spaced`). This follows from how they came
about, whether there are errors or not: **`Derives.tidy`**, **`Written.sits`**.
-/

namespace BasicCheck

/-! ## 1. What is asked for -/

/-- What an expression holds itself stands within it. -/
structure Expr.Encloses (e : Expr) : Prop where
  parts : ∀ part ∈ e.parts, part.span.Within e.span
  names : ∀ i ∈ e.names, i.span.Within e.span

/-- The arms of a choice. -/
def Statement.caseArms : Statement → List CaseArm
  | choice arms _ => arms
  | _ => []

/-- What an arm of a choice holds stands within it. -/
structure CaseArm.Encloses (a : CaseArm) : Prop where
  cond : a.cond.span.Within a.span
  body : ∀ st ∈ a.body, st.span.Within a.span

/-- What a statement holds, at every depth, stands within it. -/
structure Statement.Encloses (st : Statement) : Prop where
  statements : ∀ inner ∈ st.within, inner.span.Within st.span
  arms : ∀ a ∈ st.caseArms, a.span.Within st.span ∧ a.Encloses
  expressions : ∀ e ∈ st.expressions, ∀ x ∈ e.all, x.span.Within st.span ∧ x.Encloses
  idents : ∀ i ∈ st.idents, i.span.Within st.span

/-- A statement stops before another one starts; unless it needs no separator, one of some tokens
    separates them. -/
def Statement.Precedes (tokens : List Token) (a b : Statement) : Prop :=
  a.span.stop ≤ b.span.start ∧ (a.isSeparatorExempt ∨
    ∃ t ∈ tokens, (t.kind = .newline ∨ t.kind = .semicolon) ∧
      a.span.start < t.span.start ∧ t.span.stop ≤ b.span.start)

/-- The statements of a block stand one behind the other. -/
def Block.Spaced (tokens : List Token) (body : Block) : Prop :=
  body.Pairwise (Statement.Precedes tokens)

/-- A statement is the root of a tree of spans. -/
structure Statement.Sits (tokens : List Token) (st : Statement) : Prop where
  encloses : st.Encloses
  spaced : ∀ body ∈ st.blocks, Block.Spaced tokens body

namespace Grammar

open Parse

variable {o s m u v : State} {t : Token} {a b : Span}

/-! ## 2. Expressions -/

/-- An expression stands between two states, and whatever it holds stands within it. -/
def Tidy (e : Expr) (s u : State) : Prop := ∀ x ∈ e.all, Lies x.span s u ∧ x.Encloses

namespace Tidy

variable {e : Expr}

theorem lies (h : Tidy e s u) : Lies e.span s u := (h e e.mem_all_self).1

theorem widen (ho : Orderly o) (before : Past o s) (h : Tidy e s u) (after : Past u v)
    (hu : Orderly u) : Tidy e o v :=
  fun x hx => ⟨(h x hx).1.widen ho before after hu, (h x hx).2⟩

theorem of_parts (hself : Lies e.span s u) (hencloses : e.Encloses)
    (hparts : ∀ part ∈ e.parts, Tidy part s u) : Tidy e s u :=
  Expr.forall_mem_all.mpr ⟨⟨hself, hencloses⟩, hparts⟩

end Tidy

/-- A span that lies between two states reaches on to what is read last. -/
theorem Lies.extend (hs : Orderly s) (h : Lies a s m) (hm : Orderly m) (g : Past m u) :
    Lies a s u ∧ Lies (a.join u.previous.span) s u := by
  have hlies := h.widen hs (.refl s) g hm
  exact ⟨hlies, hlies.join (hlies.previous (hm.past g))⟩

/-- **Expressions are trees of spans.** -/
theorem Derives.tidy {e : Expr} (h : Derives e s u) (hs : Orderly s) : Tidy e s u := by
  -- each part is tidy between the states that it was read between, and so between those of the whole
  induction h with
  | within before inner behind ih =>
    have hstart := hs.past before.toPast
    exact (ih hstart).widen hs before behind (hstart.past inner.past)
  | «variable» names =>
    exact .of_parts (names.stands.lies hs) ⟨nofun, List.forall_mem_singleton.mpr (.refl _)⟩ nofun
  | number _ finds | string _ finds => exact .of_parts (finds.stands.lies hs) ⟨nofun, nofun⟩ nofun
  | binary op _ _ ihleft ihright =>
    have hleft := ihleft hs
    have hright := ihright hs
    refine .of_parts (hleft.lies.join hright.lies) ⟨?_, nofun⟩ ?_
    · refine List.forall_mem_cons.mpr ⟨Span.within_join_left _ _, ?_⟩
      exact List.forall_mem_singleton.mpr (Span.within_join_right _ _)
    · exact List.forall_mem_cons.mpr ⟨hleft, List.forall_mem_singleton.mpr hright⟩
  | negate sign _ ih =>
    have hinner := ih hs
    refine .of_parts ((sign.stands.lies hs).join hinner.lies) ⟨?_, nofun⟩ ?_
    · exact List.forall_mem_singleton.mpr (Span.within_join_right _ _)
    · exact List.forall_mem_singleton.mpr hinner
  | arrayIndex hbase hne _ hindexes ihbase ih | substring hbase hne _ hindexes ihbase ih =>
    have hm := hs.past hbase.past
    obtain ⟨index, hindex⟩ := List.exists_mem_of_ne_nil _ hne
    have hpast := (hindexes index hindex).past
    have hself := (ihbase hs).lies
    refine .of_parts (hself.extend hs hm hpast).2 ⟨?_, nofun⟩ ?_
    · refine List.forall_mem_cons.mpr ⟨Span.within_join_left _ _, fun e he => ?_⟩
      exact hself.within_join hm (ih e he hm).lies
    · refine List.forall_mem_cons.mpr ⟨(ihbase hs).widen hs (.refl _) hpast hm, fun e he => ?_⟩
      exact (ih e he hm).widen hs hbase.past (.refl _) (hm.past hpast)
  | matrixIndex element hrow hcol ihrow ihcol =>
    have hpast := element.toNames.past
    have hm := hs.past hpast
    have hname := element.stands.lies hs
    have hu := hm.past hrow.past
    refine .of_parts (hname.extend hs hm hrow.past).2 ⟨?_, ?_⟩ ?_
    · refine List.forall_mem_cons.mpr ⟨hname.within_join hm (ihrow hm).lies, fun e he => ?_⟩
      exact hname.within_join hm (ihcol e (Option.mem_toList.mp he) hm).lies
    · exact List.forall_mem_singleton.mpr (Span.within_join_left _ _)
    · refine List.forall_mem_cons.mpr ⟨(ihrow hm).widen hs hpast (.refl _) hu, fun e he => ?_⟩
      exact (ihcol e (Option.mem_toList.mp he) hm).widen hs hpast (.refl _) hu
  | call called onward _ ih =>
    have hm := hs.past called.past
    have hname := called.finds.stands.lies hs
    refine .of_parts (hname.extend hs hm onward).2 ⟨fun e he => ?_, ?_⟩ fun e he => ?_
    · exact hname.within_join hm (ih e he hm).lies
    · exact List.forall_mem_singleton.mpr (Span.within_join_left _ _)
    · exact (ih e he hm).widen hs called.past (.refl _) (hm.past onward.toPast)
  | conditional finds hcond _ _ ihcond ihthen ihelse =>
    have hm := hs.past finds.past
    have hstart := finds.stands.lies hs
    have hu := hm.past hcond.past
    have hpart {e : Expr} (h : Tidy e _ _) := h.widen hs finds.past (.refl _) hu
    refine .of_parts (hstart.extend hs hm hcond.past).2 ⟨?_, nofun⟩ ?_
    · refine List.forall_mem_cons.mpr ⟨hstart.within_join hm (ihcond hm).lies, ?_⟩
      refine List.forall_mem_cons.mpr ⟨hstart.within_join hm (ihthen hm).lies, ?_⟩
      exact List.forall_mem_singleton.mpr (hstart.within_join hm (ihelse hm).lies)
    · refine List.forall_mem_cons.mpr ⟨hpart (ihcond hm), ?_⟩
      refine List.forall_mem_cons.mpr ⟨hpart (ihthen hm), ?_⟩
      exact List.forall_mem_singleton.mpr (hpart (ihelse hm))
  | property hobject finds _ ih =>
    have hm := hs.past hobject.past
    have hself := (ih hs).lies
    refine .of_parts (hself.extend hs hm finds.past).2 ⟨?_, ?_⟩ ?_
    · exact List.forall_mem_singleton.mpr (Span.within_join_left _ _)
    · exact List.forall_mem_singleton.mpr (hself.within_join hm (finds.stands.lies hm))
    · exact List.forall_mem_singleton.mpr ((ih hs).widen hs (.refl _) finds.past hm)
  | method hobject finds _ _ ih ihargs =>
    have hm := hs.past hobject.past
    have hself := (ih hs).lies
    have hu := hm.past finds.past
    refine .of_parts (hself.extend hs hm finds.past).2 ⟨?_, ?_⟩ ?_
    · refine List.forall_mem_cons.mpr ⟨Span.within_join_left _ _, fun e he => ?_⟩
      exact hself.within_join hm (ihargs e he hm).lies
    · exact List.forall_mem_singleton.mpr (hself.within_join hm (finds.stands.lies hm))
    · refine List.forall_mem_cons.mpr ⟨(ih hs).widen hs (.refl _) finds.past hm, fun e he => ?_⟩
      exact (ihargs e he hm).widen hs hobject.past (.refl _) hu

/-! ## 3. What a statement holds -/

/-- An expression that was read on the way is a tree of spans. -/
theorem Held.tidy {e : Expr} (h : Held e s u) (hs : Orderly s) : Tidy e s u := by
  obtain ⟨k, m, honward, hderives, hsequel⟩ := h
  have hk := hs.past honward.toPast
  exact (hderives.tidy hk).widen hs honward.toPast hsequel (hk.past hderives.past)

theorem Lies.leave (h : Lies a s.enter u) : Lies a s u.leave :=
  ⟨h.some, h.start, h.room, h.stop, h.since⟩

/-- **Statements lie where they were read**, at every depth. -/
theorem Written.lies {n : Node} (h : Written n s u) (hs : Orderly s) :
    ∀ x ∈ n.all, Lies x.span s u := by
  -- on the derivation: what lies in a part also lies in what is read in front of it and behind it
  induction h with
  | action opens => exact Statement.forall_mem_within.mpr ⟨opens.lies_join hs, nofun⟩
  | decision opens _ _ _ _ ih =>
    exact Statement.forall_mem_within.mpr ⟨opens.lies_join hs, fun body hbody => ih body hbody hs⟩
  | counted opens _ _ _ _ ih | loop opens _ ih =>
    exact Statement.forall_mem_within.mpr
      ⟨opens.lies_join hs, List.forall_mem_singleton.mpr (ih hs)⟩
  | choice _ opens _ ih =>
    exact Statement.forall_mem_within.mpr
      ⟨opens.lies_join hs, List.forall_mem_map.mpr fun a ha => ih a ha hs⟩
  | arm before opens _ _ behind ih =>
    have hstart := hs.past before.toPast
    exact fun x hx => (ih hstart x hx).widen hs before behind (hstart.past opens.past)
  | nested before inner behind ih =>
    have hstart := hs.past before.toPast
    exact fun x hx => (ih hstart x hx).widen hs before behind (hstart.past inner.past)
  | looped before inner behind ih =>
    have hstart := hs.past before.toPast
    exact fun x hx =>
      (ih hstart.enter x hx).leave.widen hs before behind (hstart.past inner.past.leave)
  | nil => exact nofun
  | snoc front last _ _ gap ih ih' | ended front last _ gap ih ih' =>
    have hm := hs.past front.past
    have hv := hm.past last.past
    refine Block.forall_mem_all_concat (fun x hx => ?_) fun x hx => ?_
    · exact (ih hs x hx).widen hs (.refl _) (last.past.trans gap.past) hm
    · exact (ih' hm x hx).widen hs front.past gap.past hv
  | closed _ ih => exact ih hs

/-- A statement holds expressions that were read for it, and names that stand where words were. -/
theorem Written.has {st : Statement} (h : Written (.statement st) s u) :
    Has s st.expressions st.names u := by
  have honward := h.onward
  cases h with
  | action _ told => exact told.has
  | decision _ judged => exact judged.has
  | counted _ has => exact has
  | loop => exact .of_onward honward
  | choice _ _ arms =>
    refine ⟨honward, List.forall_mem_map.mpr fun a ha => ?_, nofun⟩
    cases arms a ha with
    | arm before _ hcond _ behind => exact (Derives.within before hcond behind).held

/-- An arm of a choice stands where it was read, with all that it holds. -/
theorem Written.armEncloses {arm : CaseArm} (h : Written (.arm arm) s u) (hs : Orderly s) :
    Lies arm.span s u ∧ arm.Encloses := by
  cases h with
  | arm before opens hcond inner behind =>
    have hstart := hs.past before.toPast
    refine ⟨(opens.lies_join hstart).widen hs before behind (hstart.past opens.past), ?_, ?_⟩
    · have hlies := (hcond.tidy hstart).lies
      exact opens.within hlies.start hlies.stop
    · intro st hst
      have hlies := inner.lies hstart st (Block.mem_all_of_mem hst)
      exact opens.within hlies.start hlies.stop

/-- **A statement encloses what it holds.** -/
theorem Written.encloses {st : Statement} (h : Written (.statement st) s u) (hs : Orderly s) :
    st.Encloses := by
  obtain ⟨t, hopens, hspan⟩ := h.exists_opens
  have hwithin {span : Span} (g : Lies span s u) : span.Within st.span := by
    rw [hspan]
    exact hopens.within g.start g.stop
  have hexpressions : ∀ e ∈ st.expressions, ∀ x ∈ e.all, x.span.Within st.span ∧ x.Encloses := by
    intro e he x hx
    obtain ⟨hlies, hencloses⟩ := (h.has.expressions e he).tidy hs x hx
    exact ⟨hwithin hlies, hencloses⟩
  refine ⟨fun inner hinner => ?_, fun a ha => ?_, hexpressions, fun i hi => ?_⟩
  · exact hwithin (h.lies hs inner (List.mem_cons_of_mem _ hinner))
  · cases h with
    | choice _ _ arms =>
      obtain ⟨hlies, hencloses⟩ := (arms a ha).armEncloses hs
      exact ⟨hwithin hlies, hencloses⟩
    | action | decision | counted | loop => exact absurd ha List.not_mem_nil
  · rcases List.mem_append.mp hi with hname | hin
    · exact hwithin ((h.has.names i hname).stands.lies hs)
    · obtain ⟨e, he, hident⟩ := List.mem_flatMap.mp hin
      obtain ⟨x, hx, hname⟩ := Expr.mem_idents_iff.mp hident
      obtain ⟨hspan', hencloses⟩ := hexpressions e he x hx
      exact (hencloses.names i hname).trans hspan'

/-! ## 4. What stands between statements -/

/-- A statement stops before the token that comes next; unless it needs no separator, one separates
    them. -/
def Beyond (tokens : List Token) (st : Statement) (u : State) : Prop :=
  st.span.stop ≤ here u ∧ (st.isSeparatorExempt ∨
    ∃ t ∈ tokens, (t.kind = .newline ∨ t.kind = .semicolon) ∧
      st.span.start < t.span.start ∧ t.span.stop ≤ here u)

namespace Beyond

variable {tokens : List Token} {st : Statement}

/-- What has been passed stays behind. -/
theorem later (h : Beyond tokens st u) {place : Place} (hplace : here u ≤ place) :
    st.span.stop ≤ place ∧ (st.isSeparatorExempt ∨
      ∃ t ∈ tokens, (t.kind = .newline ∨ t.kind = .semicolon) ∧
        st.span.start < t.span.start ∧ t.span.stop ≤ place) := by
  obtain ⟨hstop, hseparated⟩ := h
  refine ⟨Place.le_trans hstop hplace, hseparated.imp_right ?_⟩
  rintro ⟨t, ht, hkind, hstart, hend⟩
  exact ⟨t, ht, hkind, hstart, Place.le_trans hend hplace⟩

end Beyond

theorem Kind.eq_of_isSeparator {kind : Kind} (h : kind.isSeparator) :
    kind = .newline ∨ kind = .semicolon := by
  cases kind <;> first | exact Or.inl rfl | exact Or.inr rfl | cases h

/-- A separator that is read behind a statement separates it from what comes next. -/
theorem Written.beyond {tokens : List Token} {st : Statement} (h : Written (.statement st) s v)
    (hs : Orderly s) (htokens : s.rest.tokens ⊆ tokens)
    (hseparated : st.isSeparatorExempt ∨ ∃ w : Token, w.kind.isSeparator ∧ Opens v w u)
    (hpast : Past v u) : Beyond tokens st u := by
  have hv := hs.past h.past
  -- the statement stops where reading stands behind it, and the separator is the next token there
  have hlies := h.lies hs st List.mem_cons_self
  obtain ⟨last, hlast⟩ := Option.isSome_iff_exists.mp hlies.some
  obtain ⟨-, -, -, hnext⟩ := hv.previous hlast
  have hstop : st.span.stop ≤ here v := Place.le_trans hlies.stop hnext
  refine ⟨Place.le_trans hstop (hpast.here_le hv), hseparated.imp_right ?_⟩
  rintro ⟨w, hw, hopens⟩
  have hword : v.current.kind.IsWord := hopens.next ▸ hopens.word
  have hmem : w ∈ v.rest.tokens := by
    rw [(hv.regular.rest_of_isWord hword).2, hopens.next]
    exact List.mem_cons_self
  refine ⟨w, h.past.subset htokens hmem, Kind.eq_of_isSeparator hw, ?_, ?_⟩
  · -- the statement opens with a token in front of the separator
    obtain ⟨t, hopens', hspan⟩ := h.exists_opens
    have hword' : s.current.kind.IsWord := hopens'.next ▸ hopens'.word
    have htail : w ∈ s.rest.tokens.tail := by
      have hin := hopens'.behind.suffix.subset hmem
      rwa [hs.regular.advance_of_isWord hword'] at hin
    have horder : InOrder (t :: s.rest.tokens.tail) := by
      have hall := (List.pairwise_append.mp hs.order).2.1
      rwa [(hs.regular.rest_of_isWord hword').2, hopens'.next] at hall
    rw [hspan]
    exact Place.lt_of_le_of_lt (Span.start_join_le _ _).1 (List.rel_of_pairwise_cons horder htail).1
  · have hlies' := hopens.lies hv
    obtain ⟨last', hlast'⟩ := Option.isSome_iff_exists.mp hlies'.some
    obtain ⟨-, -, -, hnext'⟩ := (hv.past hpast).previous hlast'
    exact Place.le_trans hlies'.stop hnext'

/-- The statements of a node that do not stand in others of it. -/
def Node.statements : Node → List Statement
  | statement st => [st]
  | front body | block body | nested body | looped body => body
  | arm a => a.body

/-- **The statements of a block stand one behind the other**, and those of its front in front of
    whatever comes next. -/
theorem Written.spaced {tokens : List Token} {n : Node} (h : Written n s u) (hs : Orderly s)
    (htokens : s.rest.tokens ⊆ tokens) : Block.Spaced tokens n.statements ∧
      ∀ ss, n = .front ss → ∀ st ∈ ss, Beyond tokens st u := by
  -- the last statement of a block is told apart: nothing of the block has to stand behind it
  have hlast {front : Block} {last : Statement} {s m v : State} (hm : Orderly m)
      (hfront : Block.Spaced tokens front) (hbeyond : ∀ st ∈ front, Beyond tokens st m)
      (hst : Written (.statement last) m v) : Block.Spaced tokens (front ++ [last]) := by
    refine List.pairwise_append.mpr ⟨hfront, List.pairwise_singleton _ _, fun st hin x hx => ?_⟩
    obtain rfl := List.mem_singleton.mp hx
    exact (hbeyond st hin).later (hst.lies hm x List.mem_cons_self).start
  induction h with
  | action | decision | counted | loop | choice => exact ⟨List.pairwise_singleton _ _, nofun⟩
  | arm before _ _ _ _ ih =>
    exact ⟨(ih (hs.past before.toPast) (before.subset htokens)).1, nofun⟩
  | nested before _ _ ih =>
    exact ⟨(ih (hs.past before.toPast) (before.subset htokens)).1, nofun⟩
  | looped before _ _ ih =>
    exact ⟨(ih (hs.past before.toPast).enter (before.subset htokens)).1, nofun⟩
  | nil => exact ⟨List.Pairwise.nil, fun ss hss => by cases hss; exact nofun⟩
  | snoc front last _ separated gap ih _ =>
    obtain ⟨hspaced, hbeyond⟩ := ih hs htokens
    have hm := hs.past front.past
    refine ⟨hlast (s := s) hm hspaced (hbeyond _ rfl) last, fun ss hss => ?_⟩
    cases hss
    refine List.forall_mem_append.mpr ⟨fun st hst => ?_, List.forall_mem_singleton.mpr ?_⟩
    · exact (hbeyond _ rfl st hst).later ((last.past.trans gap.past).here_le hm)
    · exact last.beyond hm (front.past.subset htokens) separated gap.past
  | closed _ ih => exact ⟨(ih hs htokens).1, nofun⟩
  | ended front last _ _ ih _ =>
    obtain ⟨hspaced, hbeyond⟩ := ih hs htokens
    exact ⟨hlast (s := s) (hs.past front.past) hspaced (hbeyond _ rfl) last, nofun⟩

theorem Written.spacedBlocks {tokens : List Token} {st : Statement}
    (h : Written (.statement st) s u) (hs : Orderly s) (htokens : s.rest.tokens ⊆ tokens) :
    ∀ body ∈ st.blocks, Block.Spaced tokens body := by
  cases h with
  | action => exact nofun
  | decision _ _ _ _ arms => exact fun body hbody => ((arms body hbody).spaced hs htokens).1
  | counted _ _ _ _ inner | loop _ inner =>
    exact List.forall_mem_singleton.mpr (inner.spaced hs htokens).1
  | choice _ _ arms => exact List.forall_mem_map.mpr fun a ha => ((arms a ha).spaced hs htokens).1

/-- **Every statement is the root of a tree of spans**, at every depth. -/
theorem Written.sits {tokens : List Token} {n : Node} (h : Written n s u) (hs : Orderly s)
    (htokens : s.rest.tokens ⊆ tokens) : ∀ x ∈ n.all, x.Sits tokens := by
  have hself {st : Statement} {s u : State} (h : Written (.statement st) s u) (hs : Orderly s)
      (htokens : s.rest.tokens ⊆ tokens) : st.Sits tokens :=
    ⟨h.encloses hs, h.spacedBlocks hs htokens⟩
  -- on the derivation, which has the statement at its root; the tokens ahead are fewer further on
  induction h with
  | action opens told =>
    exact Statement.forall_mem_within.mpr ⟨hself (.action opens told) hs htokens, nofun⟩
  | decision opens judged needed filled arms ih =>
    refine Statement.forall_mem_within.mpr
      ⟨hself (.decision opens judged needed filled arms) hs htokens, fun body hbody => ?_⟩
    exact ih body hbody hs htokens
  | counted opens has named closed inner ih =>
    exact Statement.forall_mem_within.mpr ⟨hself (.counted opens has named closed inner) hs htokens,
      List.forall_mem_singleton.mpr (ih hs htokens)⟩
  | loop opens inner ih =>
    exact Statement.forall_mem_within.mpr
      ⟨hself (.loop opens inner) hs htokens, List.forall_mem_singleton.mpr (ih hs htokens)⟩
  | choice onward opens arms ih =>
    exact Statement.forall_mem_within.mpr ⟨hself (.choice onward opens arms) hs htokens,
      List.forall_mem_map.mpr fun a ha => ih a ha hs htokens⟩
  | arm before _ _ _ _ ih => exact ih (hs.past before.toPast) (before.subset htokens)
  | nested before _ _ ih => exact ih (hs.past before.toPast) (before.subset htokens)
  | looped before _ _ ih => exact ih (hs.past before.toPast).enter (before.subset htokens)
  | nil => exact nofun
  | snoc front last _ _ _ ih ih' | ended front last _ _ ih ih' =>
    have hbehind := ih' (hs.past front.past) (front.past.subset htokens)
    exact Block.forall_mem_all_concat (ih hs htokens) hbehind
  | closed _ ih => exact ih hs htokens

end Grammar

end BasicCheck
