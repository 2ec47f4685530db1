import BasicCheck.Proofs.Recovery.Action
import BasicCheck.Proofs.Recovery.Record

/-!
# Blocks and statements mind the record

What is built over a parser of statements that minds the record of recoveries does so itself: blocks
and arms, loops and choices recover from faults only where one may be found
(`reaches_blockTurn`, `reaches_counter`, `reaches_caseArm`), and what they begin is counted, so that a
fault that was found behind it owes nothing about lines. A statement is built over itself, and minds
the record however deep it is nested (**`minds_statement`**).
-/

namespace BasicCheck.Grammar

open Parse

variable {α β : Type} {o s u v : State} {tokens : List Token} {n : Nat}

/-! ## 1. Steps that record nothing -/

namespace Done

/-- Nothing is recorded by a step that stays on the line. -/
theorem walk {p : Step α} (h : Done tokens n s) (hp : Walks s p) :
    Reaches s p fun _ u => Done tokens n u :=
  h.quiet (hp h.orderly.regular).toQuiet

theorem advance (h : Done tokens n s) : Reaches s Parse.advance fun _ u => Done tokens n u :=
  h.quiet (.advance s)

theorem skip (h : Done tokens n s) : Reaches s (discard Parse.advance) fun _ u => Done tokens n u :=
  h.quiet (.advance s)

theorem skipWhile {skipped : Kind → Bool} (h : Done tokens n s)
    (hend : skipped .endOfFile = false) :
    Reaches s (Parse.skipWhile skipped) fun _ u => Done tokens n u :=
  h.quiet (quiet_skipWhile skipped hend h.orderly.regular)

theorem begin (h : Done tokens n s) : Reaches s Parse.begin fun _ u => Done tokens (n + 1) u :=
  ⟨⟨⟨⟨h.orderly.regular.ended, h.orderly.regular.half⟩, h.orderly.order, h.orderly.measured⟩,
    h.closed, h.suffix, Nat.succ_le_succ h.begun, h.apart, h.lawful, h.reported⟩, h.settled⟩

theorem recordRegion (h : Done tokens n s) (kind : RegionKind) (span : Span) :
    Reaches s (Parse.recordRegion kind span) fun _ u => Done tokens n u :=
  ⟨⟨⟨⟨h.orderly.regular.ended, h.orderly.regular.half⟩, h.orderly.order, h.orderly.measured⟩,
    h.closed, h.suffix, h.begun, h.apart, h.lawful, h.reported⟩, h.settled⟩

/-- What can be recorded of a construct that is closed. -/
theorem record (h : Done tokens n s) (kind : RegionKind) (start : Span) (a : α) : Reaches s (do
    Parse.recordRegion kind (← spanFrom start)
    return a) fun _ u => Done tokens n u :=
  Reaches.look (spanFrom_eq s start) ((h.recordRegion _ _).bind fun _ _ hu => hu)

/-- A separator is needed, or nothing if the file ends. -/
theorem separated {P : α → Prop} {f : Unit → Parser α} (h : Done tokens s.begun u)
    (hline : u.begun = s.begun → SameLine s u)
    (hf : ∀ v, Done tokens s.begun v → Reaches v (f ()).run (Minded tokens P s)) :
    Reaches u (expectSeparator >>= f).run (Minded tokens P s) := by
  have hread : Reaches u expectSeparator.run (Lands (fun _ v => Done tokens s.begun v)
      fun fault v => Failed tokens s.begun fault v ∧ (v.begun = s.begun → Stuck s fault v)) := by
    refine reaches_look (currentKind_eq u) ?_
    split
    · exact h.quiet (.advance u)
    · exact h.quiet (.advance u)
    · exact h
    · rename_i hne
      have hready := h.ready hne
      refine ⟨hready.failed (.here (.refl u) (.refl u) rfl), fun hsame => ?_⟩
      exact .here (hline hsame) (.refl u) rfl
  exact reaches_bind hread (fun _ v hv => hf v hv) fun _ _ hfail => hfail

end Done

section Statements

variable {statement : Parser Statement} (hst : Writes statement)
  (hm : ∀ s, Minds tokens (fun st => st.isSeparatorExempt) s statement)

include hst hm

/-! ## 2. Blocks -/

omit hst in
theorem reaches_blockTurn (stop : BlockEnd) (found : Array Statement) (h : Done tokens n s) :
    Reaches s (blockTurn statement stop found)
      (Carries (fun _ => Done tokens n) fun _ => Done tokens n) := by
  refine (h.skipWhile rfl).bind fun _ u hu => ?_
  refine Reaches.look (sees_eq u .endOfFile) (Reaches.look (looks_atBlockEnd stop u) ?_)
  split
  · exact hu
  · rename_i hgo
    have hne : u.current.kind ≠ .endOfFile := fun hend => hgo (by simp [hend])
    have hone : Minds tokens (fun _ => True) u (do
        let st ← statement
        unless st.isSeparatorExempt do expectSeparator
        return some st) := by
      refine (hm u).bind fun st v hv hline => ?_
      dsimp only
      split
      · exact ⟨hv, fun _ => Or.inl trivial⟩
      · rename_i hneeds
        refine hv.separated (fun hsame => (hline hsame).resolve_left hneeds) fun w hw => ?_
        exact ⟨hw, fun _ => Or.inl trivial⟩
    exact (reaches_recover none (hu.ready hne) hone).bind fun _ _ hv => hv

theorem reaches_block (stop : BlockEnd) (h : Done tokens n s) :
    Reaches s (block statement stop) fun _ u => Done tokens n u := by
  have hruns : Runs (blockTurn statement stop) #[] s (block statement stop s).1
      (block statement stop s).2 :=
    runs_loop Array.toList h.orderly.regular (J := fun found u => Laid found.toList s u)
      (Or.inl (.nil (.refl s))) fun found _ _ hlaid => (goes_blockTurn hst stop found hlaid).proceeds
  exact hruns.carries (I := fun _ => Done tokens n) h fun found _ hu =>
    reaches_blockTurn hm stop found hu

/-! ## 3. Arms -/

/-- How the reading of a line of statements ends: what is begun by then has been counted. -/
def Lined (tokens : List Token) (n : Nat) : Except Fault α → State → Prop :=
  Lands (fun _ => Done tokens n) (Failed tokens n)

omit hst in
theorem reaches_lineTurn (stopsAtElse : Bool) (found : Array Statement) (h : Done tokens n s) :
    Reaches s (tryTurn (lineTurn statement stopsAtElse) found)
      (Carries (fun _ => Done tokens n) (Lined tokens n)) := by
  have hturn : Reaches s (lineTurn statement stopsAtElse found).run
      (Lands (Carries (fun _ => Done tokens n) fun _ => Done tokens n) (Failed tokens n)) := by
    refine reaches_look (currentKind_eq s) ?_
    dsimp only
    split
    · exact h
    · rename_i hgoes
      have hne : s.current.kind ≠ .endOfFile := fun hend => hgoes (by simp [hend])
      refine reaches_bind (hm s (h.ready hne).own) (fun st u hu => ?_) fun _ _ hfail =>
        hfail.1.lower h.begun
      have hdone := hu.1.lower h.begun
      have hconsume : Reaches u (consume .semicolon) fun _ v => Done tokens n v :=
        hdone.quiet (quiet_consume .semicolon hdone.orderly.regular)
      refine reaches_after hconsume fun found v hv => ?_
      split
      · exact hv
      · refine reaches_look (currentKind_eq v) ?_
        split
        · exact hv
        · rename_i hgoes'
          have hne' : v.current.kind ≠ .endOfFile := fun hend => hgoes' (by simp [hend])
          split
          · exact hv
          · exact (hv.ready hne').failed (.here (.refl v) (.refl v) rfl)
  refine Reaches.bind hturn fun r u hr => ?_
  cases r with
  | ok turn => cases turn <;> exact hr
  | error fault => exact hr

theorem reaches_lineBlock (stopsAtElse : Bool) (h : Done tokens n s) :
    Reaches s (lineBlock statement stopsAtElse).run (Lined tokens n) := by
  have hruns : Runs (tryTurn (lineTurn statement stopsAtElse)) #[] s
      ((lineBlock statement stopsAtElse).run s).1 ((lineBlock statement stopsAtElse).run s).2 :=
    runs_loop (fun _ => Except.error standstill) h.orderly.regular
      (J := fun found u => Written (.front found.toList) s u) (.nil (.refl s))
      fun found _ _ hfront => (goes_tryTurn (tries_lineTurn hst stopsAtElse found hfront)).proceeds
  exact hruns.carries (I := fun _ => Done tokens n) h fun found _ hu =>
    reaches_lineTurn hm stopsAtElse found hu

theorem reaches_arm (kind : RegionKind) (start : Span) (h : Done tokens n s) :
    Reaches s (arm statement kind start).run (Lined tokens (n + 1)) := by
  refine reaches_after h.begin fun _ u hu => reaches_look (looks_atLineEnd u) ?_
  split
  · refine reaches_discard (hu.quiet (.advance u)) fun v hv => ?_
    refine reaches_after (reaches_block hst hm .arm hv) fun body w hw => ?_
    refine reaches_after (hw.walk (walks_closeBlock _ _ _)) fun stop x hx => ?_
    exact reaches_after (hx.recordRegion _ _) fun _ _ hy => hy
  · exact reaches_lineBlock hst hm _ hu

/-- Where there is no arm nothing is read, else something was begun. -/
theorem reaches_armAfter? (word : Keyword) (kind : RegionKind) (h : Done tokens n s) :
    Reaches s (armAfter? statement word kind).run
      (Lands (fun found u => found = none ∧ u = s ∨ found.isSome ∧ Done tokens (n + 1) u)
        (Failed tokens (n + 1))) := by
  refine reaches_look (sees_eq s _) ?_
  split
  · refine reaches_after h.advance fun start u hu => ?_
    refine reaches_bind (reaches_arm hst hm kind start.span hu) (fun body v hv => ?_)
      fun _ _ hfail => hfail
    exact Or.inr ⟨rfl, hv⟩
  · exact Or.inl ⟨rfl, rfl⟩

/-- A decision without arms fails where it stands, or need not have any. -/
theorem minds_arms (optional : Bool) :
    Minds tokens (fun _ => False) s (arms statement optional) := by
  intro hs
  -- what is done behind both arms depends on nothing but which of them are there
  have hend (thenArm elseArm : Option Block) {u : State}
      (h : thenArm.isNone ∧ elseArm.isNone ∧ u = s ∨
        (thenArm.isSome ∨ elseArm.isSome) ∧ Done tokens (s.begun + 1) u) : Reaches u (do
        if thenArm.isNone && elseArm.isNone then
          if optional then return (none, none) else throw ⟨.expected "THEN or ELSE", s.current.span⟩
        else
          unless holdsStatement thenArm || holdsStatement elseArm do
            report .emptyThenElse (← spanFrom s.current.span)
          return (thenArm, elseArm) : Parser (Option Block × Option Block)).run
        (Minded tokens (fun _ => False) s) := by
    rcases h with ⟨hthen, helse, rfl⟩ | ⟨hsome, hu⟩
    · rw [hthen, helse, Bool.and_self, if_pos rfl]
      cases optional with
      | true => exact ⟨hs.done, fun _ => Or.inr (.refl u)⟩
      | false =>
        have hthrow : Heeds u (throw ⟨.expected "THEN or ELSE", u.current.span⟩ :
            Parser (Option Block × Option Block)) := .throw rfl
        exact hthrow.minds hs
    · have hno : (thenArm.isNone && elseArm.isNone) = false := by
        cases thenArm <;> cases elseArm <;> simp at hsome ⊢
      rw [hno, if_neg Bool.false_ne_true]
      split
      · exact hu.minded
      · refine reaches_look (spanFrom_eq u _) ?_
        exact reaches_after (hu.walk (walks_report _ _)) fun _ v hv => hv.minded
  refine reaches_look (current_eq s) ?_
  refine reaches_bind (reaches_armAfter? hst hm .THEN .thenArm hs.done) (fun thenArm u hthen => ?_)
    fun _ _ hfail => hfail.minded
  rcases hthen with ⟨rfl, rfl⟩ | ⟨hthen, hu⟩
  · refine reaches_bind (reaches_armAfter? hst hm .ELSE .elseArm hs.done) (fun elseArm v helse => ?_)
      fun _ _ hfail => hfail.minded
    refine hend none elseArm ?_
    rcases helse with ⟨rfl, rfl⟩ | ⟨helse, hv⟩
    · exact Or.inl ⟨rfl, rfl, rfl⟩
    · exact Or.inr ⟨Or.inr helse, hv⟩
  · refine reaches_bind (reaches_armAfter? hst hm .ELSE .elseArm hu) (fun elseArm v helse => ?_)
      fun _ _ hfail => (hfail.lower (Nat.le_succ _)).minded
    refine hend thenArm elseArm (Or.inr ⟨Or.inl hthen, ?_⟩)
    rcases helse with ⟨-, rfl⟩ | ⟨-, hv⟩
    · exact hu
    · exact hv.lower (Nat.le_succ _)

theorem minds_decision {P : (Span → Statement) → Prop} {test : Parser Decision}
    (htest : Careful test) : Minds tokens P s (decision statement test) := by
  refine Minds.after (htest s) fun d u _ => (minds_arms hst hm _).bind fun found v hv hline => ?_
  exact ⟨hv, fun hsame => (hline hsame).imp_left False.elim⟩

/-! ## 4. Loops -/

omit hst hm in
/-- A name that is missing is missed here. -/
theorem reaches_expectIdent : Reaches s expectIdent.run
    (Lands (fun _ => SameLine s) fun f u => u = s ∧ f.span = s.current.span) := by
  refine reaches_look (sees_eq s .ident) ?_
  split
  · rename_i hk
    exact SameLine.advance (by rw [eq_of_beq hk]; rfl)
  · exact ⟨rfl, rfl⟩

omit hst hm in
theorem reaches_counter (start : Span) (hs : Ready tokens n s) :
    Reaches s (counter start) fun _ u => Done tokens n u := by
  refine Reaches.bind reaches_expectIdent fun r u hr => ?_
  cases r with
  | error f =>
    obtain ⟨rfl, hspan⟩ := hr
    exact reaches_recover _ hs (P := fun _ => True) (Heeds.throw hspan).minds
  | ok token =>
    have hu : Ready tokens n u := hs.quiet (SameLine.toQuiet hr)
    refine Reaches.bind (Q := fun _ v => Ready tokens n v) ?_ fun _ v hv => ?_
    · exact hu.quiet (walks_noteVariable token hu.orderly.regular).toQuiet
    · refine reaches_recover _ hv (P := fun _ => True) (Heeds.minds ?_)
      exact (careful_bounds v).bind fun _ _ _ => .pure _

theorem reaches_loopBody (stop : BlockEnd) (h : Done tokens n s) :
    Reaches s (loopBody statement stop) fun _ u => Done tokens (n + 1) u := by
  refine h.begin.bind fun _ u hu => ?_
  exact (reaches_block hst hm stop hu.enter : Done tokens (n + 1) _).leave

theorem reaches_countedLoop (start : Span) (hs : Ready tokens n s) :
    Reaches s (countedLoop statement start) fun _ u => Done tokens (n + 1) u := by
  refine (reaches_counter start hs).bind fun header u hu => ?_
  refine (reaches_loopBody hst hm .counted hu).bind fun body v hv => Reaches.look (sees_eq v _) ?_
  refine (hv.walk (walks_closeBlock _ _ _)).dropped.bind fun _ w hw => ?_
  dsimp only
  split
  · exact (hw.walk (walks_closingName? header.name)).bind fun closing x hx => hx.record _ _ _
  · exact hw.record _ _ _

theorem reaches_plainLoop (start : Span) (hs : Ready tokens n s) :
    Reaches s (plainLoop statement start) fun _ u => Done tokens (n + 1) u := by
  refine (reaches_loopBody hst hm .loop hs.done).bind fun body u hu => ?_
  exact (hu.walk (walks_closeBlock _ _ _)).dropped.bind fun _ v hv => hv.record _ _ _

/-! ## 5. Choices -/

theorem reaches_caseArm (hs : Ready tokens n s) :
    Reaches s (caseArm statement) fun _ u => Done tokens n u := by
  refine Reaches.bind (Q := fun _ u => Ready tokens n u) (hs.quiet (.advance s)) fun token u hu => ?_
  have hcond : Minds tokens (fun _ => True) u (do
      let cond ← expression
      expectSeparator
      return cond) :=
    (careful_expression u).minds (P := fun _ => False).bind fun cond v hv hline =>
      hv.separated (fun hsame => (hline hsame).resolve_left id) fun _ hw =>
        ⟨hw, fun _ => Or.inl trivial⟩
  refine (reaches_recover _ hu hcond).bind fun cond v hv => ?_
  refine (reaches_block hst hm .caseArm hv).bind fun body w hw => Reaches.look (spanFrom_eq w _) ?_
  exact (hw.recordRegion _ _).bind fun _ _ hx => hx

theorem reaches_choiceTurn (start : Span) (found : Array CaseArm) (h : Done tokens n s) :
    Reaches s (choiceTurn statement start found)
      (Carries (fun _ => Done tokens n) fun _ => Done tokens n) := by
  refine (h.skipWhile rfl).bind fun _ u hu => Reaches.look (sees_eq u _) ?_
  split
  · rename_i hk
    have hne : u.current.kind ≠ .endOfFile := by
      rw [eq_of_beq hk]
      decide
    exact (reaches_caseArm hst hm (hu.ready hne)).bind fun _ _ hv => hv
  · refine Reaches.look (sees_eq u _) (Reaches.look (nextKind_eq u) ?_)
    split
    · exact hu.skip.bind fun _ _ hv => hv.skip.bind fun _ _ hw => hw
    · refine Reaches.look (sees_eq u _) ?_
      split
      · exact (hu.walk (walks_report _ _)).bind fun _ _ hv => hv
      · refine Reaches.look (current_eq u) ?_
        exact (hu.walk (walks_report _ _)).bind fun _ _ hv => (hv.skipWhile rfl).bind fun _ _ hw => hw

theorem reaches_choiceArms (start : Span) (h : Done tokens n s) :
    Reaches s (choiceArms statement start) fun _ u => Done tokens n u := by
  have hruns : Runs (choiceTurn statement start) #[] s (choiceArms statement start s).1
      (choiceArms statement start s).2 :=
    runs_loop Array.toList h.orderly.regular (J := fun found u => Onward s u ∧ Armed s found.toList u)
      ⟨.refl s, fun _ ha => absurd ha List.not_mem_nil⟩
      fun found _ _ harmed => (goes_choiceTurn hst start found harmed.2 harmed.1).proceeds
  exact hruns.carries (I := fun _ => Done tokens n) h fun found _ hu =>
    reaches_choiceTurn hst hm start found hu

theorem minds_choice {P : (Span → Statement) → Prop} (start : Span) :
    Minds tokens P s (choice statement start) := by
  refine Minds.after (heeds_expected rfl) fun _ u _ hu => ?_
  refine hu.done.separated (fun _ => .refl u) fun v hv => reaches_after hv.begin fun _ w hw => ?_
  refine reaches_after (reaches_choiceArms hst hm start hw) fun found x hx => ?_
  refine reaches_look (spanFrom_eq x start) ?_
  exact reaches_after (hx.recordRegion _ _) fun _ _ hy => hy.minded

/-! ## 6. Statements -/

/-- A statement that needs no separator behind it, whatever its span is. -/
def NeedsNone (build : Span → Statement) : Prop := ∀ span, (build span).isSeparatorExempt

theorem minds_statementAfter? {keyword : Token} {word : Keyword} {p : Parser (Span → Statement)}
    (hp : statementAfter? statement keyword word = some p) : Minds tokens NeedsNone s p := by
  unfold statementAfter? at hp
  split at hp
  · cases hp
    exact Minds.step (reaches_countedLoop hst hm _)
  · cases hp
    exact Minds.step (reaches_plainLoop hst hm _)
  · cases hp
    exact minds_choice hst hm _
  · split at hp
    · rename_i test htest
      cases hp
      exact minds_decision hst hm (careful_decisionAfter? htest)
    · obtain ⟨action, haction, rfl⟩ := Option.map_eq_some_iff.mp hp
      exact ((careful_actionAfter? haction s).map _).minds

theorem minds_keywordStatement {word : Keyword} (hk : s.current.kind = .keyword word) :
    Minds tokens NeedsNone s (keywordStatement statement s.current word) := by
  refine Minds.look (nextKind_eq s) ?_
  split
  · exact ((careful_assignmentOrCall s).map _).minds
  · split
    · rename_i p hp
      refine Minds.after (heeds_skip (by rw [hk]; rfl)) fun _ u _ => ?_
      exact minds_statementAfter? hst hm hp
    · exact (careful_failHere _ s).minds

/-- **One layer of statements** minds the record if the statements within it do. -/
theorem minds_statementLayer :
    Minds tokens (fun st => st.isSeparatorExempt) s (statementLayer statement) := by
  have hend {p : Parser (Span → Statement)} (hp : Minds tokens NeedsNone s p) :
      Minds tokens (fun st : Statement => st.isSeparatorExempt) s (do
        let build ← p
        return build (← spanFrom s.current.span)) :=
    hp.bind fun build u hu hline => reaches_look (spanFrom_eq u _)
      ⟨hu, fun hsame => (hline hsame).imp_left fun hfree => hfree _⟩
  refine Minds.look (current_eq s) ?_
  dsimp only
  split
  · intro hs
    have hlone : Reaches s (discard (liftM advance) : Parser Unit).run
        (Lands (fun _ u => Done tokens s.begun u) fun _ _ => False) :=
      hs.done.quiet (.advance s)
    refine reaches_bind hlone (fun _ u hu => ?_) fun _ _ hno => hno.elim
    rw [pure_bind]
    exact reaches_look (spanFrom_eq u _) ⟨hu, fun _ => Or.inl rfl⟩
  · rename_i hk
    refine Minds.look (nextKind_eq s) ?_
    split
    · rename_i hcolon
      exact hend ((heeds_labelAction hk (eq_of_beq hcolon)).map _).minds
    · exact hend ((careful_assignmentOrCall s).map _).minds
  · exact hend ((careful_assignmentOrCall s).map _).minds
  · rename_i hk
    exact hend ((heeds_insertAction hk).map _).minds
  · rename_i hk
    exact hend (minds_keywordStatement hst hm hk)
  · exact hend (careful_failHere _ s).minds

end Statements

/-- **A statement** minds the record, however deep it is nested. -/
theorem minds_statement : Minds tokens (fun st => st.isSeparatorExempt) s statement := by
  intro hready
  have hgoes (u : State) : Goes u statement.run fun _ _ => True := fun hu =>
    ⟨(writes_statement u hu).1, trivial⟩
  refine (nested statementLayer (P := fun s r =>
    (Ready tokens s.begun s → Minded tokens (fun st : Statement => st.isSeparatorExempt) s r.1 r.2) ∧
      Onward s r.2 ∧ Owes (fun st u => Written (.statement st) s u) r.1 r.2)
    hgoes run_statement ?_ ?_ hready.orderly.regular).1 hready
  · exact fun u hu => ⟨(careful_failHere _ u).minds, tries_failHere rfl hu⟩
  · intro n q hq hends u hu hcount
    have hwrites : Writes q := fun v hv => (hends v hv).2
    have hminds (v : State) : Minds tokens (fun st => st.isSeparatorExempt) v q := fun hv =>
      (hends v hv.orderly.regular).1 hv
    exact ⟨run_statementLayer hq hu hcount, minds_statementLayer hwrites hminds,
      writes_statementLayer hwrites u hu⟩

end BasicCheck.Grammar
