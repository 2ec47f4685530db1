import BasicCheck.Proofs.Recovery.Action
import BasicCheck.Proofs.Region.Record

/-!
# Blocks and statements fold

Whatever a block or a statement is, the regions recorded while it is read lie where it was read and
are laminar, also if it is given up; and as long as there is no error they are those of what was read
(`Folds`). A construct behind its keyword is judged from the state in front of the keyword on, where
its region starts (`Built`). This holds of one layer of statements if it does of the statements within
it (`folds_statementLayer`), and so of all (**`folds_statement`**).
-/

namespace BasicCheck.Grammar

open Parse

variable {α β : Type} {o s u v : State} {own : List Region}

/-! ## 1. Parsers that record nothing -/

namespace Folds

theorem refl (hs : Orderly s) : Folds s [] s := .still hs (.refl s)

theorem walk {p : Step α} (h : Folds o own s) (hp : Walks s p) :
    Reaches s p fun _ u => Folds o own u :=
  h.before (hp h.orderly_end.regular).toQuiet.still

theorem advance (h : Folds o own s) : Reaches s Parse.advance fun _ u => Folds o own u :=
  h.before (Quiet.advance s).still

theorem skip (h : Folds o own s) : Reaches s (discard Parse.advance) fun _ u => Folds o own u :=
  h.before (Quiet.advance s).still

theorem skipWhile {skipped : Kind → Bool} (h : Folds o own s) (hend : skipped .endOfFile = false) :
    Reaches s (Parse.skipWhile skipped) fun _ u => Folds o own u :=
  h.before (quiet_skipWhile skipped hend h.orderly_end.regular).still

theorem consume (h : Folds o own s) (kind : Kind) :
    Reaches s (Parse.consume kind) fun _ u => Folds o own u :=
  h.before (quiet_consume kind h.orderly_end.regular).still

theorem begin (h : Folds o own s) : Reaches s Parse.begin fun _ u => Folds o own u :=
  h.before ⟨.kept (Nat.le_succ _), rfl⟩

/-- A parser behind what has been read already. -/
theorem bind {p : Parser α} {f : α → Parser β} {more : α → List Region} {Q : β → State → Prop}
    (h : Folds o own s) (hp : Reaches s p.run (Lands (fun a u => Folds s (more a) u) (Broken s)))
    (hf : ∀ a u, Folds o (own ++ more a) u → Reaches u (f a).run (Lands Q (Broken o))) :
    Reaches s (p >>= f).run (Lands Q (Broken o)) :=
  reaches_bind hp (fun a u hu => hf a u (h.trans hu)) fun _ _ hfail => hfail.after h

/-- How a parser ends behind what has been read already. -/
theorem lands {more : α → List Region} {r : Except Fault α} (h : Folds o own s)
    (hr : Lands (fun a u => Folds s (more a) u) (Broken s) r u) :
    Lands (fun a u => Folds o (own ++ more a) u) (Broken o) r u := by
  cases r with
  | ok a => exact h.trans hr
  | error f => exact .after h hr

/-- What fails behind what has been read already fails as a whole. -/
theorem fails {Q : α → State → Prop} {r : Except Fault α} (h : Folds o own s)
    (hr : Lands Q (Broken s) r u) : Lands Q (Broken o) r u := by
  cases r with
  | ok a => exact hr
  | error f => exact .after h hr

/-- A parser that records nothing behind what has been read already. -/
theorem bindStill {p : Parser α} {f : α → Parser β} {Q : β → State → Prop}
    (h : Folds o own s) (hp : Reaches s p.run (Lands (fun _ u => Folds s [] u) (Broken s)))
    (hf : ∀ a u, Folds o own u → Reaches u (f a).run (Lands Q (Broken o))) :
    Reaches s (p >>= f).run (Lands Q (Broken o)) :=
  h.bind hp fun a u hu => hf a u (by rwa [List.append_nil] at hu)

end Folds

/-- A parser that records nothing and fails only with an error. -/
theorem folds_of_still {p : Parser α} {Q : α → State → Prop}
    (hp : Reaches s p.run fun _ u => Still s u) (ht : Tries s p Q) (hs : Orderly s) :
    Reaches s p.run (Lands (fun _ u => Folds s [] u) (Broken s)) := by
  obtain ⟨-, howes⟩ := ht hs.regular
  unfold Reaches at hp ⊢
  rcases hr : p.run s with ⟨r, u⟩
  rw [hr] at hp howes
  cases r with
  | ok a => exact .still hs hp
  | error f => exact .still hs hp howes

/-- A parser that heeds lines records nothing. -/
theorem Heeds.still {p : Parser α} (hp : Heeds s p) (hs : s.Regular) :
    Reaches s p.run fun _ u => Still s u :=
  (hp hs).quiet.still

theorem Heeds.folds {p : Parser α} {Q : α → State → Prop} (hp : Heeds s p) (ht : Tries s p Q)
    (hs : Orderly s) : Reaches s p.run (Lands (fun _ u => Folds s [] u) (Broken s)) :=
  folds_of_still (hp.still hs.regular) ht hs

theorem still_expectSeparator : Reaches s expectSeparator.run fun _ u => Still s u := by
  refine reaches_look (currentKind_eq s) ?_
  split
  · exact (Quiet.advance s).still
  · exact (Quiet.advance s).still
  · exact .refl s
  · exact .refl s

theorem folds_expectSeparator (hs : Orderly s) :
    Reaches s expectSeparator.run (Lands (fun _ u => Folds s [] u) (Broken s)) :=
  folds_of_still still_expectSeparator tries_expectSeparator hs

/-- The terminator of a construct is what is read last, or what was read last stands for it. -/
theorem span_closeBlock (terminator : Keyword) (construct : String) (start : Span)
    (hs : s.Regular) : Reaches s (closeBlock terminator construct start) fun stop u =>
      stop = u.previous.span := by
  refine Reaches.look (sees_eq s _) ?_
  split
  · rename_i hk
    have hword : s.current.kind.IsWord := eq_of_beq hk ▸ Kind.isWord_keyword terminator
    show s.advance.1.span = s.advance.2.previous.span
    rw [State.advance_fst, hs.previous_advance hword]
  · exact Reaches.bind (Q := fun _ _ => True) trivial fun _ _ _ => rfl

theorem folds_failHere {cause : Cause} {Q : α → State → Prop} (h : Folds o own s)
    (hcause : cause.severity = .error) :
    Reaches s (failHere cause : Parser α).run (Lands Q (Broken o)) :=
  .after h (.still h.orderly_end (.refl s) hcause)

/-! ## 2. Recovery -/

/-- Nothing is recorded while a fault is recovered from. -/
theorem still_resume (hs : s.Regular) (start : Outset) (f : Fault) (standIn : α) : Reaches s (do
    reportFault f
    synchronize
    noteRecovery start f
    return standIn) fun _ u => Still s u ∧ (f.cause.severity = .error → ¬ u.Clean) := by
  obtain ⟨honward, -, hclean⟩ := goes_reportFault f hs
  refine Reaches.bind (Q := fun _ u => Still s u ∧ (f.cause.severity = .error → ¬ u.Clean))
    ⟨⟨honward, rfl⟩, hclean⟩ fun _ u hu => ?_
  refine (syncs_synchronize (hu.1.past.regular hs)).bind fun _ v hv => ?_
  refine ⟨(hu.1.trans hv.quiet.still).trans ⟨.kept (Nat.le_refl _), rfl⟩, fun hf hno => ?_⟩
  exact hu.2 hf (hv.quiet.past.clean hno)

/-- **Recovery** from a parser keeps what was recorded; as there is an error then, nothing is asked of
    its stand-in. -/
theorem folds_recover {p : Parser α} {R : α → List Region} (standIn : α)
    (hp : Reaches s p.run (Lands (fun a u => Folds o (R a) u) (Broken o))) :
    Reaches s (recover standIn p) fun a u => Folds o (R a) u := by
  refine Reaches.look (outset_eq s) (Reaches.bind hp fun r u hr => ?_)
  cases r with
  | ok a => exact hr
  | error f =>
    obtain ⟨⟨found, hfound⟩, hf⟩ := hr
    refine Reaches.mono (still_resume hfound.orderly_end.regular _ f standIn) fun a w hw => ?_
    exact .of_not_clean (hfound.trans (.still hfound.orderly_end hw.1)) (hw.2 hf)

/-! ## 3. Statements over others -/

/-- A parser gives statements whose regions it records. -/
def Folding (statement : Parser Statement) : Prop := ∀ s, Orderly s → Reaches s statement.run
  (Lands (fun st u => Folds s (Block.regions (st :: st.within)) u) (Broken s))

/-- A statement once its span is known, which reaches from its keyword to what was read last. -/
def Built (o : State) (build : Span → Statement) (u : State) : Prop :=
  Folds o (Block.regions (build (o.current.span.join u.previous.span) ::
    (build (o.current.span.join u.previous.span)).within)) u

/-- A statement that is folded as a whole has the regions of what is within it and one of its own. -/
theorem Folds.built (hs : Orderly o) (hword : o.current.kind.IsWord)
    (h : Folds o.advance.2 own s) {kind : RegionKind} {build : Span → Statement}
    (hown : ∀ span, (own ++ [Region.mk kind span].filter Region.isKept).Perm
      (Block.regions (build span :: (build span).within))) : Reaches s (do
        recordRegion kind (← spanFrom o.current.span)
        return build) (Built o) := by
  refine Reaches.look (spanFrom_eq s _) ((h.close hs hword kind).bind fun _ u hu => ?_)
  obtain ⟨hprevious, hfolds⟩ := hu
  -- nothing is read when the region is recorded, so that its span is that of the statement
  show Built o build u
  unfold Built
  rw [hprevious]
  exact hfolds.perm (hown _)

section Statements

variable {statement : Parser Statement} (hst : Folding statement)

include hst

/-! ## 4. Blocks -/

theorem folds_blockTurn (stop : BlockEnd) (found : Array Statement)
    (h : Folds o (Block.regions (Block.all found.toList)) s) :
    Reaches s (blockTurn statement stop found)
      (Carries (fun found u => Folds o (Block.regions (Block.all found.toList)) u)
        fun body u => Folds o (Block.regions (Block.all body)) u) := by
  refine (h.skipWhile rfl).bind fun _ u hu => ?_
  refine Reaches.look (sees_eq u .endOfFile) (Reaches.look (looks_atBlockEnd stop u) ?_)
  split
  · exact hu
  · have hone : Reaches u (do
        let st ← statement
        unless st.isSeparatorExempt do expectSeparator
        return some st : Parser (Option Statement)).run
          (Lands (fun more v => Folds u (Block.regions (Block.all more.toList)) v) (Broken u)) := by
      refine (Folds.refl hu.orderly_end).bind (hst u hu.orderly_end) fun st v hv => ?_
      have hall : Folds u (Block.regions (Block.all [st])) v := by simpa [Block.all] using hv
      dsimp only
      split
      · exact hall
      · exact hall.bindStill (folds_expectSeparator hv.orderly_end) fun _ w hw => hw
    refine (folds_recover none hone).bind fun more v hv => ?_
    show Folds o _ v
    simpa [Block.all_append, Block.regions_append] using hu.trans hv

theorem folds_block (stop : BlockEnd) (hs : Orderly s) : Reaches s (block statement stop)
    fun body u => Folds s (Block.regions (Block.all body)) u :=
  reaches_loop (Folds.refl hs) (fun found _ h => folds_blockTurn hst stop found h) fun _ _ h => h

theorem folds_lineTurn (stopsAtElse : Bool) (found : Array Statement)
    (h : Folds o (Block.regions (Block.all found.toList)) s) :
    Reaches s (lineTurn statement stopsAtElse found).run
      (Lands (Carries (fun found u => Folds o (Block.regions (Block.all found.toList)) u)
        fun body u => Folds o (Block.regions (Block.all body)) u) (Broken o)) := by
  refine reaches_look (currentKind_eq s) ?_
  dsimp only
  split
  · exact h
  · refine h.bind (hst s h.orderly_end) fun st u hu => ?_
    have hall : Folds o (Block.regions (Block.all (found.push st).toList)) u := by
      simpa [Block.all_append, Block.all, Block.regions_append] using hu
    refine reaches_after (hall.consume _) fun consumed v hv => ?_
    split
    · exact hv
    · refine reaches_look (currentKind_eq v) ?_
      split
      · exact hv
      · split
        · exact hv
        · exact reaches_look (current_eq v) (folds_failHere hv rfl)

theorem folds_lineBlock (stopsAtElse : Bool) (hs : Orderly s) :
    Reaches s (lineBlock statement stopsAtElse).run
      (Lands (fun body u => Folds s (Block.regions (Block.all body)) u) (Broken s)) :=
  reaches_tryLoop (Folds.refl hs) (fun found _ h => folds_lineTurn hst stopsAtElse found h)
    fun _ _ h => .after h (.still h.orderly_end (.refl _) rfl)

/-! ## 5. Arms -/

/-- An arm of a decision behind its keyword: the tree does not keep its span. -/
theorem folds_arm (hs : Orderly o) (hword : o.current.kind.IsWord) (kind : RegionKind)
    (hkind : ∀ span, Region.isKept ⟨kind, span⟩ = false) :
    Reaches o.advance.2 (arm statement kind o.current.span).run
      (Lands (fun body u => Folds o (Block.regions (Block.all body)) u) (Broken o)) := by
  have hfront : Still o o.advance.2 := (Quiet.advance o).still
  have hstart := Folds.refl (hs.past hfront.past)
  refine reaches_after hstart.begin fun _ u hu => reaches_look (looks_atLineEnd u) ?_
  split
  · refine reaches_discard hu.advance fun v hv => ?_
    refine reaches_after (folds_block hst .arm hv.orderly_end) fun body w hw => ?_
    have hbody := hv.trans hw
    refine reaches_after (Q := fun stop x => stop = x.previous.span ∧ Folds o.advance.2 _ x)
      ⟨span_closeBlock _ _ _ hbody.orderly_end.regular, hbody.walk (walks_closeBlock _ _ _)⟩
      fun stop x hx => ?_
    obtain ⟨rfl, hclosed⟩ := hx
    refine reaches_after (hclosed.close hs hword kind) fun _ y hy => ?_
    show Folds o _ y
    simpa [hkind] using hy.2
  · exact (folds_lineBlock hst _ hu.orderly_end).mono fun _ _ hr => (hu.behind hs hfront).lands hr

theorem folds_armAfter? (word : Keyword) (kind : RegionKind)
    (hkind : ∀ span, Region.isKept ⟨kind, span⟩ = false) (hs : Orderly s) :
    Reaches s (armAfter? statement word kind).run
      (Lands (fun arm u => Folds s (Block.regions (allInArm arm)) u) (Broken s)) := by
  refine reaches_look (sees_eq s _) ?_
  split
  · rename_i hk
    have hword : s.current.kind.IsWord := eq_of_beq hk ▸ Kind.isWord_keyword word
    refine reaches_after (Q := fun t u => t = s.current ∧ u = s.advance.2) ⟨s.advance_fst, rfl⟩
      fun t u h => ?_
    obtain ⟨rfl, rfl⟩ := h
    exact reaches_bind (folds_arm hst hs hword kind hkind) (fun _ _ hu => hu) fun _ _ hfail => hfail
  · exact .refl hs

theorem folds_arms (optional : Bool) (hs : Orderly s) : Reaches s (arms statement optional).run
    (Lands (fun found u => Folds s (Block.regions (allInArm found.1 ++ allInArm found.2)) u)
      (Broken s)) := by
  refine reaches_look (current_eq s) ?_
  refine (Folds.refl hs).bind (folds_armAfter? hst .THEN .thenArm (fun _ => rfl) hs)
    fun thenArm u hu => ?_
  refine hu.bind (folds_armAfter? hst .ELSE .elseArm (fun _ => rfl) hu.orderly_end)
    fun elseArm v hv => ?_
  have hall : Folds s (Block.regions (allInArm thenArm ++ allInArm elseArm)) v := by
    rw [Block.regions_append]
    exact hv
  dsimp only
  split
  · rename_i hnone
    obtain ⟨rfl, rfl⟩ : thenArm = none ∧ elseArm = none := by simpa using hnone
    split
    · exact hall
    · exact .after hall (.still hall.orderly_end (.refl v) rfl)
  · split
    · exact hall
    · refine reaches_look (spanFrom_eq v _) ?_
      exact reaches_after (hall.walk (walks_report _ _)) fun _ _ hw => hw

/-! ## 6. Loops -/

omit hst in
theorem folds_counter (start : Span) (hs : Orderly s) :
    Reaches s (counter start) fun _ u => Folds s [] u := by
  have hname := (careful_expectIdent s).folds tries_nextIdent hs
  refine Reaches.bind hname fun r u hr => ?_
  cases r with
  | error f => exact folds_recover (R := fun _ => []) _ hr
  | ok token =>
    refine Reaches.bind (Folds.walk hr (walks_noteVariable token)) fun _ v hv => ?_
    refine folds_recover (R := fun _ => []) _ ?_
    exact hv.bindStill ((careful_bounds v).folds (takes_bounds v) hv.orderly_end) fun _ _ hw => hw

theorem folds_loopBody (stop : BlockEnd) (hs : Orderly s) : Reaches s (loopBody statement stop)
    fun body u => Folds s (Block.regions (Block.all body)) u := by
  refine (Folds.refl hs).begin.bind fun _ u hu => ?_
  refine Reaches.bind (Q := fun _ v => v = u.enter) rfl fun _ v hv => ?_
  subst hv
  refine (folds_block hst stop hu.orderly_end.enter).bind fun body w hw => ?_
  exact hu.trans (Folds.leave hu.orderly_end hw)

theorem folds_countedLoop (hs : Orderly o) (hword : o.current.kind.IsWord) :
    Reaches o.advance.2 (countedLoop statement o.current.span) (Built o) := by
  refine (folds_counter _ (hs.past (.advance o))).bind fun header u hu => ?_
  refine (folds_loopBody hst .counted hu.orderly_end).bind fun body v hv => ?_
  refine Reaches.look (sees_eq v _) ?_
  refine ((hu.trans hv).walk (walks_closeBlock _ _ _)).dropped.bind fun _ w hw => ?_
  have hown (closing : Option Ident) (span : Span) :
      ([] ++ Block.regions (Block.all body) ++ [Region.mk .counted span].filter Region.isKept).Perm
        (Block.regions (.counted header body closing span ::
          (Statement.counted header body closing span).within)) := List.perm_append_comm
  dsimp only
  split
  · refine (hw.walk (walks_closingName? header.name)).bind fun closing x hx => ?_
    exact hx.built hs hword (hown closing)
  · exact hw.built hs hword (hown none)

theorem folds_plainLoop (hs : Orderly o) (hword : o.current.kind.IsWord) :
    Reaches o.advance.2 (plainLoop statement o.current.span) (Built o) := by
  refine (folds_loopBody hst .loop (hs.past (.advance o))).bind fun body u hu => ?_
  refine (hu.walk (walks_closeBlock _ _ _)).dropped.bind fun _ v hv => ?_
  exact hv.built hs hword fun span => List.perm_append_comm

/-! ## 7. Choices -/

theorem folds_caseArm (hs : Orderly s) (hk : s.current.kind = .keyword .CASE) :
    Reaches s (caseArm statement) fun a u => Folds s (regionsOfArms [a]) u := by
  have hword : s.current.kind.IsWord := hk ▸ Kind.isWord_keyword .CASE
  refine Reaches.bind (Q := fun t u => t = s.current ∧ u = s.advance.2) ⟨s.advance_fst, rfl⟩
    fun t u h => ?_
  obtain ⟨rfl, rfl⟩ := h
  have hfront := hs.past (.advance s)
  have hcond : Reaches s.advance.2 (do
      let cond ← expression
      expectSeparator
      return cond : Parser Expr).run
        (Lands (fun _ u => Folds s.advance.2 [] u) (Broken s.advance.2)) := by
    refine (Folds.refl hfront).bindStill
      ((careful_expression _).folds (derives_expression _) hfront) fun cond u hu => ?_
    exact hu.bindStill (folds_expectSeparator hu.orderly_end) fun _ _ hv => hv
  refine (folds_recover (R := fun _ => []) _ hcond).bind fun cond u hu => ?_
  refine (folds_block hst .caseArm hu.orderly_end).bind fun body v hv => ?_
  refine Reaches.look (spanFrom_eq v _) ?_
  refine ((hu.trans hv).close hs hword .caseArm).bind fun _ w hw => ?_
  exact hw.2.perm (perm_regions_arm cond body _)

theorem folds_choiceTurn (start : Span) (found : Array CaseArm)
    (h : Folds o (regionsOfArms found.toList) s) : Reaches s (choiceTurn statement start found)
      (Carries (fun found u => Folds o (regionsOfArms found.toList) u)
        fun found u => Folds o (regionsOfArms found) u) := by
  refine (h.skipWhile rfl).bind fun _ u hu => Reaches.look (sees_eq u _) ?_
  split
  · rename_i hk
    have hcase : u.current.kind = .keyword .CASE := eq_of_beq hk
    refine (folds_caseArm hst hu.orderly_end hcase).bind fun arm v hv => ?_
    show Folds o (regionsOfArms (found.push arm).toList) v
    rw [Array.toList_push, regionsOfArms_append]
    exact hu.trans hv
  · refine Reaches.look (sees_eq u _) (Reaches.look (nextKind_eq u) ?_)
    split
    · exact hu.skip.bind fun _ _ hv => hv.skip.bind fun _ _ hw => hw
    · refine Reaches.look (sees_eq u _) ?_
      split
      · exact (hu.walk (walks_report _ _)).bind fun _ _ hv => hv
      · refine Reaches.look (current_eq u) ?_
        exact (hu.walk (walks_report _ _)).bind fun _ _ hv => (hv.skipWhile rfl).bind fun _ _ hw => hw

theorem folds_choice (hs : Orderly o) (hword : o.current.kind.IsWord) :
    Reaches o.advance.2 (choice statement o.current.span).run (Lands (Built o) (Broken o)) := by
  have hfront := hs.past (.advance o)
  refine Reaches.mono ?_ fun r u hr => (Folds.still hs (Quiet.advance o).still).fails hr
  refine (Folds.refl hfront).bindStill ((heeds_expected rfl).folds (tries_expected _) hfront)
    fun _ u hu => ?_
  refine hu.bindStill (folds_expectSeparator hu.orderly_end) fun _ v hv => ?_
  refine reaches_after hv.begin fun _ w hw => ?_
  have harms : Reaches w (choiceArms statement o.current.span) fun found x =>
      Folds w (regionsOfArms found) x :=
    reaches_loop (a := #[]) (I := fun found x => Folds w (regionsOfArms found.toList) x)
      (Folds.refl hw.orderly_end) (fun found _ h => folds_choiceTurn hst _ found h) fun _ _ h => h
  refine reaches_after harms fun found x hx => ?_
  exact (hw.trans hx).built hs hword fun span => perm_regions_choice found span

/-! ## 8. Statements -/

theorem folds_decision (hs : Orderly s) (h : Folds o [] s) {test : Parser Decision}
    {Q : Decision → State → Prop} (htest : Heeds s test) (hjudged : Tries s test Q) :
    Reaches s (decision statement test).run (Lands (Built o) (Broken o)) := by
  refine h.bindStill (htest.folds hjudged hs) fun d u hu => ?_
  exact hu.bind (folds_arms hst _ hu.orderly_end) fun found v hv => hv

omit hst in
/-- An action has no regions. -/
theorem folds_action (hs : Orderly s) (h : Folds o [] s) {p : Parser Action}
    {Q : Action → State → Prop} (hp : Heeds s p) (hq : Tries s p Q) :
    Reaches s (Statement.action <$> p).run (Lands (Built o) (Broken o)) := by
  rw [map_eq_pure_bind]
  exact h.bindStill (hp.folds hq hs) fun a u hu => hu

/-- A statement behind its keyword. -/
theorem folds_statementAfter? (hs : Orderly o) {word : Keyword}
    (hk : o.current.kind = .keyword word) {p : Parser (Span → Statement)}
    (hp : statementAfter? statement o.current word = some p) :
    Reaches o.advance.2 p.run (Lands (Built o) (Broken o)) := by
  have hword : o.current.kind.IsWord := hk ▸ Kind.isWord_keyword word
  have hfront : Folds o [] o.advance.2 := .still hs (Quiet.advance o).still
  have hled (hnames : (Kind.keyword word).namesVariable) : Led o.advance.2 :=
    led_advance hs.regular (hk ▸ hnames)
  unfold statementAfter? at hp
  split at hp
  · cases hp
    exact reaches_step (folds_countedLoop hst hs hword)
  · cases hp
    exact reaches_step (folds_plainLoop hst hs hword)
  · cases hp
    exact folds_choice hst hs hword
  · split at hp
    · rename_i test htest
      cases hp
      exact folds_decision hst hfront.orderly_end hfront (careful_decisionAfter? htest _)
        (judged_decisionAfter? hled htest)
    · obtain ⟨action, haction, rfl⟩ := Option.map_eq_some_iff.mp hp
      exact folds_action hfront.orderly_end hfront (careful_actionAfter? haction _)
        (continues_actionAfter? hled haction)

omit hst in
/-- An assignment or a call, whatever it opens with. -/
theorem folds_assignmentOrCall (hs : Orderly s) (hk : s.current.kind.IsName) :
    Reaches s (Statement.action <$> assignmentOrCall).run (Lands (Built s) (Broken s)) :=
  folds_action hs (.refl hs) (careful_assignmentOrCall s) (told_assignmentOrCall hk)

theorem folds_keywordStatement (hs : Orderly s) {word : Keyword}
    (hk : s.current.kind = .keyword word) :
    Reaches s (keywordStatement statement s.current word).run (Lands (Built s) (Broken s)) := by
  refine reaches_look (nextKind_eq s) ?_
  split
  · exact folds_assignmentOrCall hs (hk ▸ Kind.isName_keyword word)
  · split
    · rename_i p hp
      refine reaches_discard (p := advance) (Q := (· = s.advance.2)) rfl fun u hu => ?_
      subst hu
      exact folds_statementAfter? hst hs hk hp
    · exact folds_failHere (.refl hs) rfl

/-- **One layer of statements** records the regions of what it gives if the statements within it
    do. -/
theorem folds_statementLayer : Folding (statementLayer statement) := by
  intro s hs
  have hend {p : Parser (Span → Statement)} (hp : Reaches s p.run (Lands (Built s) (Broken s))) :
      Reaches s (do
        let build ← p
        return build (← spanFrom s.current.span) : Parser Statement).run
          (Lands (fun st u => Folds s (Block.regions (st :: st.within)) u) (Broken s)) :=
    reaches_bind hp (fun _ u hu => reaches_look (spanFrom_eq u _) hu) fun _ _ hfail => hfail
  refine reaches_look (current_eq s) ?_
  dsimp only
  split
  · have hlone : Reaches s (discard (liftM advance) : Parser Unit).run
        (Lands (fun _ u => Folds s [] u) fun _ _ => False) := .still hs (Quiet.advance s).still
    refine reaches_bind hlone (fun _ u hu => ?_) fun _ _ hno => hno.elim
    rw [pure_bind]
    exact reaches_look (spanFrom_eq u _) hu
  · rename_i hk
    refine reaches_look (nextKind_eq s) ?_
    split
    · rename_i hcolon
      exact hend (folds_action hs (.refl hs) (heeds_labelAction hk (eq_of_beq hcolon))
        (told_labelAction hk))
    · exact hend (folds_assignmentOrCall hs (Or.inl hk))
  · rename_i hk
    exact hend (folds_assignmentOrCall hs (Or.inr (Or.inl hk)))
  · rename_i hk
    exact hend (folds_action hs (.refl hs) (heeds_insertAction hk) told_insertAction)
  · rename_i word hk
    exact hend (folds_keywordStatement hst hs hk)
  · exact hend (folds_failHere (.refl hs) rfl)

end Statements

/-- **A statement** records the regions of what it gives, however deep it is nested. -/
theorem folds_statement : Folding statement := by
  intro s hs
  refine reaches_look (p := MonadState.get) rfl ?_
  refine of_layers Folding statementLayer (fun s hs => ?_) (fun _ => folds_statementLayer) _ s hs
  exact Broken.still hs (.refl s) rfl

end BasicCheck.Grammar
