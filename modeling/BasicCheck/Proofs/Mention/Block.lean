import BasicCheck.Proofs.Mention.Decision
import BasicCheck.Proofs.Parse.Block

/-!
# The mentions of statements and blocks

Whatever is noted while statements are read is named in one of them, at whatever depth, or it is in
a clause of a search that a later one replaces (**`tells_statement`**, **`does_block`**). Statements
that are dropped after a fault do not matter here, for the fault is an error.
-/

namespace BasicCheck

namespace Statement

/-- The mentions of the identifiers of a statement, without those of the statements within it. -/
def mentions (s : Statement) : List Mention := s.idents.map Ident.mention

theorem mentions_eq (s : Statement) :
    s.mentions = s.names.map Ident.mention ++ s.expressions.flatMap Expr.mentions := by
  rw [mentions, idents, List.map_append, Expr.map_mention_flatMap]

/-- A statement is a search, a clause of which is replaced by a later one behind the word that opens
    the statement, and a token of the earlier clause has a given span. -/
def Replaces (s : Statement) (tokens : List Token) (span : Span) : Prop :=
  ∃ test thenArm elseArm whole, s = .decision test thenArm elseArm whole ∧
    ∃ before opening behind, tokens = before ++ opening :: behind ∧
      opening.kind = .keyword .LOCATE ∧ whole.start ≤ opening.span.start ∧
      test.Replaces behind span

end Statement

theorem Decision.Replaces.before {d : Decision} {tokens : List Token} {span : Span}
    (h : d.Replaces tokens span) (more : List Token) : d.Replaces (tokens ++ more) span := by
  obtain ⟨needle, haystack, delimiter, order, position, hd, first, name, second, last, hsub,
    hrest⟩ := h
  exact ⟨needle, haystack, delimiter, order, position, hd, first, name, second, last,
    hsub.trans (List.sublist_append_left _ _), hrest⟩

namespace Statement.Replaces

variable {st : Statement} {tokens : List Token} {span : Span}

theorem before (h : st.Replaces tokens span) (more : List Token) :
    st.Replaces (tokens ++ more) span := by
  obtain ⟨test, thenArm, elseArm, whole, hst, front, opening, behind, rfl, hkind, hle, hd⟩ := h
  exact ⟨test, thenArm, elseArm, whole, hst, front, opening, behind ++ more, by simp, hkind, hle,
    hd.before more⟩

theorem behind (h : st.Replaces tokens span) (more : List Token) :
    st.Replaces (more ++ tokens) span := by
  obtain ⟨test, thenArm, elseArm, whole, hst, front, opening, rest, rfl, hkind, hle, hd⟩ := h
  exact ⟨test, thenArm, elseArm, whole, hst, more ++ front, opening, rest, by simp, hkind, hle, hd⟩

end Statement.Replaces

namespace Mentions

open Parse

variable {s u : State} {js ks : List Mention} {ss ts : List Statement} {m k : Stretch}

/-! ## 1. What statements hold -/

/-- As long as there is no error, whatever is noted is among given mentions or named in one of some
    statements, or it is in a clause that is replaced in one of them. -/
def Holds (js : List Mention) (ss : List Statement) (m : Stretch) : Prop :=
  m.Clean → ∀ x ∈ m.noted, x ∈ js ∨ ∃ st ∈ ss, x ∈ st.mentions ∨ st.Replaces m.read x.span

theorem Covers.holds (h : Covers js m) : Holds js [] m :=
  fun hclean x hx => Or.inl ((h hclean).1 x hx)

namespace Holds

theorem nothing : Holds [] [] ∅ := fun _ => List.forall_mem_nil _

theorem of_not_clean (h : ¬ m.Clean) : Holds js ss m := fun hclean => absurd hclean h

theorem append (h : Holds js ss m) (g : Holds ks ts k) : Holds (js ++ ks) (ss ++ ts) (m ++ k) := by
  intro hclean
  refine List.forall_mem_append.mpr ⟨fun x hx => ?_, fun x hx => ?_⟩
  · rcases h hclean.left x hx with hin | ⟨st, hst, hwhere⟩
    · exact Or.inl (List.mem_append_left _ hin)
    · exact Or.inr ⟨st, List.mem_append_left _ hst, hwhere.imp_right fun hr => hr.before k.read⟩
  · rcases g hclean.right x hx with hin | ⟨st, hst, hwhere⟩
    · exact Or.inl (List.mem_append_right _ hin)
    · exact Or.inr ⟨st, List.mem_append_right _ hst, hwhere.imp_right fun hr => hr.behind m.read⟩

/-- A statement that names the given mentions. -/
theorem named (h : Holds js ss m) {st : Statement} (hjs : ∀ x ∈ js, x ∈ st.mentions) :
    Holds [] (st :: ss) m := by
  intro hclean x hx
  rcases h hclean x hx with hin | ⟨st', hst, hwhere⟩
  · exact Or.inr ⟨st, List.mem_cons_self, Or.inl (hjs x hin)⟩
  · exact Or.inr ⟨st', List.mem_cons_of_mem _ hst, hwhere⟩

end Holds

theorem lasting_holds : Lasting (Holds js ss) := by
  intro m k hk hm
  have hnothing : Holds [] [] k := fun _ => by
    rw [hk]
    exact List.forall_mem_nil _
  have hall := hm.append hnothing
  rwa [List.append_nil, List.append_nil] at hall

section Frame

variable {α : Type} {mentions : α → List Mention} {all : α → List Statement}

theorem Does.holds {p : Step α} (hp : Does s (Holds [] []) p fun a => Holds (mentions a) (all a)) :
    Does s (Holds js ss) p fun a => Holds (js ++ mentions a) (ss ++ all a) :=
  hp.frame .nothing fun _ _ _ hm hk => hm.append hk

theorem Tries.holds {p : Parser α}
    (hp : Tries s (Holds [] []) p fun a => Holds (mentions a) (all a)) :
    Tries s (Holds js ss) p fun a => Holds (js ++ mentions a) (ss ++ all a) :=
  hp.frame .nothing fun _ _ _ hm hk => hm.append hk

/-- What is covered by mentions is held by them. -/
theorem Does.held {p : Step α} (hp : Does s (Covers []) p fun a => Covers (mentions a)) :
    Does s (Holds js ss) p fun a => Holds (js ++ mentions a) ss :=
  hp.frame .nothing fun _ _ _ hm hk => by
    have hall := hm.append hk.holds
    rwa [List.append_nil ss] at hall

end Frame

/-! ## 2. Blocks -/

/-- A step that changes nothing of what is told keeps it. -/
theorem does_aside {I : Stretch → Prop} {p : Step Unit} (h : Since s ∅ (p s).2) :
    Does s I p fun _ => I :=
  fun _ => ⟨∅, h, fun m hm => by rwa [Stretch.append_empty]⟩

theorem does_begin {I : Stretch → Prop} : Does s I begin fun _ => I :=
  does_aside ⟨rfl, rfl, (List.append_nil _).symm, (List.append_nil _).symm⟩

theorem does_noteRecovery {I : Stretch → Prop} (start : Outset) (f : Fault) :
    Does s I (noteRecovery start f) fun _ => I :=
  does_aside ⟨rfl, rfl, (List.append_nil _).symm, (List.append_nil _).symm⟩

/-- A parser that is recovered from ends in `Q` whatever fails, as long as its stand-in does where
    an error is. -/
theorem does_recover {α : Type} {I : Stretch → Prop} {p : Parser α} {standIn : α}
    {Q : α → Stretch → Prop} (hp : Tries s I p Q) (hstandIn : ∀ m, ¬ m.Clean → Q standIn m) :
    Does s I (recover standIn p) Q := by
  have hunclean : Lasting fun m => ¬ m.Clean := fun m k _ hm hclean => hm hclean.left
  refine Does.look (outset_eq s) (Does.bind hp fun r u1 => ?_)
  cases r with
  | ok a => exact Does.pure fun _ h => h
  | error fault =>
    have hreport : Does u1 (Owes Q (.error fault)) (reportFault fault) fun _ m => ¬ m.Clean :=
      does_reportFault fault fun m hf => Stretch.not_clean_reporting hf m
    refine hreport.bind fun _ u2 => ?_
    refine (does_synchronize hunclean).bind fun _ u3 => ?_
    exact (does_noteRecovery _ _).bind fun _ _ => Does.pure hstandIn

theorem does_closeBlock {I : Stretch → Prop} (hI : Lasting I) (terminator : Keyword)
    (construct : String) (start : Span) :
    Does s I (closeBlock terminator construct start) fun _ => I := by
  refine Does.look (sees_eq s _) ?_
  split
  · exact (does_advance hI).bind fun _ _ => Does.pure fun _ h => h
  · refine (does_report _ _ hI).bind fun _ u1 => ?_
    exact Does.look (p := MonadState.get) rfl (Does.pure fun _ h => h)

theorem does_recordRegion {I : Stretch → Prop} (hI : Lasting I) (kind : RegionKind) (span : Span) :
    Does s I (recordRegion kind span) fun _ => I :=
  Does.lasts (fun _ => ⟨∅, ⟨rfl, rfl, (List.append_nil _).symm, (List.append_nil _).symm⟩,
    fun m hm => lasting_silent m _ rfl hm⟩) hI

attribute [local simp] Block.all_append Block.all

/-- A parser of statements that hold what is noted while they are read. -/
def Tells (statement : Parser Statement) : Prop :=
  ∀ s, Tries s (Holds [] []) statement fun st => Holds [] (st :: st.within)

section Statements

variable {statement : Parser Statement} (hs : Tells statement)

include hs

theorem does_blockTurn (stop : BlockEnd) (statements : Array Statement) :
    Does s (Holds [] (Block.all statements.toList)) (blockTurn statement stop statements)
      (Turns (fun ss => Holds [] (Block.all ss.toList)) fun body => Holds [] (Block.all body)) := by
  refine (does_skipWhile _ lasting_holds).bind fun _ u1 => ?_
  refine Does.look (sees_eq u1 _) (Does.look (looks_atBlockEnd stop u1) ?_)
  split
  · exact Does.pure fun _ h => h
  · have hone : Does u1 (Holds [] []) (recover none do
        let s ← statement
        unless s.isSeparatorExempt do expectSeparator
        return some s) fun found => Holds [] (Block.all found.toList) := by
      refine does_recover ((hs u1).bind fun st u2 => ?_) fun _ => Holds.of_not_clean
      have hst (m : Stretch) (h : Holds [] (st :: st.within) m) :
          Holds [] (Block.all (some st).toList) m := by
        simpa using h
      dsimp only
      split
      · exact Tries.pure hst
      · exact (tries_expectSeparator lasting_holds).bind fun _ _ => Tries.pure hst
    refine (Does.holds hone).bind fun found u2 => Does.pure fun m h => ?_
    cases found <;> simpa using h

/-- **Blocks hold what is noted while they are read.** -/
theorem does_block (stop : BlockEnd) :
    Does s (Holds [] []) (block statement stop) fun body => Holds [] (Block.all body) :=
  Does.loop (J := fun ss : Array Statement => Holds [] (Block.all ss.toList))
    (fun ss _ => does_blockTurn hs stop ss) fun _ _ h => h

theorem tries_lineTurn (stopsAtElse : Bool) (statements : Array Statement) :
    Tries s (Holds [] (Block.all statements.toList)) (lineTurn statement stopsAtElse statements)
      (Turns (fun ss => Holds [] (Block.all ss.toList)) fun body => Holds [] (Block.all body)) := by
  refine Tries.look (currentKind_eq s) ?_
  dsimp only
  split
  · exact Tries.pure fun _ h => h
  · refine Tries.bind (Q := fun st => Holds [] (Block.all (statements.push st).toList))
      ((Tries.holds (hs s)).mono fun st m h => by simpa using h) fun st u1 => ?_
    refine Tries.after (does_consume _ lasting_holds) fun separated u2 => ?_
    split
    · exact Tries.pure fun _ h => h
    · refine Tries.look (currentKind_eq u2) ?_
      split
      · exact Tries.pure fun _ h => h
      · split
        · exact Tries.pure fun _ h => h
        · exact Tries.look (current_eq u2) (tries_failHere rfl)

theorem tries_lineBlock (stopsAtElse : Bool) :
    Tries s (Holds [] []) (lineBlock statement stopsAtElse) fun body => Holds [] (Block.all body) :=
  Tries.tryLoop (J := fun ss : Array Statement => Holds [] (Block.all ss.toList))
    fun ss _ => tries_lineTurn hs stopsAtElse ss

/-! ## 3. Arms -/

theorem tries_arm (kind : RegionKind) (start : Span) :
    Tries s (Holds [] []) (arm statement kind start) fun body => Holds [] (Block.all body) := by
  refine Tries.after does_begin fun _ u0 => Tries.look (looks_atLineEnd u0) ?_
  split
  · refine (Tries.step (does_advance lasting_holds)).dropped.bind fun _ u1 => ?_
    refine Tries.after (does_block hs .arm) fun body u2 => ?_
    refine Tries.after (does_closeBlock lasting_holds _ _ _) fun stop u3 => ?_
    exact Tries.after (does_recordRegion lasting_holds _ _) fun _ _ => Tries.pure fun _ h => h
  · exact tries_lineBlock hs _

theorem tries_armAfter? (word : Keyword) (kind : RegionKind) :
    Tries s (Holds [] []) (armAfter? statement word kind) fun body => Holds [] (allInArm body) := by
  refine Tries.look (sees_eq s _) ?_
  split
  · refine Tries.after (does_advance lasting_holds) fun start u1 => ?_
    exact (tries_arm hs kind start.span).bind fun body _ => Tries.pure fun _ h => h
  · exact Tries.pure fun _ h => h

theorem tries_arms (optional : Bool) :
    Tries s (Holds [] []) (arms statement optional) fun found =>
      Holds [] (allInArm found.1 ++ allInArm found.2) := by
  refine Tries.look (current_eq s) ?_
  refine (tries_armAfter? hs .THEN .thenArm).bind fun thenArm u1 => ?_
  refine (Tries.holds (tries_armAfter? hs .ELSE .elseArm)).bind fun elseArm u2 => ?_
  dsimp only
  split
  · rename_i hnone
    obtain ⟨rfl, rfl⟩ : thenArm = none ∧ elseArm = none := by
      simpa using hnone
    split
    · exact Tries.pure fun _ h => h
    · exact Tries.throw rfl
  · split
    · exact Tries.pure fun _ h => h
    · refine Tries.look (spanFrom_eq u2 _) ?_
      exact Tries.after (does_report _ _ lasting_holds) fun _ _ => Tries.pure fun _ h => h

/-! ## 4. Loops -/

omit hs in
theorem reads_bounds : Reads bounds fun found =>
    found.1.mentions ++ found.2.1.mentions ++ found.2.2.toList.flatMap Expr.mentions := by
  intro s
  refine (tries_expect _ lasting_covers).dropped.bind fun _ u1 => ?_
  refine (reads_expression u1).bind fun start u2 => ?_
  refine (tries_expect _ lasting_covers).dropped.bind fun _ u3 => ?_
  refine reads_expression.covers.bind fun limit u4 => ?_
  exact (reads_expressionAfter? .STEP).covers.bind fun step _ => Tries.pure fun _ h => h

/-- The mentions of a counter. -/
def mentionsOfCounter (c : Counter) : List Mention :=
  c.name.mention :: c.expressions.flatMap Expr.mentions

omit hs in
theorem does_counter (start : Span) :
    Does s (Covers []) (counter start) fun c => Covers (mentionsOfCounter c) := by
  refine Does.bind tries_expectIdent fun r u1 => ?_
  cases r with
  | error fault =>
    exact does_recover (Does.pure fun _ h => h) fun _ => Covers.of_not_clean
  | ok t =>
    have hnote : Does u1 (Owes (fun t => Covers ([] ++ [t.mention])) (.ok t)) (noteVariable t)
        fun _ => Covers [t.mention] := does_noteVariable (List.mem_singleton_self _)
    refine hnote.bind fun _ u2 => ?_
    refine does_recover ?_ fun _ => Covers.of_not_clean
    refine reads_bounds.covers.bind fun found _ => Tries.pure fun m h => ?_
    simpa [mentionsOfCounter, Counter.expressions] using h

theorem does_loopBody (stop : BlockEnd) :
    Does s (Holds [] []) (loopBody statement stop) fun body => Holds [] (Block.all body) := by
  have hdepth {I : Stretch → Prop} (u : State) (f : Nat → Nat) :
      Does u I (modify fun s => { s with loopDepth := f s.loopDepth }) fun _ => I :=
    does_aside ⟨rfl, rfl, (List.append_nil _).symm, (List.append_nil _).symm⟩
  refine does_begin.bind fun _ u0 => (hdepth u0 (· + 1)).bind fun _ u1 => ?_
  refine (does_block hs stop).bind fun body u2 => ?_
  exact (hdepth u2 (· - 1)).bind fun _ _ => Does.pure fun _ h => h

omit hs in
theorem does_closingName? (name : Ident) :
    Does s (Covers []) (closingName? name) fun closing =>
      Covers (closing.toList.map Ident.mention) := by
  refine Does.look (sees_eq s _) ?_
  split
  · rename_i hk
    have hword : s.current.kind.IsWord := by
      rw [eq_of_beq hk]
      decide
    refine Does.bind ((does_mention hword).mono fun _ _ h => h.2) fun t u1 => ?_
    refine (does_noteVariable (t := t) (List.mem_singleton_self _)).bind fun _ u2 => ?_
    dsimp only
    split
    · exact (does_report _ _ lasting_covers).bind fun _ _ => Does.pure fun _ h => h
    · exact Does.pure fun _ h => h
  · exact Does.pure fun _ h => h

/-- A statement that starts at a token holds what is noted, whatever its span, as long as that
    starts no later. -/
def Builds (token : Token) (build : Span → Statement) (m : Stretch) : Prop :=
  ∀ span, span.start ≤ token.span.start → Holds [] (build span :: (build span).within) m

theorem does_countedLoop (token : Token) (start : Span) :
    Does s (Holds [] []) (countedLoop statement start) (Builds token) := by
  refine (Does.held (does_counter start)).bind fun c u1 => ?_
  refine (Does.holds (does_loopBody hs .counted)).bind fun body u2 => ?_
  refine Does.look (sees_eq u2 _) ?_
  refine (does_closeBlock lasting_holds _ _ _).dropped.bind fun _ u3 => ?_
  have hend (closing : Option Ident) (u : State) : Does u
      (Holds (mentionsOfCounter c ++ closing.toList.map Ident.mention) (Block.all body)) (do
        recordRegion .counted (← spanFrom start)
        return Statement.counted c body closing) (Builds token) := by
    refine Does.look (spanFrom_eq u start) ?_
    refine (does_recordRegion lasting_holds _ _).bind fun _ _ => Does.pure fun m h span _ => ?_
    refine h.named fun x hx => ?_
    simp only [Statement.mentions_eq, Statement.names, Statement.expressions]
    simpa [mentionsOfCounter, or_left_comm, or_comm, or_assoc] using hx
  dsimp only
  split
  · refine Does.bind (Does.held (does_closingName? c.name)) fun closing u4 => ?_
    exact (hend closing u4).pre fun m h => by simpa using h
  · exact Does.pre (hend none u3) fun m h => by simpa using h

theorem does_plainLoop (token : Token) (start : Span) :
    Does s (Holds [] []) (plainLoop statement start) (Builds token) := by
  refine (does_loopBody hs .loop).bind fun body u1 => ?_
  refine (does_closeBlock lasting_holds _ _ _).dropped.bind fun _ u2 => ?_
  refine Does.look (spanFrom_eq u2 start) ?_
  refine (does_recordRegion lasting_holds _ _).bind fun _ _ => Does.pure fun m h span _ => ?_
  exact h.named (List.forall_mem_nil _)

/-! ## 5. Choices -/

theorem does_caseArm : Does s (Holds [] []) (caseArm statement) fun arm =>
    Holds arm.cond.mentions (Block.all arm.body) := by
  refine (does_advance lasting_holds).bind fun token u1 => ?_
  have hcond : Does u1 (Covers []) (recover (.missing token.span) do
      let cond ← expression
      expectSeparator
      return cond) fun cond => Covers cond.mentions := by
    refine does_recover ((reads_expression u1).bind fun cond _ => ?_) fun _ => Covers.of_not_clean
    exact (tries_expectSeparator lasting_covers).bind fun _ _ => Tries.pure fun _ h => h
  refine (Does.held hcond).bind fun cond u2 => ?_
  refine (Does.holds (does_block hs .caseArm)).bind fun body u3 => ?_
  refine Does.look (spanFrom_eq u3 token.span) ?_
  refine (does_recordRegion lasting_holds _ _).bind fun _ _ => Does.pure fun m h => ?_
  have hall : Holds cond.mentions (Block.all body) m := by
    simpa using h
  exact hall

/-- The arms of a choice hold what is noted. -/
def ArmsHold (found : List CaseArm) : Stretch → Prop :=
  Holds (found.flatMap fun arm => arm.cond.mentions) (allInArms found)

theorem does_choiceTurn (start : Span) (found : Array CaseArm) :
    Does s (ArmsHold found.toList) (choiceTurn statement start found)
      (Turns (fun found => ArmsHold found.toList) ArmsHold) := by
  refine (does_skipWhile _ lasting_holds).bind fun _ u1 => ?_
  refine Does.look (sees_eq u1 _) ?_
  split
  · refine (Does.holds (does_caseArm hs)).bind fun arm _ => Does.pure fun m h => ?_
    have hall : ArmsHold (found.push arm).toList m := by
      simpa [ArmsHold, allInArms_eq_flatMap] using h
    exact hall
  · refine Does.look (sees_eq u1 _) (Does.look (nextKind_eq u1) ?_)
    split
    · refine (does_advance lasting_holds).dropped.bind fun _ u2 => ?_
      exact (does_advance lasting_holds).dropped.bind fun _ _ => Does.pure fun _ h => h
    · refine Does.look (sees_eq u1 _) ?_
      split
      · exact (does_report _ _ lasting_holds).bind fun _ _ => Does.pure fun _ h => h
      · refine Does.look (current_eq u1) ?_
        refine (does_report _ _ lasting_holds).bind fun _ u2 => ?_
        exact (does_skipWhile _ lasting_holds).bind fun _ _ => Does.pure fun _ h => h

theorem tries_choice (token : Token) (start : Span) :
    Tries s (Holds [] []) (choice statement start) (Builds token) := by
  refine (tries_expect _ lasting_holds).dropped.bind fun _ u1 => ?_
  refine (tries_expectSeparator lasting_holds).bind fun _ u0 => ?_
  refine Tries.after does_begin fun _ u2 => ?_
  have harms : Does u2 (ArmsHold (#[] : Array CaseArm).toList) (choiceArms statement start)
      ArmsHold :=
    Does.loop (J := fun found : Array CaseArm => ArmsHold found.toList)
      (fun found _ => does_choiceTurn hs start found) fun _ _ h => h
  refine Tries.after harms fun found u3 => Tries.look (spanFrom_eq u3 start) ?_
  refine Tries.after (does_recordRegion lasting_holds _ _) fun _ _ => ?_
  refine Tries.pure fun m h span _ => Holds.named h fun x hx => ?_
  simpa [Statement.mentions_eq, Statement.names, Statement.expressions, List.flatMap_map] using hx

/-! ## 6. Statements -/

theorem tries_decision {keyword : Token} {word : Keyword} (hkeyword : keyword.kind = .keyword word)
    {test : Parser Decision} (htest : Tries s (Covers []) test (Settles word)) :
    Tries s (· = .reading keyword) (decision statement test) (Builds keyword) := by
  refine Tries.bind (Q := fun d m => ∀ thenArm elseArm span, span.start ≤ keyword.span.start →
    Holds [] [.decision d thenArm elseArm span] m) (htest.frame .nothing ?_) fun d u1 => ?_
  · rintro d m k rfl hk thenArm elseArm span hle hclean x hx
    refine Or.inr ⟨_, List.mem_singleton_self _, ?_⟩
    rcases hk hclean.right x hx with hin | ⟨rfl, hr⟩
    · exact Or.inl hin
    · exact Or.inr ⟨d, thenArm, elseArm, span, rfl, [], keyword, k.read, rfl, hkeyword, hle, hr⟩
  · refine Tries.bind (Q := fun found => Builds keyword (.decision d found.1 found.2))
      ((tries_arms hs _).frame .nothing ?_) fun found _ => Tries.pure fun _ h => h
    intro found m k hm harms span hle
    exact (hm found.1 found.2 span hle).append harms

omit hs in
/-- An action as a statement. -/
theorem tries_action {p : Parser Action} {token : Token}
    (hp : Tries s (Covers []) p fun a => Covers a.mentions) :
    Tries s (Holds [] []) (Statement.action <$> p) (Builds token) := by
  refine Tries.map (hp.frame .nothing fun a m k hm hk span _ => ?_)
  exact (hm.append hk.holds).named fun x hx => hx

theorem tries_statementAfter? {keyword : Token} {word : Keyword} (hk : keyword.kind = .keyword word)
    {p : Parser (Span → Statement)} (hp : statementAfter? statement keyword word = some p) :
    Tries s (· = .reading keyword) p (Builds keyword) := by
  have hopened (m : Stretch) (hm : m = .reading keyword) : Holds [] [] m := by
    rw [hm]
    exact fun _ => List.forall_mem_nil _
  unfold statementAfter? at hp
  split at hp
  · cases hp
    exact Tries.pre (Tries.step (does_countedLoop hs keyword _)) hopened
  · cases hp
    exact Tries.pre (Tries.step (does_plainLoop hs keyword _)) hopened
  · cases hp
    exact (tries_choice hs keyword _).pre hopened
  · split at hp
    · rename_i test htest
      cases hp
      exact tries_decision hs hk (settles_decisionAfter? htest)
    · obtain ⟨a, ha, rfl⟩ := Option.map_eq_some_iff.mp hp
      exact (tries_action (reads_actionAfter? ha s)).pre hopened

omit hs in
/-- An assignment or a call as a statement. -/
theorem tries_assignmentStatement (token : Token) :
    Tries s (· = ∅) (Statement.action <$> assignmentOrCall) (Builds token) := by
  refine (tries_action (reads_assignmentOrCall s)).pre fun m hm => ?_
  rw [hm]
  exact .nothing

/-- A statement whose keyword comes next. -/
theorem tries_keywordStatement {word : Keyword} (hk : s.current.kind = .keyword word) :
    Tries s (· = ∅) (keywordStatement statement s.current word) (Builds s.current) := by
  have hword : s.current.kind.IsWord := by
    rw [hk]
    exact Kind.isWord_keyword word
  refine Tries.look (nextKind_eq s) ?_
  split
  · exact tries_assignmentStatement _
  · split
    · rename_i p hp
      have hread : Tries s (· = ∅) (discard (liftM advance : Parser Token))
          fun _ m => m = .reading s.current :=
        Tries.dropped (Tries.step (does_word hword fun m hm => by rw [hm]; rfl))
      exact hread.bind fun _ u1 => tries_statementAfter? hs hk hp
    · exact tries_failHere rfl

/-- **One layer of statements** holds what is noted if the statements within it do. -/
theorem tells_statementLayer : Tells (statementLayer statement) := by
  intro s
  have hend {p : Parser (Span → Statement)} (hp : Tries s (· = ∅) p (Builds s.current)) :
      Tries s (· = ∅) (do
        let build ← p
        return build (← spanFrom s.current.span)) fun st => Holds [] (st :: st.within) := by
    refine hp.bind fun build u1 => Tries.look (spanFrom_eq u1 _) (Tries.pure fun m h => ?_)
    exact h _ (Span.start_join_le _ _).1
  have hempty (m : Stretch) (hm : m = ∅) : Holds [] [] m := by
    rw [hm]
    exact .nothing
  refine Tries.frame (J := (· = ∅)) ?_ rfl fun st m k hm hk => hm.append hk
  refine Tries.look (current_eq s) ?_
  dsimp only
  split
  · refine Tries.bind (Q := fun _ => Holds [] [])
      (Tries.pre (Tries.step (does_advance lasting_holds)).dropped hempty) fun _ u1 => ?_
    refine Tries.given (Tries.look (spanFrom_eq u1 _) (Tries.pure fun m h => ?_))
    exact h.named (List.forall_mem_nil _)
  · rename_i hk
    refine Tries.look (nextKind_eq s) ?_
    split
    · exact hend ((tries_action (tries_labelAction hk)).pre hempty)
    · exact hend (tries_assignmentStatement _)
  · exact hend (tries_assignmentStatement _)
  · exact hend ((tries_action (reads_insertAction s)).pre hempty)
  · rename_i word hk
    exact hend (tries_keywordStatement hs hk)
  · exact Tries.fails (p := failHere _) rfl rfl

end Statements

/-- **A statement** holds what is noted while it is read. -/
theorem tells_statement : Tells statement := by
  intro s
  refine Tries.get ?_
  exact of_layers Tells statementLayer (fun _ => Tries.throw rfl)
    (fun p hp => tells_statementLayer hp) _ s

end Mentions

end BasicCheck
