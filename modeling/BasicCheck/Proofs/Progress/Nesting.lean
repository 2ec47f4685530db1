import BasicCheck.Proofs.Progress.Coincide

/-!
# Operands and statements are what they are built from

Blocks, arms, loops and choices that are built over two parsers for statements coincide if those do
(`Coincide.block`, `Concurs.arms`, `Coincide.countedLoop`, `Concurs.choice`), and a statement turns to
the statements within it only behind its keyword (**`run_statementLayer`**). So the limit that is set
to nesting is never met: **`run_primary`**, **`run_statement`**.
-/

namespace BasicCheck.Grammar

open Parse

variable {α : Type} {n : Nat} {s : State}

/-! ## 1. Blocks -/

theorem Coincide.recover {p q : Parser α} (standIn : α) (h : Concurs n p q) :
    Coincide n (Parse.recover standIn p) (Parse.recover standIn q) := by
  refine look looks_outset fun start => Coincide.bind h fun r => ?_
  cases r with
  | ok a => exact pure a
  | error fault =>
    refine (same fun _ => goes_reportFault fault).bind fun _ => ?_
    refine (same fun _ => goes_synchronize).bind fun _ => ?_
    exact (same fun _ => goes_noteRecovery start fault).bind fun _ => pure standIn

section Statements

variable {p q : Parser Statement} (h : Concurs n p q)

include h

theorem Coincide.blockTurn (stop : BlockEnd) (found : Array Statement) :
    Coincide n (Parse.blockTurn p stop found) (Parse.blockTurn q stop found) := by
  refine (same fun _ => goes_skipNewlines).bind fun _ => look (looks_sees _) fun ended => ?_
  refine look (looks_atBlockEnd stop) fun stops => ?_
  dsimp only
  split
  · exact pure _
  · refine bind (recover none (h.bind fun st => ?_)) fun found => pure _
    split
    · exact .pure _
    · exact (Concurs.same fun _ => tries_expectSeparator).bind fun _ => .pure _

theorem Coincide.block (stop : BlockEnd) :
    Coincide n (Parse.block p stop) (Parse.block q stop) :=
  loop _ _ (Coincide.blockTurn h stop) #[]

theorem Concurs.lineTurn (stopsAtElse : Bool) (found : Array Statement) :
    Concurs n (Parse.lineTurn p stopsAtElse found) (Parse.lineTurn q stopsAtElse found) := by
  refine look looks_currentKind fun kind => ?_
  dsimp only
  split
  · exact pure _
  · refine h.bind fun st => after (.same fun _ => goes_consume .semicolon) fun found => ?_
    split
    · exact pure _
    · refine look looks_currentKind fun kind => ?_
      split
      · exact pure _
      · split
        · exact pure _
        · exact look (fun _ => rfl) fun token => failHere _

theorem Concurs.lineBlock (stopsAtElse : Bool) :
    Concurs n (Parse.lineBlock p stopsAtElse) (Parse.lineBlock q stopsAtElse) :=
  tryLoop _ _ (Concurs.lineTurn h stopsAtElse) #[]

/-! ## 2. Arms -/

theorem Concurs.arm (kind : RegionKind) (start : Span) :
    Concurs n (Parse.arm p kind start) (Parse.arm q kind start) := by
  refine after (.same fun _ => goes_begin) fun _ => look looks_atLineEnd fun ends => ?_
  split
  · refine (same fun _ => tries_skip).bind fun _ => after (.block h .arm) fun body => ?_
    refine after (.same fun _ => goes_closeBlock _ _ _) fun stop => ?_
    exact after (.same fun _ => goes_recordRegion _ _) fun _ => pure _
  · exact Concurs.lineBlock h _

theorem Concurs.armAfter? (word : Keyword) (kind : RegionKind) :
    Concurs n (Parse.armAfter? p word kind) (Parse.armAfter? q word kind) := by
  refine look (looks_sees _) fun there => ?_
  split
  · exact after (.same fun _ => goes_advance) fun start => (Concurs.arm h _ _).bind fun _ => pure _
  · exact pure _

theorem Concurs.arms (optional : Bool) :
    Concurs n (Parse.arms p optional) (Parse.arms q optional) := by
  refine look (fun _ => rfl) fun start => (Concurs.armAfter? h _ _).bind fun thenArm => ?_
  refine (Concurs.armAfter? h _ _).bind fun elseArm => ?_
  dsimp only
  split
  · split
    · exact pure _
    · exact throw _
  · split
    · exact pure _
    · exact look (fun _ => rfl) fun span => after (.same fun _ => goes_report _ _) fun _ => pure _

/-! ## 3. Loops -/

omit h in
theorem Coincide.counter (start : Span) : Coincide n (Parse.counter start) (Parse.counter start) := by
  refine bind (Concurs.same fun _ => tries_expectIdent) fun name => ?_
  cases name with
  | error fault => exact recover _ (.throw fault)
  | ok token =>
    refine (noteVariable token).bind fun _ => recover _ ?_
    exact (Concurs.same takes_bounds).bind fun found => .pure _

theorem Coincide.loopBody (stop : BlockEnd) :
    Coincide n (Parse.loopBody p stop) (Parse.loopBody q stop) := by
  -- the state within the loop has the same tokens left as the one before it
  intro s hs hcount
  obtain ⟨m, hm⟩ : ∃ m, m = (begin s).2 := ⟨_, rfl⟩
  have hpastm : Past s m := hm ▸ .kept (Nat.le_succ _)
  have hregular := hpastm.regular hs
  obtain ⟨heq, hpast⟩ := Coincide.block h stop m.enter ⟨hregular.ended, hregular.half⟩
    (Nat.lt_of_le_of_lt hpastm.count_le hcount)
  have hrun (p : Parser Statement) : Parse.loopBody p stop s =
      ((Parse.block p stop m.enter).1, (Parse.block p stop m.enter).2.leave) := hm ▸ rfl
  rw [hrun, hrun, heq]
  exact ⟨rfl, heq ▸ hpastm.trans hpast.leave⟩

omit h in
theorem Coincide.closingName? (name : Ident) :
    Coincide n (Parse.closingName? name) (Parse.closingName? name) := by
  refine look (looks_sees _) fun found => ?_
  split
  · refine (same fun _ => goes_advance).bind fun token => (noteVariable token).bind fun _ => ?_
    dsimp only
    split
    · exact (same fun _ => goes_report _ _).bind fun _ => pure _
    · exact pure _
  · exact pure _

theorem Coincide.countedLoop (start : Span) :
    Coincide n (Parse.countedLoop p start) (Parse.countedLoop q start) := by
  refine (counter start).bind fun header => (Coincide.loopBody h .counted).bind fun body => ?_
  refine look (looks_sees _) fun closed => ?_
  refine (same fun _ => goes_closeBlock _ _ _).dropped.bind fun _ => ?_
  have hend (closing : Option Ident) : Coincide n (do
      recordRegion .counted (← spanFrom start)
      return Statement.counted header body closing) (do
      recordRegion .counted (← spanFrom start)
      return Statement.counted header body closing) :=
    look (fun _ => rfl) fun span => (same fun _ => goes_recordRegion _ _).bind fun _ => pure _
  dsimp only
  split
  · exact (closingName? _).bind hend
  · exact (pure _).bind hend

theorem Coincide.plainLoop (start : Span) :
    Coincide n (Parse.plainLoop p start) (Parse.plainLoop q start) := by
  refine (Coincide.loopBody h .loop).bind fun body => ?_
  refine (same fun _ => goes_closeBlock _ _ _).dropped.bind fun _ => ?_
  exact look (fun _ => rfl) fun span => (same fun _ => goes_recordRegion _ _).bind fun _ => pure _

/-! ## 4. Choices -/

theorem Coincide.caseArm : Coincide n (Parse.caseArm p) (Parse.caseArm q) := by
  refine (same fun _ => goes_advance).bind fun start => ?_
  refine bind (recover _ ((Concurs.same derives_expression).bind fun cond => ?_)) fun cond => ?_
  · exact (Concurs.same fun _ => tries_expectSeparator).bind fun _ => .pure cond
  · refine (Coincide.block h .caseArm).bind fun body => look (fun _ => rfl) fun span => ?_
    exact (same fun _ => goes_recordRegion _ _).bind fun _ => pure _

theorem Coincide.choiceTurn (start : Span) (found : Array CaseArm) :
    Coincide n (Parse.choiceTurn p start found) (Parse.choiceTurn q start found) := by
  refine (same fun _ => goes_skipNewlines).bind fun _ => look (looks_sees _) fun opens => ?_
  split
  · exact (Coincide.caseArm h).bind fun arm => pure _
  · refine look (looks_sees _) fun ends => look (fun _ => rfl) fun next => ?_
    split
    · exact (same fun _ => goes_skip).bind fun _ => (same fun _ => goes_skip).bind fun _ => pure _
    · refine look (looks_sees _) fun ended => ?_
      split
      · exact (same fun _ => goes_report _ _).bind fun _ => pure _
      · refine look (fun _ => rfl) fun token => (same fun _ => goes_report _ _).bind fun _ => ?_
        exact (same fun _ => goes_skipWhile _ rfl).bind fun _ => pure _

theorem Concurs.choice (start : Span) :
    Concurs n (Parse.choice p start) (Parse.choice q start) := by
  refine (same fun _ => tries_expected _).bind fun _ => ?_
  refine (same fun _ => tries_expectSeparator).bind fun _ => after (.same fun _ => goes_begin) fun _ => ?_
  have harms : Coincide n (choiceArms p start) (choiceArms q start) :=
    .loop _ _ (Coincide.choiceTurn h start) #[]
  refine after harms fun found => look (fun _ => rfl) fun span => ?_
  exact after (.same fun _ => goes_recordRegion _ _) fun _ => pure _

/-! ## 5. Statements -/

theorem Concurs.decision {test : Parser Decision} (htest : Concurs n test test) :
    Concurs n (Parse.decision p test) (Parse.decision q test) :=
  htest.bind fun _ => (Concurs.arms h _).bind fun _ => pure _

omit h in
theorem Concurs.variableIdent (role : Role) :
    Concurs n (Parse.variableIdent role) (Parse.variableIdent role) :=
  (same fun _ => tries_expectVariable).bind fun _ => after (.noteVariable _) fun _ => pure _

omit h in
theorem Concurs.matAction : Concurs n Parse.matAction Parse.matAction := by
  refine (Concurs.variableIdent _).bind fun name => ?_
  have hvalue : Concurs n (do
      discard (expect .equal)
      if ← consume (.keyword .MAT) then
        return Action.mat name (.variable (← Parse.variableIdent .reference))
      else return .mat name (← expression)) (do
      discard (expect .equal)
      if ← consume (.keyword .MAT) then
        return Action.mat name (.variable (← Parse.variableIdent .reference))
      else return .mat name (← expression)) := by
    refine (same fun _ => tries_expected _).bind fun _ => ?_
    refine after (.same fun _ => goes_consume _) fun found => ?_
    split
    · exact (Concurs.variableIdent _).bind fun _ => pure _
    · exact (same derives_expression).bind fun _ => pure _
  refine get fun s => ?_
  dsimp only
  split
  · exact hvalue
  · exact after (.same fun _ => goes_report _ _) fun _ => hvalue

omit h in
/-- An action behind its keyword. -/
theorem Concurs.ofAction {keyword : Token} {word : Keyword} {action : Parser Action}
    (haction : actionAfter? keyword word = some action) : Concurs n action action := by
  by_cases hnames : (Kind.keyword word).namesVariable
  · unfold actionAfter? at haction
    split at haction <;> cases haction
    all_goals first | exact absurd hnames (by decide) | exact Concurs.matAction
  · exact same fun s => continues_actionAfter? (fun hyes => absurd hyes hnames) haction

omit h in
/-- A decision behind its keyword. -/
theorem Concurs.ofDecision {word : Keyword} {test : Parser Decision}
    (htest : decisionAfter? word = some test) : Concurs n test test := by
  by_cases hnames : (Kind.keyword word).namesVariable
  · unfold decisionAfter? at htest
    split at htest <;> cases htest
    all_goals try exact absurd hnames (by decide)
    · refine (Concurs.variableIdent _).bind fun name => ?_
      refine (same fun _ => tries_expected _).bind fun _ => ?_
      exact (same takes_fileAndKey).bind fun _ => pure _
    · refine (Concurs.variableIdent _).bind fun name => ?_
      refine (same fun _ => tries_expectOnOrTo).bind fun _ => ?_
      exact (same takes_fileAndKey).bind fun _ => pure _
  · exact same fun s => judged_decisionAfter? (fun hyes => absurd hyes hnames) htest

/-- Whether a keyword opens a statement does not depend on the statements within it. -/
theorem Concurs.statementAfter? (keyword : Token) (word : Keyword) :
    Option.Rel (Concurs n) (Parse.statementAfter? p keyword word)
      (Parse.statementAfter? q keyword word) := by
  unfold Parse.statementAfter?
  split
  · exact .some (step (.countedLoop h _))
  · exact .some (step (.plainLoop h _))
  · exact .some (Concurs.choice h _)
  · split
    · rename_i test htest
      exact .some (Concurs.decision h (.ofDecision htest))
    · cases haction : actionAfter? keyword word with
      | none => exact .none
      | some action => exact .some (map _ (.ofAction haction))

/-- A statement reads with the statements within it only behind its keyword. -/
theorem run_keywordStatement {word : Keyword} (hs : s.Regular) (hcount : s.rest.count ≤ n)
    (hk : s.current.kind = .keyword word) :
    (keywordStatement p s.current word).run s = (keywordStatement q s.current word).run s := by
  have hword : s.current.kind.IsWord := hk ▸ Kind.isWord_keyword word
  refine run_look_congr (nextKind_eq s) ?_
  split
  · rfl
  · have hrel := Concurs.statementAfter? h s.current word
    revert hrel
    generalize statementAfter? p s.current word = found, statementAfter? q s.current word = found'
    rintro (⟨h⟩ | _)
    · exact (((Enters.skip hword hcount).bind fun _ => h) hs).1
    · rfl

/-- **A layer of statements** reads with the statements within it only behind its first token. -/
theorem run_statementLayer (hs : s.Regular) (hcount : s.rest.count ≤ n) :
    (statementLayer p).run s = (statementLayer q).run s := by
  refine run_look_congr (current_eq s) ?_
  dsimp only
  split
  · rfl
  · rfl
  · rfl
  · rfl
  · rename_i hk
    exact run_bind_congr (run_keywordStatement h hs hcount hk)
  · rfl

end Statements

/-! ## 6. Nesting -/

/-- **Operands** are built over themselves, however deep they are nested. -/
theorem run_primary (hs : s.Regular) : primary.run s = (primaryLayer primary).run s :=
  nest_eq_layer (fun k u hu => ⟨(parses_nestUpTo k u hu).1, trivial⟩)
    (fun h _ hs hcount => (Enters.primaryLayer h hcount hs).1) hs

/-- **Statements** are built over themselves, however deep they are nested. -/
theorem run_statement (hs : s.Regular) : statement.run s = (statementLayer statement).run s :=
  nest_eq_layer (fun k u hu => ⟨(writes_nestUpTo k u hu).1, trivial⟩)
    (fun h _ hs hcount => run_statementLayer h hs hcount) hs

end BasicCheck.Grammar
