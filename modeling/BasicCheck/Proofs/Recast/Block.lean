import BasicCheck.Proofs.Recast.Decision

/-!
# Blocks that are written anew

Blocks follow each other if the statements in them do (**`follows_block`**), and so do statements
that hold blocks (**`follows_statementLayer`**); `nest` closes the circle (**`follows_statement`**).
What is read of a statement behind its keyword waits for the span of the whole: two such parsers
follow each other if they do once the span is known (`BuildsAnew`).
-/

namespace BasicCheck.Parse

variable {ρ : Recast}

/-! ## 1. Statements that wait for their span -/

/-- What is read of a statement that starts at a given span, up to where it ends. -/
def ended (start : Span) (p : Parser (Span → Statement)) : Parser Statement := do
  let build ← p
  return build (← spanFrom start)

/-- Two parsers of what becomes a statement with its span, which follow each other once the span is
    known. -/
def BuildsAnew (ρ : Recast) (p q : Parser (Span → Statement)) : Prop :=
  ∀ start, Parser.Follows ρ (Statement.recast ρ) (ended start p) (ended (start.recast ρ) q)

namespace BuildsAnew

variable {α : Type} {g : α → α} {build build' : Span → Statement}

theorem bind {p q : Parser α} {f k : α → Parser (Span → Statement)} (hp : Parser.Follows ρ g p q)
    (hf : ∀ a, BuildsAnew ρ (f a) (k (g a))) : BuildsAnew ρ (p >>= f) (q >>= k) := by
  intro start
  unfold ended
  rw [bind_assoc, bind_assoc]
  exact hp.bind fun a => hf a start

/-- A parser in front whose result stays. -/
theorem ask {p q : Parser α} {f k : α → Parser (Span → Statement)} (hp : Parser.Follows ρ id p q)
    (hf : ∀ a, BuildsAnew ρ (f a) (k a)) : BuildsAnew ρ (p >>= f) (q >>= k) :=
  bind hp hf

theorem pure (h : ∀ span, build' (span.recast ρ) = (build span).recast ρ) :
    BuildsAnew ρ (Pure.pure build) (Pure.pure build') :=
  fun start => .given (.take (follows_spanFrom start) fun span => .pure (h span))

theorem failHere {cause cause' : Cause} (hcause : cause' = cause.recast ρ) :
    BuildsAnew ρ (Parse.failHere cause) (Parse.failHere cause') :=
  bind (.step follows_current) fun _ _ => .throw (by rw [hcause]; rfl)

/-- A step in front, within a step. -/
theorem lift {p q : Step α} {f k : α → Step (Span → Statement)} (hp : Step.Follows ρ g p q)
    (hf : ∀ a, BuildsAnew ρ (liftM (f a)) (liftM (k (g a)))) :
    BuildsAnew ρ (liftM (p >>= f)) (liftM (q >>= k)) := by
  rw [liftM_bind, liftM_bind]
  exact bind (.step hp) hf

theorem done (h : ∀ span, build' (span.recast ρ) = (build span).recast ρ) :
    BuildsAnew ρ (liftM (Pure.pure build : Step _)) (liftM (Pure.pure build' : Step _)) := by
  rw [liftM_pure, liftM_pure]
  exact pure h

end BuildsAnew

/-! ## 2. Blocks -/

theorem follows_atBlockEnd (stop : BlockEnd) :
    Step.Follows ρ id (atBlockEnd stop) (atBlockEnd stop) := by
  cases stop with
  | file => exact .pure rfl
  | arm => exact follows_sees _
  | counted => exact follows_sees _
  | loop => exact follows_sees _
  | caseArm =>
    refine follows_currentKind.ask fun kind => ?_
    split
    · exact .pure rfl
    · exact follows_nextKind.ask fun next => .pure rfl
    · exact .pure rfl

/-- What two runs have noted of their recoveries need not agree. -/
theorem follows_outset {α : Type} {g : α → α} {f k : Outset → Step α}
    (h : ∀ start start', Step.Follows ρ g (f start) (k start')) :
    Step.Follows ρ g (outset >>= f) (outset >>= k) :=
  fun s t hs => h _ _ s t hs

theorem follows_noteRecovery (start start' : Outset) (f f' : Fault) :
    Step.Follows ρ id (noteRecovery start f) (noteRecovery start' f') :=
  fun _ _ hs => ⟨rfl, { hs with }⟩

theorem follows_begin : Step.Follows ρ id begin begin := fun _ _ hs => ⟨rfl, { hs with }⟩

/-- What is recovered from in one state is recovered from in the other. -/
theorem follows_recover {α : Type} {g : α → α} {standIn standIn' : α} {p q : Parser α}
    (hstandIn : standIn' = g standIn) (h : Parser.Follows ρ g p q) :
    Step.Follows ρ g (recover standIn p) (recover standIn' q) := by
  refine follows_outset fun start start' => Step.Follows.bind h fun result => ?_
  cases result with
  | ok a => exact .pure rfl
  | error fault =>
    refine (follows_reportFault fault).ask fun _ => follows_synchronize.ask fun _ => ?_
    exact (follows_noteRecovery start start' fault _).ask fun _ => .pure hstandIn

theorem follows_closeBlock (terminator : Keyword) (construct : String) (start : Span) :
    Step.Follows ρ (Span.recast ρ) (closeBlock terminator construct start)
      (closeBlock terminator construct (start.recast ρ)) := by
  refine (follows_sees _).ask fun found => ?_
  split
  · exact follows_advance.bind fun token => .pure rfl
  · refine (follows_report rfl start).ask fun _ => Step.Follows.look fun s t hs => .pure ?_
    rw [hs.previous]
    rfl

section Statements

variable {p q : Parser Statement}

theorem follows_blockTurn (stop : BlockEnd) (h : Parser.Follows ρ (Statement.recast ρ) p q)
    (statements : Array Statement) :
    Step.Follows ρ (Turn.map (Array.map (Statement.recast ρ)) (List.map (Statement.recast ρ)))
      (blockTurn p stop statements) (blockTurn q stop (statements.map (Statement.recast ρ))) := by
  refine follows_skipNewlines.ask fun _ => (follows_sees _).ask fun ended => ?_
  refine (follows_atBlockEnd stop).ask fun closed => ?_
  split
  · exact .pure (congrArg Turn.done Array.toList_map)
  · refine (follows_recover (g := Option.map (Statement.recast ρ)) rfl ?_).bind fun found =>
      .pure ?_
    · refine h.bind fun s => ?_
      rw [Statement.isSeparatorExempt_recast]
      dsimp only
      split
      · exact .pure rfl
      · exact follows_expectSeparator.ask fun _ => .pure rfl
    · cases found <;> simp [Turn.map]

/-- **Blocks follow each other** if the statements in them do. -/
theorem follows_block (stop : BlockEnd) (h : Parser.Follows ρ (Statement.recast ρ) p q) :
    Step.Follows ρ (List.map (Statement.recast ρ)) (block p stop) (block q stop) := by
  have hturns := Step.Follows.loop (g := Array.map (Statement.recast ρ)) (follows_blockTurn stop h)
    (fun _ => Array.toList_map) #[]
  rwa [Array.map_empty] at hturns

theorem follows_lineTurn (stopsAtElse : Bool) (h : Parser.Follows ρ (Statement.recast ρ) p q)
    (statements : Array Statement) :
    Parser.Follows ρ (Turn.map (Array.map (Statement.recast ρ)) (List.map (Statement.recast ρ)))
      (lineTurn p stopsAtElse statements)
      (lineTurn q stopsAtElse (statements.map (Statement.recast ρ))) := by
  refine .after follows_currentKind fun kind => ?_
  split
  · exact .pure (congrArg Turn.done Array.toList_map)
  · refine h.bind fun s => .after (follows_consume _) fun found => ?_
    have hpush : (statements.map (Statement.recast ρ)).push (s.recast ρ) =
        (statements.push s).map (Statement.recast ρ) := Array.map_push.symm
    rw [hpush, Statement.isSeparatorExempt_recast]
    split
    · exact .pure rfl
    · refine .after follows_currentKind fun kind => ?_
      split
      · exact .pure (congrArg Turn.done Array.toList_map)
      · split
        · exact .pure rfl
        · refine .take follows_current fun token => follows_failHere ?_
          rw [Token.describe_recast]
          rfl

theorem follows_lineBlock (stopsAtElse : Bool) (h : Parser.Follows ρ (Statement.recast ρ) p q) :
    Parser.Follows ρ (List.map (Statement.recast ρ)) (lineBlock p stopsAtElse)
      (lineBlock q stopsAtElse) := by
  have hturns := Parser.Follows.tryLoop (g := Array.map (Statement.recast ρ))
    (follows_lineTurn stopsAtElse h) #[]
  rwa [Array.map_empty] at hturns

/-! ## 3. Arms -/

theorem follows_atLineEnd : Step.Follows ρ id atLineEnd atLineEnd := by
  refine follows_currentKind.ask fun kind => ?_
  split
  · exact .pure rfl
  · exact follows_nextKind.ask fun next => .pure rfl
  · exact .pure rfl

theorem follows_arm (kind : RegionKind) (start : Span)
    (h : Parser.Follows ρ (Statement.recast ρ) p q) :
    Parser.Follows ρ (List.map (Statement.recast ρ)) (arm p kind start)
      (arm q kind (start.recast ρ)) := by
  refine .after follows_begin fun _ => .after follows_atLineEnd fun several => ?_
  split
  · refine .past follows_advance fun _ => ?_
    refine .take (follows_block .arm h) fun body => ?_
    refine .take (follows_closeBlock _ _ start) fun stop => ?_
    rw [← Span.recast_join]
    exact .after (follows_recordRegion kind _) fun _ => .pure rfl
  · exact follows_lineBlock _ h

theorem follows_armAfter? (word : Keyword) (kind : RegionKind)
    (h : Parser.Follows ρ (Statement.recast ρ) p q) :
    Parser.Follows ρ (Option.map (List.map (Statement.recast ρ))) (armAfter? p word kind)
      (armAfter? q word kind) := by
  refine .after (follows_sees _) fun found => ?_
  split
  · refine .take follows_advance fun token => ?_
    exact (follows_arm kind token.span h).bind fun body => .pure rfl
  · exact .pure rfl

theorem holdsStatement_recast (body : Option Block) :
    holdsStatement (body.map (List.map (Statement.recast ρ))) = holdsStatement body := by
  cases body with
  | none => rfl
  | some statements =>
    show (statements.map (Statement.recast ρ)).any (!·.isEmpty) = statements.any (!·.isEmpty)
    rw [List.any_map]
    exact congrArg statements.any (funext fun s => congrArg (!·) s.isEmpty_recast)

theorem follows_arms (optional : Bool) (h : Parser.Follows ρ (Statement.recast ρ) p q) :
    Parser.Follows ρ (Prod.map (Option.map (List.map (Statement.recast ρ)))
      (Option.map (List.map (Statement.recast ρ)))) (arms p optional) (arms q optional) := by
  refine .take follows_current fun token => ?_
  refine (follows_armAfter? .THEN .thenArm h).bind fun thenArm => ?_
  refine (follows_armAfter? .ELSE .elseArm h).bind fun elseArm => ?_
  rw [Option.isNone_map, Option.isNone_map, holdsStatement_recast, holdsStatement_recast]
  dsimp only
  split
  · split
    · exact .pure rfl
    · exact .throw rfl
  · split
    · exact .pure rfl
    · refine .take (follows_spanFrom _) fun span => ?_
      exact .after (follows_report rfl span) fun _ => .pure rfl

/-! ## 4. Loops -/

theorem follows_bounds :
    Parser.Follows ρ
      (Prod.map (Expr.recast ρ) (Prod.map (Expr.recast ρ) (Option.map (Expr.recast ρ)))) bounds
      bounds := by
  refine (follows_expect _).dropped.ask fun _ => follows_expression.bind fun start => ?_
  refine (follows_expect _).dropped.ask fun _ => follows_expression.bind fun limit => ?_
  exact (follows_expressionAfter? _).bind fun step => .pure rfl

theorem follows_counter (start : Span) :
    Step.Follows ρ (Counter.recast ρ) (counter start) (counter (start.recast ρ)) := by
  have hunbounded {name name' : Ident} (hname : name' = name.recast ρ) :
      ⟨name', .missing (start.recast ρ), .missing (start.recast ρ), none⟩ =
        Counter.recast ρ ⟨name, .missing start, .missing start, none⟩ := by
    rw [hname, Counter.recast, Expr.recast_missing]
    rfl
  have hanonymous : (⟨"", .assignment, start.recast ρ⟩ : Ident) =
      Ident.recast ρ ⟨"", .assignment, start⟩ := by
    rw [Ident.recast, ρ.text_of_small (s := "") (by decide)]
  refine Step.Follows.bind follows_expectIdent fun result => ?_
  cases result with
  | ok token =>
    refine (follows_noteVariable token).ask fun _ => follows_recover (hunbounded rfl) ?_
    refine follows_bounds.bind fun found => ?_
    obtain ⟨first, limit, step⟩ := found
    exact .pure rfl
  | error fault => exact follows_recover (hunbounded hanonymous) (.throw rfl)

theorem follows_loopBody (stop : BlockEnd) (h : Parser.Follows ρ (Statement.recast ρ) p q) :
    Step.Follows ρ (List.map (Statement.recast ρ)) (loopBody p stop) (loopBody q stop) := by
  have hdepth (f : Nat → Nat) : Step.Follows ρ id
      (modify fun s : State => { s with loopDepth := f s.loopDepth })
      (modify fun s : State => { s with loopDepth := f s.loopDepth }) :=
    .modify fun s t hs => { hs with loopDepth := congrArg f hs.loopDepth }
  refine follows_begin.ask fun _ => (hdepth (· + 1)).ask fun _ => ?_
  refine (follows_block stop h).bind fun body => ?_
  exact (hdepth (· - 1)).ask fun _ => .pure rfl

theorem follows_closingName? (name : Ident) :
    Step.Follows ρ (Option.map (Ident.recast ρ)) (closingName? name)
      (closingName? (name.recast ρ)) := by
  refine (follows_sees _).ask fun found => ?_
  split
  · refine follows_advance.bind fun token => (follows_noteVariable token).ask fun _ => ?_
    rw [Ident.name_recast, Recast.isEmpty_text, Token.folded_recast, Ident.folded_recast]
    dsimp only
    split
    · exact (follows_report rfl _).ask fun _ => .pure rfl
    · exact .pure rfl
  · exact .pure rfl

theorem follows_countedLoop (start : Span) (h : Parser.Follows ρ (Statement.recast ρ) p q) :
    BuildsAnew ρ (liftM (countedLoop p start)) (liftM (countedLoop q (start.recast ρ))) := by
  unfold countedLoop
  refine .lift (follows_counter start) fun header => ?_
  refine .lift (follows_loopBody .counted h) fun body => ?_
  refine .lift (follows_sees _) fun closed => ?_
  refine .lift (follows_closeBlock _ _ start).dropped fun _ => ?_
  have hend (closing : Option Ident) : BuildsAnew ρ
      (liftM (m := Step) do
        recordRegion .counted (← spanFrom start)
        return .counted header body closing)
      (liftM (m := Step) do
        recordRegion .counted (← spanFrom (start.recast ρ))
        return .counted (header.recast ρ) (body.map (Statement.recast ρ))
          (closing.map (Ident.recast ρ))) := by
    refine .lift (follows_spanFrom start) fun span => ?_
    refine .lift (follows_recordRegion _ span) fun _ => .done fun span => ?_
    rw [Statement.recast, Block.recast_eq]
  dsimp only [id]
  split
  · exact .lift (follows_closingName? header.name) hend
  · exact hend none

theorem follows_plainLoop (start : Span) (h : Parser.Follows ρ (Statement.recast ρ) p q) :
    BuildsAnew ρ (liftM (plainLoop p start)) (liftM (plainLoop q (start.recast ρ))) := by
  unfold plainLoop
  refine .lift (follows_loopBody .loop h) fun body => ?_
  refine .lift (follows_closeBlock _ _ start).dropped fun _ => ?_
  refine .lift (follows_spanFrom start) fun span => ?_
  refine .lift (follows_recordRegion _ span) fun _ => .done fun span => ?_
  rw [Statement.recast, Block.recast_eq]

/-! ## 5. Choices -/

theorem follows_caseArm (h : Parser.Follows ρ (Statement.recast ρ) p q) :
    Step.Follows ρ (CaseArm.recast ρ) (caseArm p) (caseArm q) := by
  refine follows_advance.bind fun token => ?_
  refine (follows_recover (Expr.recast_missing token.span).symm ?_).bind fun cond => ?_
  · exact follows_expression.bind fun cond => follows_expectSeparator.ask fun _ => .pure rfl
  refine (follows_block .caseArm h).bind fun body => (follows_spanFrom _).bind fun span => ?_
  refine (follows_recordRegion _ span).ask fun _ => .pure ?_
  rw [CaseArm.recast, CaseArm.body, CaseArm.cond, CaseArm.span]

theorem follows_choiceTurn (start : Span) (h : Parser.Follows ρ (Statement.recast ρ) p q)
    (found : Array CaseArm) :
    Step.Follows ρ (Turn.map (Array.map (CaseArm.recast ρ)) (List.map (CaseArm.recast ρ)))
      (choiceTurn p start found)
      (choiceTurn q (start.recast ρ) (found.map (CaseArm.recast ρ))) := by
  refine follows_skipNewlines.ask fun _ => (follows_sees _).ask fun another => ?_
  split
  · exact (follows_caseArm h).bind fun arm => .pure (congrArg Turn.again Array.map_push.symm)
  · refine (follows_sees _).ask fun closing => follows_nextKind.ask fun next => ?_
    split
    · refine follows_advance.dropped.ask fun _ => follows_advance.dropped.ask fun _ => ?_
      exact .pure (congrArg Turn.done Array.toList_map)
    · refine (follows_sees _).ask fun ended => ?_
      split
      · refine (follows_report rfl start).ask fun _ => ?_
        exact .pure (congrArg Turn.done Array.toList_map)
      · refine follows_current.bind fun token => (follows_report rfl token.span).ask fun _ => ?_
        exact (follows_skipWhile _).ask fun _ => .pure rfl

theorem follows_choiceArms (start : Span) (h : Parser.Follows ρ (Statement.recast ρ) p q) :
    Step.Follows ρ (List.map (CaseArm.recast ρ)) (choiceArms p start)
      (choiceArms q (start.recast ρ)) := by
  have hturns := Step.Follows.loop (g := Array.map (CaseArm.recast ρ)) (follows_choiceTurn start h)
    (fun _ => Array.toList_map) #[]
  rwa [Array.map_empty] at hturns

theorem follows_choice (start : Span) (h : Parser.Follows ρ (Statement.recast ρ) p q) :
    BuildsAnew ρ (choice p start) (choice q (start.recast ρ)) := by
  refine .ask (follows_expect _).dropped fun _ => .ask follows_expectSeparator fun _ => ?_
  refine .ask (.step follows_begin) fun _ => .bind (.step (follows_choiceArms start h)) ?_
  refine fun found => .bind (.step (follows_spanFrom start)) fun span => ?_
  refine .ask (.step (follows_recordRegion _ span)) fun _ => .pure fun span => ?_
  rw [Statement.recast, recastCases_eq]

/-! ## 6. Statements -/

theorem armsOptional_recast (test : Decision) :
    armsOptional (test.recast ρ) = armsOptional test := by
  cases test <;> rfl

theorem follows_decision {test test' : Parser Decision}
    (htest : Parser.Follows ρ (Decision.recast ρ) test test')
    (h : Parser.Follows ρ (Statement.recast ρ) p q) :
    BuildsAnew ρ (decision p test) (decision q test') := by
  refine .bind htest fun test => ?_
  rw [armsOptional_recast]
  refine .bind (follows_arms _ h) fun (thenArm, elseArm) => .pure fun span => ?_
  rw [Statement.recast, recastArm_eq, recastArm_eq]

theorem follows_action {f k : Parser Action} (h : Parser.Follows ρ (Action.recast ρ) f k) :
    BuildsAnew ρ (Statement.action <$> f) (Statement.action <$> k) := by
  rw [map_eq_pure_bind, map_eq_pure_bind]
  exact .bind h fun _ => .pure fun _ => rfl

theorem follows_statementAfter? (keyword : Token) (word : Keyword)
    (h : Parser.Follows ρ (Statement.recast ρ) p q) :
    Option.Rel (BuildsAnew ρ) (statementAfter? p keyword word)
      (statementAfter? q (keyword.recast ρ) word) := by
  unfold statementAfter?
  split
  · exact .some (follows_countedLoop keyword.span h)
  · exact .some (follows_plainLoop keyword.span h)
  · exact .some (follows_choice keyword.span h)
  · have hdecision : Option.Rel (Parser.Follows ρ _) _ _ := follows_decisionAfter? word
    have haction : Option.Rel (Parser.Follows ρ _) _ _ := follows_actionAfter? keyword word
    generalize decisionAfter? word = test at hdecision
    generalize actionAfter? keyword word = f at haction
    generalize actionAfter? (keyword.recast ρ) word = k at haction
    cases hdecision with
    | some htest => exact .some (follows_decision htest h)
    | none =>
      cases haction with
      | some hf => exact .some (follows_action hf)
      | none => exact .none

theorem follows_keywordStatement (keyword : Token) (word : Keyword)
    (h : Parser.Follows ρ (Statement.recast ρ) p q) :
    BuildsAnew ρ (keywordStatement p keyword word)
      (keywordStatement q (keyword.recast ρ) word) := by
  refine .ask (.step follows_nextKind) fun next => ?_
  split
  · exact follows_action follows_assignmentOrCall
  · have hafter := follows_statementAfter? keyword word h
    generalize statementAfter? p keyword word = f at hafter
    generalize statementAfter? q (keyword.recast ρ) word = k at hafter
    cases hafter with
    | some hf => exact .ask (Parser.Follows.step follows_advance).dropped fun _ => hf
    | none =>
      refine .failHere ?_
      rw [Token.describe_recast]
      rfl

/-- **Statements follow each other** if the statements within them do. -/
theorem follows_statementLayer (h : Parser.Follows ρ (Statement.recast ρ) p q) :
    Parser.Follows ρ (Statement.recast ρ) (statementLayer p) (statementLayer q) := by
  refine .take follows_current fun token => ?_
  have hfail : BuildsAnew ρ (failHere (.unexpectedToken "statement" token.describe))
      (failHere (.unexpectedToken "statement" (token.recast ρ).describe)) :=
    .failHere (by rw [Token.describe_recast]; rfl)
  have haction {f k : Parser Action} (hf : Parser.Follows ρ (Action.recast ρ) f k) :=
    follows_action hf token.span
  rw [Token.kind_recast]
  dsimp only
  split
  · refine .past follows_advance fun _ => .given ?_
    exact .take (follows_spanFrom token.span) fun _ => .pure rfl
  · refine .after follows_nextKind fun next => ?_
    split
    · exact haction follows_labelAction
    · exact haction follows_assignmentOrCall
  · exact haction follows_assignmentOrCall
  · exact haction follows_insertAction
  · exact follows_keywordStatement token _ h token.span
  · exact hfail token.span

end Statements

theorem follows_statement : Parser.Follows ρ (Statement.recast ρ) statement statement :=
  .nest fun _ _ h => follows_statementLayer h

end BasicCheck.Parse
