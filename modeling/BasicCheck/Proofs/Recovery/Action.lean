import BasicCheck.Proofs.Mention.Procedure
import BasicCheck.Proofs.Recovery.Expression

/-!
# Actions and decisions heed lines

No action and no decision reads a separator, whether it succeeds or fails: all of them behind their
keywords (**`careful_actionAfter?`**, **`careful_decisionAfter?`**), and those that open with a name
(`careful_assignmentOrCall`, `heeds_labelAction`). Nor do bounds of loops and parameters.
-/

namespace BasicCheck.Grammar

open Parse

variable {α : Type} {s u : State}

/-! ## 1. Names -/

theorem careful_expectOnOrTo : Careful expectOnOrTo := by
  intro s
  refine Heeds.after (walks_consume rfl) fun _ u1 _ => ?_
  split
  · exact .pure _
  · refine Heeds.after (walks_consume rfl) fun _ u2 _ => ?_
    split
    · exact .pure _
    · exact careful_failHere _ u2

theorem careful_expectVariable : Careful expectVariable := by
  intro s
  refine Heeds.look (currentKind_eq s) ?_
  split
  · rename_i hk
    exact heeds_advance (by rw [hk]; rfl)
  · rename_i hk
    exact heeds_advance (by rw [hk]; rfl)
  · exact careful_failHere _ s

theorem careful_variableIdent (role : Role) : Careful (variableIdent role) := fun s =>
  (careful_expectVariable s).bind fun t _ _ => Heeds.after (walks_noteVariable t) fun _ _ _ => .pure _

theorem careful_labelIdent : Careful labelIdent := fun s =>
  (careful_expectIdent s).bind fun t _ _ => Heeds.after (walks_noteLabel t) fun _ _ _ => .pure _

theorem goes_labelIdent (s : State) : Grammar.Tries s labelIdent fun _ _ => True :=
  (takes_labelIdent s).mono fun _ _ _ _ => trivial

/-- A change to the table of symbols that is reported if it is not possible. -/
theorem heeds_unless {f : SymbolTable → Bool × SymbolTable} {cause : Cause} {span : Span} {a : α}
    (hf : s.symbols.Follows (f s.symbols).2) : Heeds s (do
      unless ← trySymbols f do report cause span
      return a) := by
  refine Heeds.after (walks_trySymbols hf) fun done u _ => ?_
  dsimp only
  split
  · exact .pure _
  · exact Heeds.after (walks_report _ _) fun _ _ _ => .pure _

/-! ## 2. Assignments and calls -/

/-- A label whose colon comes behind it. -/
theorem heeds_labelAction (hk : s.current.kind = .ident)
    (hcolon : (s.next?.map (·.kind)).getD .endOfFile = .colon) : Heeds s labelAction := by
  have hword : s.current.kind.IsWord := by
    rw [hk]
    decide
  have hname : SameLine s s.advance.2 := .advance (by rw [hk]; rfl)
  intro hs
  have hsign : s.advance.2.current.kind.isSeparator = false := by
    rw [Mentions.current_advance hs.ended hword, hcolon]
    rfl
  unfold labelAction
  rw [run_advance_bind]
  refine Ends.after hname ((heeds_skip hsign).bind (fun _ u _ => ?_) (hname.past.regular hs))
  exact heeds_unless (SymbolTable.follows_declareLabel _ _)

theorem heeds_subroutineCall (hk : s.current.kind = .ident) : Heeds s subroutineCall := by
  have hcall (name : Ident) (u : State) : Heeds u (do
      return Action.subroutineCall name (← arguments)) :=
    (careful_arguments u).bind fun _ _ _ => .pure _
  refine (heeds_advance (by rw [hk]; rfl)).bind fun token u1 _ => ?_
  refine Heeds.after (walks_noteIfKnown .subroutine _) fun known u2 _ => ?_
  dsimp only
  split
  · exact hcall _ u2
  · refine Heeds.after (walks_noteIfKnown .function _) fun known u3 _ => ?_
    split
    · exact hcall _ u3
    · exact Heeds.after (walks_report _ _) fun _ u4 _ => hcall _ u4

theorem careful_assignment : Careful assignment := by
  intro s
  refine (careful_target s).bind fun left u1 _ => Heeds.look (looks_atStatementEnd u1) ?_
  split
  · exact .pure _
  · refine Heeds.look (currentKind_eq u1) ?_
    split
    · exact careful_failHere _ u1
    · rename_i op hop
      have hsign : u1.current.kind.isSeparator = false := by
        revert hop
        cases u1.current.kind <;> first | exact fun _ => rfl | exact nofun
      refine (heeds_skip hsign).bind fun _ u2 _ => (careful_expression u2).bind fun value u3 _ => ?_
      split <;> exact .pure _

theorem careful_assignmentOrCall : Careful assignmentOrCall := by
  intro s
  refine Heeds.get (Heeds.look (nextKind_eq s) ?_)
  split
  · rename_i hcall
    simp only [Bool.and_eq_true] at hcall
    exact heeds_subroutineCall (eq_of_beq hcall.1.1)
  · exact careful_assignment s

theorem careful_callAction : Careful callAction := by
  intro s
  have hargs (name : Ident) (indirect : Bool) (u : State) : Heeds u (do
      let args ← if ← sees .leftParen then arguments else pure []
      return Action.call name args indirect) := by
    refine Heeds.look (sees_eq u .leftParen) ?_
    dsimp only
    split
    · exact (careful_arguments u).bind fun _ _ _ => .pure _
    · exact Heeds.given (.pure _)
  refine Heeds.after (walks_consume rfl) fun indirect u1 _ => ?_
  dsimp only
  split
  · exact (careful_variableIdent .reference u1).bind fun name u2 _ => hargs name _ u2
  · refine (careful_expectIdent u1).bind fun t u2 _ => ?_
    exact Heeds.after (walks_noteCalled t) fun _ u3 _ => Heeds.given (hargs _ _ u3)

/-! ## 3. Control flow -/

theorem careful_loopCondition (keyword : Token) (test : LoopTest) :
    Careful (loopCondition keyword test) := by
  intro s
  have hcond (u : State) : Heeds u (do
      let cond ← expression
      discard (liftM (consume (.keyword .DO)) : Parser Bool)
      return Action.loopCondition test cond) := by
    refine (careful_expression u).bind fun cond v _ => ?_
    exact (Heeds.step (walks_consume rfl)).dropped.bind fun _ _ _ => .pure _
  refine Heeds.get ?_
  dsimp only
  split
  · exact Heeds.after (walks_report _ _) fun _ u _ => hcond u
  · exact hcond s

theorem careful_onJump : Careful onJump := by
  intro s
  refine (careful_expression s).bind fun selector u1 _ => ?_
  have hjump (jump : Jump) (hk : u1.current.kind.isSeparator = false) : Heeds u1 (do
      discard (liftM advance : Parser Token)
      return Action.onJump jump selector (← commaList labelIdent)) :=
    (heeds_skip hk).bind fun _ u2 _ =>
      (careful_commaList careful_labelIdent goes_labelIdent u2).bind fun _ _ _ => .pure _
  refine Heeds.look (currentKind_eq u1) ?_
  dsimp only
  split
  · rename_i hk
    exact Heeds.given (hjump .goto (by rw [hk]; rfl))
  · rename_i hk
    exact Heeds.given (hjump .gosub (by rw [hk]; rfl))
  · exact Heeds.fails (p := failHere _) rfl rfl

theorem careful_optionalExpression : Careful optionalExpression := by
  intro s
  refine Heeds.look (looks_atStatementEnd s) ?_
  split
  · exact .pure _
  · exact (careful_expression s).bind fun _ _ _ => .pure _

theorem careful_expressionAfter? (word : Keyword) : Careful (expressionAfter? word) := by
  intro s
  refine Heeds.after (walks_consume rfl) fun found u _ => ?_
  split
  · exact (careful_expression u).bind fun _ _ _ => .pure _
  · exact .pure _

/-! ## 4. Declarations -/

theorem walks_declareAs (wanted : Declared) {t : Token} {f : SymbolTable → Bool × SymbolTable}
    (hf : ∀ symbols, SymbolTable.Follows symbols (f symbols).2) : Walks s (declareAs wanted t f) := by
  refine Walks.look (p := MonadState.get) rfl ?_
  split
  · exact walks_report _ _
  · exact (walks_trySymbols (hf _)).dropped

theorem careful_declaredRoutine (routine : Routine) : Careful (declaredRoutine routine) := by
  intro s
  refine Heeds.look (current_eq s) ?_
  dsimp only
  split
  · rename_i hkind
    refine (heeds_skip (Kind.isName_of_mayNameMember hkind).not_isSeparator).bind fun _ u _ => ?_
    cases routine with
    | function => exact heeds_unless (SymbolTable.follows_declare _ _ _)
    | subroutine => exact heeds_unless (SymbolTable.follows_declare _ _ _)
  · exact Heeds.fails (p := throw _) rfl rfl

theorem careful_declareAction : Careful declareAction := by
  intro s
  have hnames (routine : Routine) (hk : s.current.kind.isSeparator = false) : Heeds s (do
      discard (liftM advance : Parser Token)
      return Action.declare routine (← commaList (declaredRoutine routine))) := by
    refine (heeds_skip hk).bind fun _ u _ => ?_
    refine (careful_commaList (careful_declaredRoutine routine) (fun s => ?_) u).bind
      fun _ _ _ => .pure _
    exact (takes_declaredRoutine routine s).mono fun _ _ _ _ => trivial
  refine Heeds.look (currentKind_eq s) ?_
  dsimp only
  split
  · rename_i hk
    exact Heeds.given (hnames .function (by rw [hk]; rfl))
  · rename_i hk
    exact Heeds.given (hnames .subroutine (by rw [hk]; rfl))
  · exact Heeds.fails (p := failHere _) rfl rfl

theorem careful_equateAction : Careful equateAction := by
  intro s
  refine (careful_expectVariable s).bind fun t _ _ => (heeds_expected rfl).bind fun _ u _ => ?_
  refine (careful_expression u).bind fun value _ _ => ?_
  exact Heeds.after (walks_declareAs _ fun symbols => SymbolTable.follows_declare symbols t _)
    fun _ _ _ => .pure _

theorem careful_commonBlockName? : Careful commonBlockName? := by
  intro s
  refine Heeds.after (walks_consume rfl) fun found u1 _ => ?_
  split
  · refine (careful_expectIdent u1).bind fun t _ _ => (heeds_expected rfl).bind fun _ u3 _ => ?_
    exact heeds_unless (SymbolTable.follows_declare _ t _)
  · exact .pure _

theorem careful_size (start : Span) : Careful (rowAndColumn primary start) :=
  careful_rowAndColumn derives_primary careful_primary start

theorem careful_commonItem : Careful commonItem := by
  intro s
  refine (careful_expectVariable s).bind fun t u1 _ => ?_
  have hdeclared (size : Option (Expr × Option Expr)) (item : CommonItem) (u : State) :
      Heeds u (do
        declareAs .commonVariable t (·.declareCommonVariable t size)
        return item) :=
    Heeds.after (walks_declareAs _ fun symbols => SymbolTable.follows_declare symbols t _)
      fun _ _ _ => .pure _
  refine Heeds.look (sees_eq u1 .leftParen) ?_
  dsimp only
  split
  · exact (Heeds.map some (careful_size t.span u1)).bind fun size u _ => hdeclared size _ u
  · exact Heeds.given (hdeclared none _ u1)

theorem careful_commonAction : Careful commonAction := fun s =>
  (careful_commonBlockName? s).bind fun _ u _ =>
    (careful_commaList careful_commonItem (fun s => (takes_commonItem s).mono fun _ _ _ _ => trivial)
      u).bind fun _ _ _ => .pure _

theorem careful_dimension : Careful dimension := by
  intro s
  refine (careful_expectVariable s).bind fun t u1 _ => ?_
  refine (careful_size t.span u1).bind fun found u2 _ => ?_
  exact Heeds.after (walks_declareAs _ fun symbols => SymbolTable.follows_declare symbols t _)
    fun _ _ _ => .pure _

theorem careful_matAction : Careful matAction := by
  intro s
  refine (careful_variableIdent .assignment s).bind fun name u1 _ => ?_
  have hvalue (u : State) : Heeds u (do
      discard (expect .equal)
      if ← consume (.keyword .MAT) then
        return Action.mat name (.variable (← variableIdent .reference))
      else return .mat name (← expression)) := by
    refine (heeds_expected rfl).bind fun _ v _ => Heeds.after (walks_consume rfl) fun found w _ => ?_
    split
    · exact (careful_variableIdent .reference w).bind fun _ _ _ => .pure _
    · exact (careful_expression w).bind fun _ _ _ => .pure _
  refine Heeds.get ?_
  dsimp only
  split
  · exact hvalue u1
  · exact Heeds.after (walks_report _ _) fun _ u2 _ => hvalue u2

/-- An insert, the directive of which comes next. -/
theorem heeds_insertAction (hk : s.current.kind = .insertDirective) : Heeds s insertAction := by
  refine (heeds_skip (by rw [hk]; rfl)).bind fun _ u1 _ => ?_
  refine (careful_expectIdent u1).bind fun t u2 _ => ?_
  exact heeds_unless (SymbolTable.follows_declare _ t _)

/-! ## 5. Dynamic arrays and files -/

theorem careful_swapAction : Careful swapAction := by
  intro s
  refine (careful_expression s).bind fun _ _ _ => (heeds_expected rfl).bind fun _ u _ => ?_
  refine (careful_expression u).bind fun _ _ _ => (heeds_expected rfl).bind fun _ v _ => ?_
  exact (careful_target v).bind fun _ _ _ => .pure _

theorem careful_convertAction : Careful convertAction := by
  intro s
  refine (careful_expression s).bind fun _ _ _ => (heeds_expected rfl).bind fun _ u _ => ?_
  refine (careful_expression u).bind fun _ _ _ => (heeds_expected rfl).bind fun _ v _ => ?_
  exact (careful_target v).bind fun _ _ _ => .pure _

theorem careful_transferAction : Careful transferAction := by
  intro s
  refine (careful_primary s).bind fun _ _ _ => (heeds_expected rfl).bind fun _ u _ => ?_
  exact (careful_target u).bind fun _ _ _ => .pure _

theorem careful_removeAction : Careful removeAction := by
  intro s
  refine (careful_target s).bind fun _ _ _ => (heeds_expected rfl).bind fun _ u _ => ?_
  refine (careful_expression u).bind fun _ _ _ => (heeds_expected rfl).bind fun _ v _ => ?_
  refine (careful_target v).bind fun _ _ _ => (heeds_expected rfl).bind fun _ w _ => ?_
  exact (careful_target w).bind fun _ _ _ => .pure _

theorem careful_matParseAction : Careful matParseAction := by
  intro s
  refine (careful_expression s).bind fun _ _ _ => (heeds_expected rfl).bind fun _ u _ => ?_
  refine (careful_variableIdent .assignment u).bind fun _ v _ => ?_
  exact (careful_expressionAfter? .USING v).bind fun _ _ _ => .pure _

theorem careful_osWriteAction : Careful osWriteAction := by
  intro s
  refine (careful_expression s).bind fun _ t _ => (careful_expectOnOrTo t).bind fun _ u _ => ?_
  exact (careful_expression u).bind fun _ _ _ => .pure _

theorem careful_osBReadAction : Careful osBReadAction := by
  intro s
  refine (careful_target s).bind fun _ _ _ => (heeds_expected rfl).bind fun _ u _ => ?_
  refine (careful_expression u).bind fun _ _ _ => (heeds_expected rfl).bind fun _ v _ => ?_
  refine (careful_expression v).bind fun _ _ _ => (heeds_expected rfl).bind fun _ w _ => ?_
  exact (careful_expression w).bind fun _ _ _ => .pure _

theorem careful_osBWriteAction : Careful osBWriteAction := by
  intro s
  refine (careful_expression s).bind fun _ t _ => (careful_expectOnOrTo t).bind fun _ u _ => ?_
  refine (careful_expression u).bind fun _ _ _ => (heeds_expected rfl).bind fun _ v _ => ?_
  exact (careful_expression v).bind fun _ _ _ => .pure _

/-! ## 6. The keywords of actions -/

theorem careful_map {p : Parser α} {β : Type} (f : α → β) (hp : Careful p) : Careful (f <$> p) :=
  fun s => (hp s).map f

/-- **Every action behind its keyword** heeds lines. -/
theorem careful_actionAfter? {keyword : Token} {word : Keyword} {p : Parser Action}
    (hp : actionAfter? keyword word = some p) : Careful p := by
  unfold actionAfter? at hp
  split at hp <;> cases hp
  · exact careful_loopCondition keyword .whileHolds
  · exact careful_loopCondition keyword .untilHolds
  · exact careful_map _ careful_labelIdent
  · exact careful_map _ careful_labelIdent
  · exact careful_onJump
  · exact careful_map _ careful_optionalExpression
  · exact careful_callAction
  · exact careful_declareAction
  · exact careful_equateAction
  · exact careful_commonAction
  · exact careful_map _ (careful_commaList careful_dimension fun s =>
      (takes_dimension s).mono fun _ _ _ _ => trivial)
  · exact careful_matAction
  · exact careful_map _ careful_expression
  · exact careful_map _ careful_optionalExpression
  · exact careful_swapAction
  · exact careful_convertAction
  · exact careful_transferAction
  · exact careful_removeAction
  · exact careful_matParseAction
  · exact careful_osWriteAction
  · exact careful_osBReadAction
  · exact careful_osBWriteAction
  · exact careful_map _ careful_expression
  · exact careful_map _ careful_expression
  · exact careful_map _ careful_expression
  all_goals exact fun _ => .pure _

/-! ## 7. Decisions -/

theorem careful_fileAndKey : Careful fileAndKey := by
  intro s
  refine (careful_expression s).bind fun _ _ _ => (heeds_expected rfl).bind fun _ u _ => ?_
  exact (careful_expression u).bind fun _ _ _ => .pure _

theorem careful_columnIf (wanted : Bool) : Careful (columnIf wanted) := by
  intro s
  unfold columnIf
  split
  · exact (heeds_expected rfl).bind fun _ u _ => (careful_expression u).bind fun _ _ _ => .pure _
  · exact .pure _

theorem careful_readDecision (form : ReadForm) : Careful (readDecision form) := by
  intro s
  refine (careful_target s).bind fun _ _ _ => (heeds_expected rfl).bind fun _ u _ => ?_
  refine (careful_fileAndKey u).bind fun _ v _ => ?_
  exact (careful_columnIf _ v).bind fun _ _ _ => .pure _

theorem careful_writeDecision (form : WriteForm) : Careful (writeDecision form) := by
  intro s
  refine (careful_expression s).bind fun _ t _ => (careful_expectOnOrTo t).bind fun _ u _ => ?_
  refine (careful_fileAndKey u).bind fun _ v _ => ?_
  exact (careful_columnIf _ v).bind fun _ _ _ => .pure _

theorem careful_matReadDecision : Careful matReadDecision := by
  intro s
  refine (careful_variableIdent .assignment s).bind fun _ _ _ => ?_
  exact (heeds_expected rfl).bind fun _ u _ => (careful_fileAndKey u).bind fun _ _ _ => .pure _

theorem careful_matWriteDecision : Careful matWriteDecision := by
  intro s
  refine (careful_variableIdent .reference s).bind fun _ t _ => ?_
  exact (careful_expectOnOrTo t).bind fun _ u _ => (careful_fileAndKey u).bind fun _ _ _ => .pure _

theorem careful_readNextDecision : Careful readNextDecision := fun s =>
  (careful_target s).bind fun _ u _ => (careful_expressionAfter? .USING u).bind fun _ _ _ => .pure _

theorem careful_openDecision : Careful openDecision := by
  intro s
  have hto {build : Expr → Parser Decision} (hbuild : ∀ handle v, Heeds v (build handle))
      (u : State) : Heeds u (do
        discard (expect (.keyword .TO))
        let handle ← target
        build handle) :=
    (heeds_expected rfl).bind fun _ v _ => (careful_target v).bind fun handle w _ => hbuild handle w
  refine (careful_expression s).bind fun first u1 _ => ?_
  refine Heeds.after (walks_consume rfl) fun found u2 _ => ?_
  dsimp only
  split
  · refine ((careful_expression u2).map some).bind fun second v _ => hto (fun handle w => ?_) v
    cases second <;> exact .pure _
  · exact Heeds.given (hto (fun handle w => .pure _) u2)

theorem careful_optionTurn (found : Option Expr × Option Expr) : Careful (optionTurn found) := by
  intro s
  obtain ⟨delimiter, order⟩ := found
  refine Heeds.after (walks_consume rfl) fun isUsing u1 _ => ?_
  split
  · exact (careful_expression u1).bind fun _ _ _ => .pure _
  · refine Heeds.after (walks_consume rfl) fun isBy u2 _ => ?_
    split
    · exact (careful_expression u2).bind fun _ _ _ => .pure _
    · exact .pure _

theorem careful_searchOptions : Careful searchOptions := fun s =>
  Heeds.tryLoop optionTurn careful_optionTurn (J := Searched s) (.start s)
    fun found _ _ h => Goes.proceeds (tries_optionTurn found h)

theorem careful_locateDecision : Careful locateDecision := by
  intro s
  refine (careful_expression s).bind fun _ _ _ => (heeds_expected rfl).bind fun _ u _ => ?_
  refine (careful_expression u).bind fun _ v _ => (careful_searchOptions v).bind fun _ _ _ => ?_
  exact (heeds_expected rfl).bind fun _ w _ => (careful_target w).bind fun _ _ _ => .pure _

theorem careful_osReadDecision : Careful osReadDecision := by
  intro s
  refine (careful_target s).bind fun _ _ _ => (heeds_expected rfl).bind fun _ u _ => ?_
  exact (careful_expression u).bind fun _ _ _ => .pure _

theorem careful_osOpenDecision : Careful osOpenDecision := by
  intro s
  refine (careful_expression s).bind fun _ _ _ => (heeds_expected rfl).bind fun _ u _ => ?_
  exact (careful_target u).bind fun _ _ _ => .pure _

/-- **Every decision behind its keyword** heeds lines. -/
theorem careful_decisionAfter? {word : Keyword} {p : Parser Decision}
    (hp : decisionAfter? word = some p) : Careful p := by
  unfold decisionAfter? at hp
  split at hp <;> cases hp
  · exact careful_map _ careful_expression
  · exact careful_readDecision .read
  · exact careful_readDecision .readU
  · exact careful_readDecision .readO
  · exact careful_readDecision .readV
  · exact careful_matReadDecision
  · exact careful_readNextDecision
  · exact careful_writeDecision .write
  · exact careful_writeDecision .writeU
  · exact careful_writeDecision .writeV
  · exact careful_matWriteDecision
  · exact careful_openDecision
  · exact careful_map _ careful_fileAndKey
  · exact careful_map _ careful_fileAndKey
  · exact careful_map _ careful_fileAndKey
  · exact careful_locateDecision
  · exact careful_osReadDecision
  · exact careful_osOpenDecision

/-- The bounds of a counting loop. -/
theorem careful_bounds : Careful bounds := by
  intro s
  refine (heeds_expected rfl).bind fun _ t _ => (careful_expression t).bind fun _ _ _ => ?_
  refine (heeds_expected rfl).bind fun _ u _ => (careful_expression u).bind fun _ v _ => ?_
  exact (careful_expressionAfter? .STEP v).bind fun _ _ _ => .pure _

/-! ## 8. The ends of constructs -/

theorem walks_closeBlock (terminator : Keyword) (construct : String) (start : Span) :
    Walks s (closeBlock terminator construct start) := by
  refine Walks.look (sees_eq s _) ?_
  split
  · rename_i hk
    exact (walks_advance (by rw [eq_of_beq hk]; rfl)).bind fun _ _ _ => .pure _
  · exact (walks_report _ _).bind fun _ _ _ => Walks.look (p := MonadState.get) rfl (.pure _)

theorem walks_closingName? (name : Ident) : Walks s (closingName? name) := by
  refine Walks.look (sees_eq s _) ?_
  split
  · rename_i hk
    refine (walks_advance (by rw [eq_of_beq hk]; rfl)).bind fun token u _ => ?_
    refine (walks_noteVariable token).bind fun _ v _ => ?_
    dsimp only
    split
    · exact (walks_report _ _).bind fun _ _ _ => .pure _
    · exact .pure _
  · exact .pure _

/-! ## 9. Parameters -/

theorem careful_parameterTurn (found : Array Parameter) : Careful (parameterTurn found) := by
  intro s
  refine Heeds.look (sees_eq s .rightParen) ?_
  split
  · exact .pure _
  · refine Heeds.after (walks_consume rfl) fun isMatrix _ _ => ?_
    refine (careful_expectIdent _).bind fun t u _ => ?_
    have hend (found : Array Parameter) (v : State) : Heeds v (do
        if ← consume .comma then return .again found
        else return .done found.toList : Parser (Turn (Array Parameter) (List Parameter))) := by
      refine Heeds.after (walks_consume rfl) fun _ w _ => ?_
      split <;> exact .pure _
    refine Heeds.after (walks_trySymbols (SymbolTable.follows_declare _ t _)) fun done v _ => ?_
    dsimp only
    split
    · exact hend _ v
    · exact Heeds.after (walks_report _ _) fun _ w _ => hend _ w

theorem careful_parameters : Careful parameters := by
  intro s
  refine Heeds.after (walks_consume rfl) fun found u _ => ?_
  split
  · refine (Heeds.tryLoop parameterTurn careful_parameterTurn (s := u)
      (J := fun _ _ => True) trivial fun found v _ _ => proceeds_parameterTurn found).bind
        fun found v _ => ?_
    exact (heeds_expected rfl).bind fun _ _ _ => .pure _
  · exact .pure _

end BasicCheck.Grammar
