import BasicCheck.Proofs.Recast.Expression

/-!
# Actions that are written anew

Every reader of an action follows itself (**`follows_actionAfter?`**). A declaration is refused in
both states or in neither, for what keeps a name from being declared is looked up by its folded form
(`conflict?_recast`).
-/

namespace BasicCheck.Parse

variable {ρ : Recast}

/-! ## 1. Names -/

theorem follows_expectOnOrTo : Parser.Follows ρ id expectOnOrTo expectOnOrTo := by
  refine .after (follows_consume _) fun found => ?_
  split
  · exact .pure rfl
  · refine .after (follows_consume _) fun found => ?_
    split
    · exact .pure rfl
    · exact follows_failHere rfl

theorem follows_expectVariable :
    Parser.Follows ρ (Token.recast ρ) expectVariable expectVariable := by
  refine .after follows_currentKind fun kind => ?_
  split
  · exact .step follows_advance
  · exact .step follows_advance
  · exact follows_failHere rfl

theorem follows_variableIdent (role : Role) :
    Parser.Follows ρ (Ident.recast ρ) (variableIdent role) (variableIdent role) := by
  refine follows_expectVariable.bind fun token => ?_
  exact .after (follows_noteVariable token) fun _ => .pure rfl

theorem follows_labelIdent : Parser.Follows ρ (Ident.recast ρ) labelIdent labelIdent := by
  refine follows_expectIdent.bind fun token => ?_
  exact .after (follows_noteLabel token) fun _ => .pure rfl

/-! ## 2. Assignments and calls -/

theorem follows_labelAction : Parser.Follows ρ (Action.recast ρ) labelAction labelAction := by
  refine .take follows_advance fun token => ?_
  refine .past follows_advance fun _ => ?_
  refine .after (follows_trySymbols fun h => h.declareLabel token) fun done => ?_
  dsimp only
  split
  · exact .pure rfl
  · exact .after (follows_report rfl _) fun _ => .pure rfl

theorem follows_subroutineCall :
    Parser.Follows ρ (Action.recast ρ) subroutineCall subroutineCall := by
  refine .take follows_advance fun token => ?_
  have hcall : Parser.Follows ρ (Action.recast ρ)
      (do return .subroutineCall ⟨token.text, .functionName, token.span⟩ (← arguments))
      (do
        return .subroutineCall ⟨(token.recast ρ).text, .functionName, (token.recast ρ).span⟩
          (← arguments)) :=
    follows_arguments.bind fun args => .pure rfl
  refine .after (follows_noteIfKnown _ token) fun known => ?_
  dsimp only
  split
  · exact hcall
  · refine .after (follows_noteIfKnown _ token) fun known => ?_
    split
    · exact hcall
    · exact .after (follows_report rfl _) fun _ => hcall

theorem follows_assignment : Parser.Follows ρ (Action.recast ρ) assignment assignment := by
  refine follows_target.bind fun left => ?_
  refine .after follows_atStatementEnd fun ends => ?_
  rw [Expr.isMember_recast]
  split
  · exact .pure rfl
  · refine .after follows_currentKind fun kind => ?_
    cases AssignOp.ofKind? kind with
    | none => exact follows_failHere rfl
    | some op =>
      refine .past follows_advance fun _ => ?_
      refine follows_expression.bind fun value => ?_
      cases left with
      | matrixIndex name row col span =>
        cases op with
        | assign =>
          rw [Expr.recast, Expr.recastOption_eq]
          exact .pure rfl
        | _ => exact .pure rfl
      | _ => exact .pure rfl

theorem follows_assignmentOrCall :
    Parser.Follows ρ (Action.recast ρ) assignmentOrCall assignmentOrCall := by
  refine .get fun s t hs => .after follows_nextKind fun kind => ?_
  rw [hs.current, Token.kind_recast, Token.text_recast, hs.symbols.isMatrix]
  split
  · exact follows_subroutineCall
  · exact follows_assignment

theorem follows_callAction : Parser.Follows ρ (Action.recast ρ) callAction callAction := by
  refine .after (follows_consume _) fun indirect => ?_
  have hcall (name : Ident) : Parser.Follows ρ (Action.recast ρ)
      (do
        let args ← if ← sees .leftParen then arguments else pure []
        return .call name args indirect)
      (do
        let args ← if ← sees .leftParen then arguments else pure []
        return .call (name.recast ρ) args indirect) := by
    refine .after (follows_sees _) fun called => ?_
    split
    · exact follows_arguments.bind fun args => .pure rfl
    · exact .given (.pure rfl)
  split
  · exact (follows_variableIdent .reference).bind hcall
  · refine follows_expectIdent.bind fun token => ?_
    exact .after (follows_noteCalled token) fun _ => .given (hcall _)

/-! ## 3. Control flow -/

theorem follows_loopCondition (keyword : Token) (test : LoopTest) :
    Parser.Follows ρ (Action.recast ρ) (loopCondition keyword test)
      (loopCondition (keyword.recast ρ) test) := by
  have hrest : Parser.Follows ρ (Action.recast ρ)
      (do
        let cond ← expression
        discard <| consume (.keyword .DO)
        return .loopCondition test cond)
      (do
        let cond ← expression
        discard <| consume (.keyword .DO)
        return .loopCondition test cond) :=
    follows_expression.bind fun cond =>
      .past (follows_consume _) fun _ => .pure rfl
  refine .get fun s t hs => ?_
  rw [hs.loopDepth, Token.text_recast, Recast.capitalize_text]
  dsimp only
  split
  · exact .after (follows_report rfl _) fun _ => hrest
  · exact hrest

theorem follows_onJump : Parser.Follows ρ (Action.recast ρ) onJump onJump := by
  refine follows_expression.bind fun selector => ?_
  have hlabels (jump : Jump) : Parser.Follows ρ (Action.recast ρ)
      (do
        discard advance
        return .onJump jump selector (← commaList labelIdent))
      (do
        discard advance
        return .onJump jump (selector.recast ρ) (← commaList labelIdent)) :=
    .past follows_advance fun _ =>
      (follows_commaList follows_labelIdent).bind fun labels => .pure rfl
  refine .after follows_currentKind fun kind => ?_
  dsimp only
  split
  · exact .given (hlabels .goto)
  · exact .given (hlabels .gosub)
  · exact Parser.Follows.ask (follows_failHere rfl) hlabels

theorem follows_optionalExpression :
    Parser.Follows ρ (Option.map (Expr.recast ρ)) optionalExpression optionalExpression := by
  refine .after follows_atStatementEnd fun ends => ?_
  split
  · exact .pure rfl
  · exact follows_expression.bind fun e => .pure rfl

theorem follows_expressionAfter? (word : Keyword) :
    Parser.Follows ρ (Option.map (Expr.recast ρ)) (expressionAfter? word)
      (expressionAfter? word) := by
  refine .after (follows_consume _) fun found => ?_
  split
  · exact follows_expression.bind fun e => .pure rfl
  · exact .pure rfl

/-! ## 4. Declarations -/

theorem variablePhrase_recast (s : Symbol) : variablePhrase (s.recast ρ) = variablePhrase s := by
  rw [variablePhrase, variablePhrase, Symbol.scope?_recast, Symbol.isMatrix_recast]

/-- What keeps a name from being declared is written anew. -/
theorem conflict?_recast {table table' : SymbolTable} (h : table.Recasts ρ table') (token : Token)
    (wanted : Declared) :
    conflict? table' (token.recast ρ) wanted =
      (conflict? table token wanted).map (Cause.recast ρ) := by
  unfold conflict?
  simp only [Token.kind_recast, Token.text_recast, h.contains, h.lookup?]
  split
  · rfl
  · split
    · rfl
    · cases table.lookup? .variable token.text with
      | none =>
        simp only [Option.map_none]
        split <;> rfl
      | some s =>
        simp only [Option.map_some, Symbol.isMatrix_recast, Symbol.scope?_recast,
          variablePhrase_recast]
        split
        · rfl
        · split <;> rfl

theorem follows_declareAs (wanted : Declared) (token : Token)
    {f k : SymbolTable → Bool × SymbolTable}
    (hf : ∀ {table table'}, table.Recasts ρ table' →
      (k table').1 = (f table).1 ∧ (f table).2.Recasts ρ (k table').2) :
    Step.Follows ρ id (declareAs wanted token f) (declareAs wanted (token.recast ρ) k) := by
  refine Step.Follows.look fun s t hs => ?_
  rw [conflict?_recast hs.symbols]
  cases conflict? s.symbols token wanted with
  | some cause => exact follows_report rfl _
  | none => exact (follows_trySymbols hf).dropped

theorem follows_declaredRoutine (routine : Routine) :
    Parser.Follows ρ (Ident.recast ρ) (declaredRoutine routine) (declaredRoutine routine) := by
  refine .take follows_current fun token => ?_
  rw [Token.kind_recast]
  dsimp only
  split
  · refine .past follows_advance fun _ => ?_
    cases routine with
    | function =>
      refine .after (follows_trySymbols fun h => h.declare token .function)
        fun done => ?_
      split
      · exact .pure rfl
      · exact .after (follows_report rfl _) fun _ => .pure rfl
    | subroutine =>
      refine .after (follows_trySymbols fun h => h.declare token .subroutine)
        fun done => ?_
      split
      · exact .pure rfl
      · exact .after (follows_report rfl _) fun _ => .pure rfl
  · exact .throw rfl

theorem follows_declareAction : Parser.Follows ρ (Action.recast ρ) declareAction declareAction := by
  have hnames (routine : Routine) : Parser.Follows ρ (Action.recast ρ)
      (do
        discard advance
        return .declare routine (← commaList (declaredRoutine routine)))
      (do
        discard advance
        return .declare routine (← commaList (declaredRoutine routine))) :=
    .past follows_advance fun _ =>
      (follows_commaList (follows_declaredRoutine routine)).bind fun names => .pure rfl
  refine .after follows_currentKind fun kind => ?_
  dsimp only
  split
  · exact .given (hnames .function)
  · exact .given (hnames .subroutine)
  · exact Parser.Follows.ask (follows_failHere rfl) hnames

theorem follows_equateAction : Parser.Follows ρ (Action.recast ρ) equateAction equateAction := by
  refine follows_expectVariable.bind fun token => ?_
  refine (follows_expect _).dropped.ask fun _ => ?_
  refine follows_expression.bind fun value => ?_
  exact .after (follows_declareAs .equate token fun h =>
    h.declare token (.equate value)) fun _ => .pure rfl

theorem follows_commonBlockName? :
    Parser.Follows ρ (Option.map (Ident.recast ρ)) commonBlockName? commonBlockName? := by
  refine .after (follows_consume _) fun found => ?_
  split
  · refine follows_expectIdent.bind fun token => ?_
    refine (follows_expect _).dropped.ask fun _ => ?_
    refine .after (follows_trySymbols fun h => h.declare token .commonBlock)
      fun done => ?_
    dsimp only
    split
    · exact .pure rfl
    · exact .after (follows_report rfl _) fun _ => .pure rfl
  · exact .pure rfl

/-- A variable of a common block whose size has been read is declared. -/
theorem follows_declareItem (token : Token) (size : Option (Expr × Option Expr))
    {item item' : CommonItem} (hitem : item' = item.recast ρ) :
    Parser.Follows ρ (CommonItem.recast ρ)
      (do
        declareAs .commonVariable token (·.declareCommonVariable token size)
        return item)
      (do
        declareAs .commonVariable (token.recast ρ) (·.declareCommonVariable (token.recast ρ)
          (size.map (Prod.map (Expr.recast ρ) (Option.map (Expr.recast ρ)))))
        return item') := by
  refine .after (follows_declareAs .commonVariable token fun h => ?_) fun _ => .pure hitem
  rcases size with _ | ⟨rows, cols⟩
  · exact h.declare token (.variable .common .dynamic)
  · exact h.declare token (.variable .common (.matrix (some rows) cols))

theorem follows_commonItem : Parser.Follows ρ (CommonItem.recast ρ) commonItem commonItem := by
  refine follows_expectVariable.bind fun token => ?_
  refine .after (follows_sees _) fun sized => ?_
  dsimp only
  split
  · have hsize := (follows_rowAndColumn token.span follows_primary).map
      (f := some) (k := some)
      (h := Option.map (Prod.map (Expr.recast ρ) (Option.map (Expr.recast ρ))))
      fun _ => rfl
    refine hsize.bind fun size => follows_declareItem token size ?_
    rcases size with _ | ⟨rows, cols⟩ <;> rfl
  · exact .given (follows_declareItem token none rfl)

theorem follows_commonAction : Parser.Follows ρ (Action.recast ρ) commonAction commonAction := by
  refine follows_commonBlockName?.bind fun block => ?_
  exact (follows_commaList follows_commonItem).bind fun items => .pure rfl

theorem follows_dimension : Parser.Follows ρ (Dimension.recast ρ) dimension dimension := by
  refine follows_expectVariable.bind fun token => ?_
  refine (follows_rowAndColumn _ follows_primary).bind fun (rows, cols) => ?_
  exact .after (follows_declareAs .matrix token fun h =>
    h.declare token (.variable .own (.matrix (some rows) cols))) fun _ => .pure rfl

theorem follows_matAction : Parser.Follows ρ (Action.recast ρ) matAction matAction := by
  refine (follows_variableIdent .assignment).bind fun name => ?_
  have hvalue : Parser.Follows ρ (Action.recast ρ)
      (do
        discard <| expect .equal
        if ← consume (.keyword .MAT) then
          return .mat name (.variable (← variableIdent .reference))
        else return .mat name (← expression))
      (do
        discard <| expect .equal
        if ← consume (.keyword .MAT) then
          return .mat (name.recast ρ) (.variable (← variableIdent .reference))
        else return .mat (name.recast ρ) (← expression)) := by
    refine (follows_expect _).dropped.ask fun _ => ?_
    refine .after (follows_consume _) fun found => ?_
    split
    · exact (follows_variableIdent .reference).bind fun value => .pure rfl
    · exact follows_expression.bind fun value => .pure rfl
  refine .get fun s t hs => ?_
  rw [Ident.name_recast, hs.symbols.isMatrix]
  dsimp only
  split
  · exact hvalue
  · exact .after (follows_report rfl _) fun _ => hvalue

theorem follows_insertAction : Parser.Follows ρ (Action.recast ρ) insertAction insertAction := by
  refine .past follows_advance fun _ => ?_
  refine follows_expectIdent.bind fun token => ?_
  refine .after (follows_trySymbols fun h => h.declare token .insert) fun done => ?_
  dsimp only
  split
  · exact .pure rfl
  · exact .after (follows_report rfl _) fun _ => .pure rfl

/-! ## 5. Dynamic arrays and files -/

theorem follows_swapAction : Parser.Follows ρ (Action.recast ρ) swapAction swapAction := by
  refine follows_expression.bind fun old => (follows_expect _).dropped.ask fun _ => ?_
  refine follows_expression.bind fun new => (follows_expect _).dropped.ask fun _ => ?_
  exact follows_target.bind fun left => .pure rfl

theorem follows_convertAction : Parser.Follows ρ (Action.recast ρ) convertAction convertAction := by
  refine follows_expression.bind fun source => (follows_expect _).dropped.ask fun _ => ?_
  refine follows_expression.bind fun result => (follows_expect _).dropped.ask fun _ => ?_
  exact follows_target.bind fun left => .pure rfl

theorem follows_transferAction :
    Parser.Follows ρ (Action.recast ρ) transferAction transferAction := by
  refine follows_primary.bind fun source => (follows_expect _).dropped.ask fun _ => ?_
  exact follows_target.bind fun left => .pure rfl

theorem follows_removeAction : Parser.Follows ρ (Action.recast ρ) removeAction removeAction := by
  refine follows_target.bind fun left => (follows_expect _).dropped.ask fun _ => ?_
  refine follows_expression.bind fun source => (follows_expect _).dropped.ask fun _ => ?_
  refine follows_target.bind fun position => (follows_expect _).dropped.ask fun _ => ?_
  exact follows_target.bind fun flag => .pure rfl

theorem follows_matParseAction :
    Parser.Follows ρ (Action.recast ρ) matParseAction matParseAction := by
  refine follows_expression.bind fun source => (follows_expect _).dropped.ask fun _ => ?_
  refine (follows_variableIdent .assignment).bind fun name => ?_
  exact (follows_expressionAfter? _).bind fun delimiter => .pure rfl

theorem follows_osWriteAction : Parser.Follows ρ (Action.recast ρ) osWriteAction osWriteAction := by
  refine follows_expression.bind fun value => follows_expectOnOrTo.ask fun _ => ?_
  exact follows_expression.bind fun path => .pure rfl

theorem follows_osBReadAction : Parser.Follows ρ (Action.recast ρ) osBReadAction osBReadAction := by
  refine follows_target.bind fun left => (follows_expect _).dropped.ask fun _ => ?_
  refine follows_expression.bind fun handle => (follows_expect _).dropped.ask fun _ => ?_
  refine follows_expression.bind fun position => (follows_expect _).dropped.ask fun _ => ?_
  exact follows_expression.bind fun length => .pure rfl

theorem follows_osBWriteAction :
    Parser.Follows ρ (Action.recast ρ) osBWriteAction osBWriteAction := by
  refine follows_expression.bind fun value => follows_expectOnOrTo.ask fun _ => ?_
  refine follows_expression.bind fun handle => (follows_expect _).dropped.ask fun _ => ?_
  exact follows_expression.bind fun position => .pure rfl

/-! ## 6. The keywords of actions -/

/-- **Every action follows itself** behind its keyword. -/
theorem follows_actionAfter? (keyword : Token) (word : Keyword) :
    Option.Rel (Parser.Follows ρ (Action.recast ρ)) (actionAfter? keyword word)
      (actionAfter? (keyword.recast ρ) word) := by
  cases word with
  | WHILE => exact .some (follows_loopCondition keyword .whileHolds)
  | UNTIL => exact .some (follows_loopCondition keyword .untilHolds)
  | GOSUB => exact .some (follows_labelIdent.map fun _ => rfl)
  | GOTO => exact .some (follows_labelIdent.map fun _ => rfl)
  | ON => exact .some follows_onJump
  | RETURN => exact .some (follows_optionalExpression.map fun _ => rfl)
  | CALL => exact .some follows_callAction
  | DECLARE => exact .some follows_declareAction
  | EQU => exact .some follows_equateAction
  | COMMON => exact .some follows_commonAction
  | DIM => exact .some ((follows_commaList follows_dimension).map fun _ => rfl)
  | MAT => exact .some follows_matAction
  | SELECT => exact .some (follows_expression.map fun _ => rfl)
  | CLEARSELECT => exact .some (follows_optionalExpression.map fun _ => rfl)
  | SWAP => exact .some follows_swapAction
  | CONVERT => exact .some follows_convertAction
  | TRANSFER => exact .some follows_transferAction
  | REMOVE => exact .some follows_removeAction
  | MATPARSE => exact .some follows_matParseAction
  | OSWRITE => exact .some follows_osWriteAction
  | OSBREAD => exact .some follows_osBReadAction
  | OSBWRITE => exact .some follows_osBWriteAction
  | OSCLOSE => exact .some (follows_expression.map fun _ => rfl)
  | OSDELETE => exact .some (follows_expression.map fun _ => rfl)
  | INITRND => exact .some (follows_expression.map fun _ => rfl)
  | FLUSH | GARBAGECOLLECT | NULL | DEBUG | STOP | END => exact .some (.pure rfl)
  | _ => exact .none

end BasicCheck.Parse
