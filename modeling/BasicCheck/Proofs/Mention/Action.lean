import BasicCheck.Proofs.Mention.Expression
import BasicCheck.Proofs.Parse.Action

/-!
# The mentions of actions

Whatever is noted while an action is read is named in it (**`reads_actionAfter?`**): by a name
outside its expressions or within one of them. A declaration is refused only with an error, so that
a name is never dropped quietly.
-/

namespace BasicCheck

/-- The mentions of the identifiers of an action. -/
def Action.mentions (a : Action) : List Mention := a.idents.map Ident.mention

theorem Action.mentions_eq (a : Action) :
    a.mentions = a.names.map Ident.mention ++ a.expressions.flatMap Expr.mentions := by
  rw [mentions, idents, List.map_append, Expr.map_mention_flatMap]

namespace Mentions

open Parse SymbolTable

variable {s u : State} {I : Stretch → Prop} {js : List Mention}

/-! ## 1. Names -/

theorem tries_expectOnOrTo (hI : Lasting I) : Tries s I expectOnOrTo fun _ => I := by
  refine Tries.after (does_consume _ hI) fun _ u1 => ?_
  split
  · exact Tries.pure fun _ h => h
  · refine Tries.after (does_consume _ hI) fun _ u2 => ?_
    split
    · exact Tries.pure fun _ h => h
    · exact tries_failHere rfl

theorem tries_expectVariable :
    Tries s (Covers js) expectVariable fun t => Covers (js ++ [t.mention]) := by
  have hread (hword : s.current.kind.IsWord) :
      Tries s (Covers js) (liftM advance) fun t => Covers (js ++ [t.mention]) :=
    Tries.step ((does_mention hword).mono fun _ _ h => h.2)
  refine Tries.look (currentKind_eq s) ?_
  split
  · rename_i hk
    exact hread (by rw [hk]; decide)
  · rename_i hk
    exact hread (by rw [hk]; decide)
  · exact tries_failHere rfl

theorem reads_variableIdent (role : Role) : Reads (variableIdent role) fun i => [i.mention] := by
  intro s
  refine tries_expectVariable.bind fun t u1 => ?_
  exact Tries.after (does_noteVariable (t := t) (List.mem_singleton_self _)) fun _ _ =>
    Tries.pure fun _ h => h

theorem reads_labelIdent : Reads labelIdent fun i => [i.mention] := by
  intro s
  refine tries_expectIdent.bind fun t u1 => ?_
  exact Tries.after (does_noteLabel (t := t) (List.mem_singleton_self _)) fun _ _ =>
    Tries.pure fun _ h => h

/-! ## 2. Assignments and calls -/

theorem tries_labelAction (hk : s.current.kind = .ident) :
    Tries s (Covers []) labelAction fun a => Covers a.mentions := by
  have hword : s.current.kind.IsWord := by
    rw [hk]
    decide
  refine Tries.after ((does_mention hword).mono fun _ _ h => h.2) fun t u1 => ?_
  refine (Tries.step (does_advance lasting_covers)).dropped.bind fun _ u2 => ?_
  refine Tries.after (does_trySymbols (notesOnly_declareLabel t) (List.mem_singleton_self _))
    fun done u3 => ?_
  dsimp only
  split
  · exact Tries.pure fun _ h => h
  · exact Tries.after (does_report _ _ lasting_covers) fun _ _ => Tries.pure fun _ h => h

/-- The call of a routine whose name comes next. -/
theorem tries_subroutineCall (hk : s.current.kind = .ident) :
    Tries s (Covers []) subroutineCall fun a => Covers a.mentions := by
  have hword : s.current.kind.IsWord := by
    rw [hk]
    decide
  refine Tries.after ((does_mention hword).mono fun _ _ h => h.2) fun t u1 => ?_
  have hmem : t.mention ∈ ([] ++ [t.mention] : List Mention) := List.mem_singleton_self _
  have hcall (u : State) : Tries u (Covers ([] ++ [t.mention])) (do
      return Action.subroutineCall ⟨t.text, .functionName, t.span⟩ (← arguments))
      fun a => Covers a.mentions := by
    refine reads_arguments.covers.bind fun args _ => Tries.pure fun m h => ?_
    simpa [Action.mentions_eq, Action.names, Action.expressions] using h
  refine Tries.after (does_noteIfKnown .subroutine hmem) fun known u2 => ?_
  dsimp only
  split
  · exact hcall u2
  · refine Tries.after (does_noteIfKnown .function hmem) fun known u3 => ?_
    split
    · exact hcall u3
    · exact Tries.after (does_report _ _ lasting_covers) fun _ u4 => hcall u4

attribute [local simp] Action.mentions_eq Action.names Action.expressions

theorem reads_assignment : Reads assignment Action.mentions := by
  intro s
  refine (reads_target s).bind fun left u1 => Tries.look (looks_atStatementEnd u1) ?_
  split
  · exact Tries.pure fun m h => by simpa using h
  · refine Tries.look (currentKind_eq u1) ?_
    split
    · exact tries_failHere rfl
    · refine (Tries.step (does_advance lasting_covers)).dropped.bind fun _ u2 => ?_
      refine reads_expression.covers.bind fun value u3 => ?_
      split
      · exact Tries.pure fun m h => by simpa using h
      · exact Tries.pure fun m h => by simpa using h

theorem reads_assignmentOrCall : Reads assignmentOrCall Action.mentions := by
  intro s
  refine Tries.get (Tries.look (nextKind_eq s) ?_)
  split
  · rename_i hcall
    simp only [Bool.and_eq_true] at hcall
    exact tries_subroutineCall (eq_of_beq hcall.1.1)
  · exact reads_assignment s

theorem reads_callAction : Reads callAction Action.mentions := by
  intro s
  have hargs (name : Ident) (indirect : Bool) (u : State) : Tries u (Covers [name.mention]) (do
      let args ← if ← sees .leftParen then arguments else pure []
      return Action.call name args indirect) fun a => Covers a.mentions := by
    refine Tries.look (sees_eq u .leftParen) ?_
    dsimp only
    split
    · refine reads_arguments.covers.bind fun args _ => Tries.pure fun m h => ?_
      simpa using h
    · exact Tries.given (Tries.pure fun m h => by simpa using h)
  refine Tries.after (does_consume .atSign lasting_covers) fun indirect u1 => ?_
  dsimp only
  split
  · exact (reads_variableIdent .reference u1).bind fun name u2 => hargs name indirect u2
  · refine tries_expectIdent.bind fun t u2 => ?_
    refine Tries.after (does_noteCalled (t := t) (List.mem_singleton_self _)) fun _ u3 => ?_
    exact Tries.given (hargs ⟨t.text, .functionName, t.span⟩ indirect u3)

/-! ## 3. Control flow -/

theorem reads_loopCondition (keyword : Token) (test : LoopTest) :
    Reads (loopCondition keyword test) Action.mentions := by
  intro s
  have hcond (u : State) : Tries u (Covers []) (do
      let cond ← expression
      discard (liftM (consume (.keyword .DO)) : Parser Bool)
      return Action.loopCondition test cond) fun a => Covers a.mentions := by
    refine (reads_expression u).bind fun cond _ => ?_
    refine (Tries.step (does_consume _ lasting_covers)).dropped.bind fun _ _ =>
      Tries.pure fun m h => ?_
    simpa using h
  refine Tries.get ?_
  dsimp only
  split
  · exact Tries.after (does_report _ _ lasting_covers) fun _ u1 => hcond u1
  · exact hcond s

theorem reads_onJump : Reads onJump Action.mentions := by
  intro s
  refine (reads_expression s).bind fun selector u1 => ?_
  have hjump (jump : Jump) : Tries u1 (Covers selector.mentions) (do
      discard (liftM advance : Parser Token)
      return Action.onJump jump selector (← commaList labelIdent)) fun a => Covers a.mentions := by
    refine (Tries.step (does_advance lasting_covers)).dropped.bind fun _ u2 => ?_
    refine (reads_commaList reads_labelIdent).covers.bind fun labels _ => Tries.pure fun m h => ?_
    refine h.congr fun x => ?_
    simp [or_comm, eq_comm]
  refine Tries.look (currentKind_eq u1) ?_
  dsimp only
  split
  · exact Tries.given (hjump .goto)
  · exact Tries.given (hjump .gosub)
  · exact Tries.fails (p := failHere _) rfl rfl

theorem reads_optionalExpression :
    Reads optionalExpression fun e => e.toList.flatMap Expr.mentions := by
  intro s
  refine Tries.look (looks_atStatementEnd s) ?_
  split
  · exact Tries.pure fun _ h => h
  · exact (reads_expression s).bind fun e _ => Tries.pure fun m h => by simpa using h

theorem reads_expressionAfter? (word : Keyword) :
    Reads (expressionAfter? word) fun e => e.toList.flatMap Expr.mentions := by
  intro s
  refine Tries.after (does_consume _ lasting_covers) fun found u1 => ?_
  split
  · exact (reads_expression u1).bind fun e _ => Tries.pure fun m h => by simpa using h
  · exact Tries.pure fun _ h => h

/-! ## 4. Declarations -/

theorem does_declareAs (wanted : Declared) {t : Token} {declare : SymbolTable → Bool × SymbolTable}
    (hdeclare : NotesOnly (fun symbols => (declare symbols).2) t) (hmem : t.mention ∈ js) :
    Does s (Covers js) (declareAs wanted t declare) fun _ => Covers js := by
  refine Does.look (p := MonadState.get) rfl ?_
  split
  · exact does_report _ _ lasting_covers
  · exact (does_trySymbols hdeclare hmem).dropped

theorem reads_declaredRoutine (routine : Routine) :
    Reads (declaredRoutine routine) fun i => [i.mention] := by
  intro s
  refine Tries.look (current_eq s) ?_
  dsimp only
  split
  · rename_i hkind
    have hword := (Kind.isName_of_mayNameMember hkind).isWord
    have hread : Tries s (Covers []) (discard (liftM advance : Parser Token))
        fun _ => Covers [s.current.mention] := by
      refine Tries.dropped (Tries.step ((does_mention hword).mono ?_))
      rintro t m ⟨rfl, hm⟩
      exact hm
    refine hread.bind fun _ u1 => ?_
    have hdeclared {declare : SymbolTable → Bool × SymbolTable} {cause : Cause}
        (hdeclare : NotesOnly (fun symbols => (declare symbols).2) s.current) :
        Tries u1 (Covers [s.current.mention]) (do
          unless ← trySymbols declare do report cause s.current.span
          return (⟨s.current.text, .functionName, s.current.span⟩ : Ident))
          fun i => Covers [i.mention] := by
      refine Tries.after (does_trySymbols hdeclare (List.mem_singleton_self _)) fun done u2 => ?_
      dsimp only
      split
      · exact Tries.pure fun _ h => h
      · exact Tries.after (does_report _ _ lasting_covers) fun _ _ => Tries.pure fun _ h => h
    cases routine with
    | function => exact hdeclared (notesOnly_declare _ .function)
    | subroutine => exact hdeclared (notesOnly_declare _ .subroutine)
  · exact Tries.fails (p := throw _) rfl rfl

theorem reads_declareAction : Reads declareAction Action.mentions := by
  intro s
  have hnames (routine : Routine) : Tries s (Covers []) (do
      discard (liftM advance : Parser Token)
      return Action.declare routine (← commaList (declaredRoutine routine)))
      fun a => Covers a.mentions := by
    refine (Tries.step (does_advance lasting_covers)).dropped.bind fun _ u1 => ?_
    refine (reads_commaList (reads_declaredRoutine routine) u1).bind fun names _ =>
      Tries.pure fun m h => h.congr fun x => ?_
    simp [eq_comm]
  refine Tries.look (currentKind_eq s) ?_
  dsimp only
  split
  · exact Tries.given (hnames .function)
  · exact Tries.given (hnames .subroutine)
  · exact Tries.fails (p := failHere _) rfl rfl

theorem reads_equateAction : Reads equateAction Action.mentions := by
  intro s
  refine tries_expectVariable.bind fun t u1 => ?_
  refine (tries_expect _ lasting_covers).dropped.bind fun _ u2 => ?_
  refine reads_expression.covers.bind fun value u3 => ?_
  have hdeclare := notesOnly_declare t (.equate value)
  refine Tries.after (does_declareAs .equate hdeclare (by simp)) fun _ _ => Tries.pure fun m h => ?_
  simpa using h

theorem reads_commonBlockName? :
    Reads commonBlockName? fun name => name.toList.map Ident.mention := by
  intro s
  refine Tries.after (does_consume .slash lasting_covers) fun found u1 => ?_
  split
  · refine tries_expectIdent.bind fun t u2 => ?_
    refine (tries_expect _ lasting_covers).dropped.bind fun _ u3 => ?_
    have hdeclare := notesOnly_declare t .commonBlock
    refine Tries.after (does_trySymbols hdeclare (by simp)) fun done u4 => ?_
    dsimp only
    split
    · exact Tries.pure fun _ h => h
    · exact Tries.after (does_report _ _ lasting_covers) fun _ _ => Tries.pure fun _ h => h
  · exact Tries.pure fun _ h => h

/-- The mentions of a matrix and its size. -/
def mentionsOfDimension (d : Dimension) : List Mention :=
  d.name.mention :: d.expressions.flatMap Expr.mentions

/-- The mentions of a common variable and its size. -/
def mentionsOfItem (item : CommonItem) : List Mention :=
  item.name.mention :: (item.size.toList.flatMap Dimension.expressions).flatMap Expr.mentions

theorem reads_dimension : Reads dimension mentionsOfDimension := by
  intro s
  refine tries_expectVariable.bind fun t u1 => ?_
  refine (reads_rowAndColumn reads_primary t.span).covers.bind fun found u2 => ?_
  obtain ⟨rows, cols⟩ := found
  have hdeclare := notesOnly_declare t (.variable .own (.matrix (some rows) cols))
  refine Tries.after (does_declareAs .matrix hdeclare (by simp)) fun _ _ => Tries.pure fun m h => ?_
  simpa [mentionsOfDimension, Dimension.expressions] using h

/-- The mentions of a row and perhaps a column, if there are any. -/
def mentionsOfSize (size : Option (Expr × Option Expr)) : List Mention :=
  size.toList.flatMap fun found => found.1.mentions ++ found.2.toList.flatMap Expr.mentions

theorem reads_commonItem : Reads commonItem mentionsOfItem := by
  intro s
  refine tries_expectVariable.bind fun t u1 => ?_
  have hdeclared (size : Option (Expr × Option Expr)) {item : CommonItem}
      (hitem : mentionsOfItem item = t.mention :: mentionsOfSize size) (u : State) :
      Tries u (Covers (t.mention :: mentionsOfSize size)) (do
      declareAs .commonVariable t (·.declareCommonVariable t size)
      return item) fun item => Covers (mentionsOfItem item) := by
    have hdeclare : NotesOnly (fun symbols => (symbols.declareCommonVariable t size).2) t :=
      notesOnly_declare t _
    refine Tries.after (does_declareAs .commonVariable hdeclare (by simp)) fun _ _ =>
      Tries.pure fun m h => ?_
    rwa [hitem]
  refine Tries.look (sees_eq u1 .leftParen) ?_
  dsimp only
  split
  · have hsize : Tries u1 (Covers ([] ++ [t.mention])) (some <$> rowAndColumn primary t.span)
        fun size => Covers (t.mention :: mentionsOfSize size) := by
      refine Tries.map ((reads_rowAndColumn reads_primary t.span).covers.mono fun found m h => ?_)
      simpa [mentionsOfSize] using h
    refine hsize.bind fun size => hdeclared size ?_
    rcases size with _ | ⟨rows, cols⟩ <;>
      simp [mentionsOfItem, mentionsOfSize, Dimension.expressions]
  · exact Tries.given (hdeclared none (by simp [mentionsOfItem, mentionsOfSize]) u1)

theorem reads_commonAction : Reads commonAction Action.mentions := by
  intro s
  refine (reads_commonBlockName? s).bind fun block u1 => ?_
  refine (reads_commaList reads_commonItem).covers.bind fun items u2 => Tries.pure fun m h => ?_
  have hperm := List.map_append_flatMap_perm items (fun item => item.name.mention) fun item =>
    (item.size.toList.flatMap Dimension.expressions).flatMap Expr.mentions
  have hmentions : Action.mentions (.common block items) = block.toList.map Ident.mention ++
      (items.map (fun item => item.name.mention) ++ items.flatMap fun item =>
        (item.size.toList.flatMap Dimension.expressions).flatMap Expr.mentions) := by
    simp [Function.comp_def, List.flatMap_assoc]
  refine h.congr fun x => ?_
  rw [hmentions, List.mem_append, List.mem_append, hperm.mem_iff]
  rfl

theorem reads_dim : Reads (.dim <$> commaList dimension) Action.mentions := by
  intro s
  refine Tries.map ((reads_commaList reads_dimension s).mono fun ds m h => ?_)
  have hperm := List.map_append_flatMap_perm ds (fun d => d.name.mention) fun d =>
    d.expressions.flatMap Expr.mentions
  have hmentions : Action.mentions (.dim ds) =
      ds.map (fun d => d.name.mention) ++
        ds.flatMap fun d => d.expressions.flatMap Expr.mentions := by
    simp [Function.comp_def, List.flatMap_assoc]
  refine h.congr fun x => ?_
  rw [hmentions, hperm.mem_iff]
  rfl

theorem reads_matAction : Reads matAction Action.mentions := by
  intro s
  refine (reads_variableIdent .assignment s).bind fun name u1 => ?_
  have hvalue (u : State) : Tries u (Covers [name.mention]) (do
      discard (expect .equal)
      if ← consume (.keyword .MAT) then
        return Action.mat name (.variable (← variableIdent .reference))
      else return .mat name (← expression)) fun a => Covers a.mentions := by
    refine (tries_expect .equal lasting_covers).dropped.bind fun _ u2 => ?_
    refine Tries.after (does_consume _ lasting_covers) fun found u3 => ?_
    split
    · refine (reads_variableIdent .reference).covers.bind fun i _ => Tries.pure fun m h => ?_
      simpa using h
    · refine reads_expression.covers.bind fun e _ => Tries.pure fun m h => ?_
      simpa using h
  refine Tries.get ?_
  dsimp only
  split
  · exact hvalue u1
  · exact Tries.after (does_report _ _ lasting_covers) fun _ u2 => hvalue u2

theorem reads_insertAction : Reads insertAction Action.mentions := by
  intro s
  refine (Tries.step (does_advance lasting_covers)).dropped.bind fun _ u1 => ?_
  refine tries_expectIdent.bind fun t u2 => ?_
  refine Tries.after (does_trySymbols (notesOnly_declare t .insert) (by simp)) fun done u3 => ?_
  dsimp only
  split
  · exact Tries.pure fun _ h => h
  · exact Tries.after (does_report _ _ lasting_covers) fun _ _ => Tries.pure fun _ h => h

/-! ## 5. Dynamic arrays and files -/

theorem reads_swapAction : Reads swapAction Action.mentions := by
  intro s
  refine (reads_expression s).bind fun old u1 => ?_
  refine (tries_expect _ lasting_covers).dropped.bind fun _ u2 => ?_
  refine reads_expression.covers.bind fun new u3 => ?_
  refine (tries_expect _ lasting_covers).dropped.bind fun _ u4 => ?_
  refine reads_target.covers.bind fun left _ => Tries.pure fun m h => ?_
  simpa using h

theorem reads_convertAction : Reads convertAction Action.mentions := by
  intro s
  refine (reads_expression s).bind fun source u1 => ?_
  refine (tries_expect _ lasting_covers).dropped.bind fun _ u2 => ?_
  refine reads_expression.covers.bind fun result u3 => ?_
  refine (tries_expect _ lasting_covers).dropped.bind fun _ u4 => ?_
  refine reads_target.covers.bind fun left _ => Tries.pure fun m h => ?_
  simpa using h

theorem reads_transferAction : Reads transferAction Action.mentions := by
  intro s
  refine (reads_primary s).bind fun source u1 => ?_
  refine (tries_expect _ lasting_covers).dropped.bind fun _ u2 => ?_
  refine reads_target.covers.bind fun left _ => Tries.pure fun m h => ?_
  simpa using h

theorem reads_removeAction : Reads removeAction Action.mentions := by
  intro s
  refine (reads_target s).bind fun left u1 => ?_
  refine (tries_expect _ lasting_covers).dropped.bind fun _ u2 => ?_
  refine reads_expression.covers.bind fun source u3 => ?_
  refine (tries_expect _ lasting_covers).dropped.bind fun _ u4 => ?_
  refine reads_target.covers.bind fun position u5 => ?_
  refine (tries_expect _ lasting_covers).dropped.bind fun _ u6 => ?_
  refine reads_target.covers.bind fun flag _ => Tries.pure fun m h => ?_
  simpa using h

theorem reads_matParseAction : Reads matParseAction Action.mentions := by
  intro s
  refine (reads_expression s).bind fun source u1 => ?_
  refine (tries_expect _ lasting_covers).dropped.bind fun _ u2 => ?_
  refine (reads_variableIdent .assignment).covers.bind fun name u3 => ?_
  refine (reads_expressionAfter? .USING).covers.bind fun delimiter _ => Tries.pure fun m h => ?_
  refine h.congr fun x => ?_
  simp [or_left_comm]

theorem reads_osWriteAction : Reads osWriteAction Action.mentions := by
  intro s
  refine (reads_expression s).bind fun value u1 => ?_
  refine (tries_expectOnOrTo lasting_covers).bind fun _ u2 => ?_
  refine reads_expression.covers.bind fun path _ => Tries.pure fun m h => ?_
  simpa using h

theorem reads_osBReadAction : Reads osBReadAction Action.mentions := by
  intro s
  refine (reads_target s).bind fun left u1 => ?_
  refine (tries_expect _ lasting_covers).dropped.bind fun _ u2 => ?_
  refine reads_expression.covers.bind fun handle u3 => ?_
  refine (tries_expect _ lasting_covers).dropped.bind fun _ u4 => ?_
  refine reads_expression.covers.bind fun position u5 => ?_
  refine (tries_expect _ lasting_covers).dropped.bind fun _ u6 => ?_
  refine reads_expression.covers.bind fun length _ => Tries.pure fun m h => ?_
  simpa using h

theorem reads_osBWriteAction : Reads osBWriteAction Action.mentions := by
  intro s
  refine (reads_expression s).bind fun value u1 => ?_
  refine (tries_expectOnOrTo lasting_covers).bind fun _ u2 => ?_
  refine reads_expression.covers.bind fun handle u3 => ?_
  refine (tries_expect _ lasting_covers).dropped.bind fun _ u4 => ?_
  refine reads_expression.covers.bind fun position _ => Tries.pure fun m h => ?_
  simpa using h

/-! ## 6. The keywords of actions -/

/-- An action made of one part. -/
theorem reads_of {α : Type} {p : Parser α} {mentions : α → List Mention} (hp : Reads p mentions)
    {f : α → Action} (hf : ∀ a, (f a).mentions = mentions a) : Reads (f <$> p) Action.mentions :=
  fun s => Tries.map ((hp s).mono fun a m h => by rwa [hf])

theorem reads_pure {a : Action} (ha : a.mentions = []) : Reads (pure a) Action.mentions :=
  fun _ => Tries.pure fun m h => by rwa [ha]

/-- **Every action behind its keyword** names what is noted while it is read. -/
theorem reads_actionAfter? {keyword : Token} {word : Keyword} {p : Parser Action}
    (hp : actionAfter? keyword word = some p) : Reads p Action.mentions := by
  unfold actionAfter? at hp
  split at hp <;> cases hp
  · exact reads_loopCondition keyword .whileHolds
  · exact reads_loopCondition keyword .untilHolds
  · exact reads_of reads_labelIdent fun _ => rfl
  · exact reads_of reads_labelIdent fun _ => rfl
  · exact reads_onJump
  · exact reads_of reads_optionalExpression fun e => by simp
  · exact reads_callAction
  · exact reads_declareAction
  · exact reads_equateAction
  · exact reads_commonAction
  · exact reads_dim
  · exact reads_matAction
  · exact reads_of reads_expression fun e => by simp
  · exact reads_of reads_optionalExpression fun e => by simp
  · exact reads_swapAction
  · exact reads_convertAction
  · exact reads_transferAction
  · exact reads_removeAction
  · exact reads_matParseAction
  · exact reads_osWriteAction
  · exact reads_osBReadAction
  · exact reads_osBWriteAction
  · exact reads_of reads_expression fun e => by simp
  · exact reads_of reads_expression fun e => by simp
  · exact reads_of reads_expression fun e => by simp
  all_goals exact reads_pure rfl

end Mentions

end BasicCheck
