import BasicCheck.Proofs.Recast.Step

/-!
# Expressions that are written anew

Whatever reads an expression follows itself (**`follows_expression`**, **`follows_target`**), given
that the operands within it do (`follows_primaryLayer`). An attempt at an index list that is taken
back leads back to states that are written anew, because the states before it are
(`State.Recasts.takeBack`).
-/

namespace BasicCheck.Parse

variable {ρ : Recast}

/-! ## 1. Going back -/

/-- Attempts are taken back alike if the states before them are alike. -/
theorem State.Recasts.takeBack {s t u v : State} (hs : s.Recasts ρ t) (hu : u.Recasts ρ v)
    (before before' : Reading) :
    (u.takeBack s.snapshot before).Recasts ρ (v.takeBack t.snapshot before') := by
  have hdiagnostics : t.diagnostics.size = s.diagnostics.size := by
    have hsizes := congrArg Array.size hs.diagnostics
    rwa [Array.size_map, Array.size_map] at hsizes
  exact { hu with
    rest := hs.rest
    last := hs.last
    split := rfl
    symbols := by
      show (u.symbols.rollback s.symbols.checkpoint).Recasts ρ
        (v.symbols.rollback t.symbols.checkpoint)
      rw [hs.symbols.checkpoint]
      exact hu.symbols.rollback _
    diagnostics := by
      show (v.diagnostics.take t.diagnostics.size).map (Diagnostic.reworded ρ) =
        (u.diagnostics.take s.diagnostics.size).map (Diagnostic.recast ρ)
      simp only [Array.take_eq_extract, Array.map_extract, hu.diagnostics, hdiagnostics]
    regions := by
      show v.regions.take t.regions.size = (u.regions.take s.regions.size).map (Region.recast ρ)
      simp only [Array.take_eq_extract, Array.map_extract, hu.regions, hs.regions, Array.size_map]
    suits := hs.suits
    halves := nofun }

theorem follows_splitGreaterEqual : Step.Follows ρ id splitGreaterEqual splitGreaterEqual := by
  intro s t hs
  have hgreater : t.current.kind = .greaterEqual ∧ t.current.text = ">=" ↔
      s.current.kind = .greaterEqual ∧ s.current.text = ">=" := by
    rw [hs.current, Token.kind_recast, Token.text_recast, ρ.text_eq_iff (by decide)]
  unfold splitGreaterEqual
  simp only [hgreater]
  split
  · rename_i hsign
    refine ⟨rfl, { hs with
      rest := ?_
      last := congrArg some hs.current
      split := congrArg some hs.current
      suits := fun u hu => hs.suits u (List.mem_of_mem_tail hu)
      halves := ?_ }⟩
    · show t.rest.tokens.tail = s.rest.tokens.tail.map (Token.recast ρ)
      rw [hs.rest, List.map_tail]
    · intro whole hwhole
      cases hwhole
      exact hs.suits_current.halves hsign.1 hsign.2
  · exact ⟨rfl, hs⟩

theorem follows_closeAngle : Step.Follows ρ id closeAngle closeAngle := by
  refine (follows_consume .greater).ask fun found => ?_
  split
  · exact .pure rfl
  · exact follows_splitGreaterEqual

/-! ## 2. The levels of binary operators -/

section Levels

variable {p q : Parser Expr}

theorem follows_takeOperator : Parser.Follows ρ id takeOperator takeOperator := by
  refine .take follows_advance fun token => ?_
  rw [Token.kind_recast]
  split
  · exact .pure rfl
  · exact .throw rfl

theorem follows_chain (isOperator : Kind → Bool) (h : Parser.Follows ρ (Expr.recast ρ) p q) :
    Parser.Follows ρ (Expr.recast ρ) (chain p isOperator) (chain q isOperator) := by
  refine h.bind fun first => .tryLoop (fun left => ?_) first
  refine .after follows_currentKind fun kind => ?_
  split
  · refine follows_takeOperator.ask fun op => h.bind fun right => .pure ?_
    simp only [Turn.map, binaryOf, Expr.recast, Expr.span_recast, Span.recast_join]
  · exact .pure rfl

theorem follows_concatenations (h : Parser.Follows ρ (Expr.recast ρ) p q) :
    Parser.Follows ρ (Expr.recast ρ) (concatenations p) (concatenations q) :=
  follows_chain _ <| follows_chain _ <| follows_chain _ <| follows_chain _ h

theorem follows_expressionOver (h : Parser.Follows ρ (Expr.recast ρ) p q) :
    Parser.Follows ρ (Expr.recast ρ) (expressionOver p) (expressionOver q) :=
  follows_chain _ <| follows_chain _ <| follows_concatenations h

/-! ## 3. Lists of expressions -/

theorem follows_argumentsOver (h : Parser.Follows ρ (Expr.recast ρ) p q) :
    Parser.Follows ρ (List.map (Expr.recast ρ)) (argumentsOver p) (argumentsOver q) := by
  refine (follows_expect _).dropped.ask fun _ => ?_
  refine .after (follows_sees _) fun closed => ?_
  have hclose (args : List Expr) : Parser.Follows ρ (List.map (Expr.recast ρ))
      (do discard <| expect .rightParen; return args)
      (do discard <| expect .rightParen; return args.map (Expr.recast ρ)) :=
    (follows_expect _).dropped.ask fun _ => .pure rfl
  split
  · exact .given (hclose [])
  · exact (follows_commaList (follows_expressionOver h)).bind hclose

theorem follows_rowAndColumn (start : Span) (h : Parser.Follows ρ (Expr.recast ρ) p q) :
    Parser.Follows ρ (Prod.map (Expr.recast ρ) (Option.map (Expr.recast ρ))) (rowAndColumn p start)
      (rowAndColumn q (start.recast ρ)) := by
  refine (follows_argumentsOver h).bind fun found => ?_
  cases found with
  | nil => exact .get fun s t hs => .throw (by rw [hs.previous]; rfl)
  | cons row cols =>
    have hresult : ((row.recast ρ), (cols.map (Expr.recast ρ)).head?) =
        Prod.map (Expr.recast ρ) (Option.map (Expr.recast ρ)) (row, cols.head?) := by
      rw [List.head?_map]
      rfl
    simp only [List.map_cons, List.length_map]
    split
    · refine .take (follows_spanFrom _) fun span => ?_
      exact .after (follows_report rfl span) fun _ => .pure hresult
    · exact .pure hresult

theorem follows_closedIndexes? (h : Parser.Follows ρ (Expr.recast ρ) p q) :
    Step.Follows ρ (Option.map (List.map (Expr.recast ρ))) (closedIndexes? p)
      (closedIndexes? q) := by
  refine follows_advance.dropped.ask fun _ => ?_
  refine Step.Follows.bind (follows_commaList (follows_concatenations h)) fun result => ?_
  cases result with
  | ok indexes =>
    refine follows_closeAngle.ask fun closed => ?_
    split <;> exact .pure rfl
  | error fault => exact .pure rfl

theorem follows_angleIndexes? (base : Expr) (h : Parser.Follows ρ (Expr.recast ρ) p q) :
    Step.Follows ρ (Option.map (List.map (Expr.recast ρ))) (angleIndexes? p base)
      (angleIndexes? q (base.recast ρ)) := by
  refine Step.Follows.look fun s t hs => ?_
  refine (follows_closedIndexes? h).bind fun found => ?_
  cases found with
  | some indexes =>
    simp only [Option.map_some, List.length_map, Expr.span_recast]
    split
    · refine (follows_spanFrom _).bind fun span => ?_
      exact (follows_report rfl span).ask fun _ => .pure rfl
    · exact .pure rfl
  | none =>
    exact (Step.Follows.modify fun u v hu => hs.takeBack hu _ _).ask fun _ => .pure rfl

/-! ## 4. Operands -/

theorem follows_substringOf (base : Expr) (h : Parser.Follows ρ (Expr.recast ρ) p q) :
    Parser.Follows ρ (Expr.recast ρ) (substringOf p base) (substringOf q (base.recast ρ)) := by
  refine .past follows_advance fun _ => ?_
  refine (follows_commaList (follows_expressionOver h)).bind fun indexes => ?_
  refine (follows_expect _).dropped.ask fun _ => ?_
  rw [Expr.span_recast, List.length_map]
  refine .take (follows_spanFrom _) fun span => ?_
  have hresult : Expr.substring (base.recast ρ) (indexes.map (Expr.recast ρ)) (span.recast ρ) =
      (Expr.substring base indexes span).recast ρ := by
    rw [Expr.recast, Expr.recastAll_eq]
  split
  · exact .after (follows_report rfl span) fun _ => .pure hresult
  · exact .pure hresult

theorem follows_memberOf (object : Expr) (h : Parser.Follows ρ (Expr.recast ρ) p q) :
    Parser.Follows ρ (Expr.recast ρ) (memberOf p object) (memberOf q (object.recast ρ)) := by
  refine .past follows_advance fun _ => ?_
  refine .take follows_advance fun token => ?_
  rw [Token.kind_recast, Expr.span_recast]
  dsimp only
  split
  · refine .after (follows_sees _) fun called => ?_
    split
    · refine (follows_argumentsOver h).bind fun args => ?_
      refine .take (follows_spanFrom _) fun span => .pure ?_
      rw [Expr.recast, Expr.recastAll_eq]
      rfl
    · exact .take (follows_spanFrom _) fun span => .pure rfl
  · exact .throw rfl

theorem follows_suffixes (base : Expr) (h : Parser.Follows ρ (Expr.recast ρ) p q) :
    Parser.Follows ρ (Expr.recast ρ) (suffixes p base) (suffixes q (base.recast ρ)) := by
  refine .tryLoop (fun e => ?_) base
  refine .after follows_currentKind fun kind => ?_
  rw [Expr.isIndexable_recast, Expr.span_recast]
  split
  · split
    · refine .take (follows_angleIndexes? e h) fun found => ?_
      cases found with
      | some indexes =>
        refine .take (follows_spanFrom _) fun span => .pure ?_
        rw [Turn.map, Expr.recast, Expr.recastAll_eq]
      | none => exact .pure rfl
    · exact .pure rfl
  · exact (follows_substringOf e h).bind fun e => .pure rfl
  · exact (follows_memberOf e h).bind fun e => .pure rfl
  · exact .pure rfl

theorem follows_callOf (name : Ident) (h : Parser.Follows ρ (Expr.recast ρ) p q) :
    Parser.Follows ρ (Expr.recast ρ) (callOf p name) (callOf q (name.recast ρ)) := by
  refine (follows_argumentsOver h).bind fun args => ?_
  refine .take (follows_spanFrom _) fun span => .pure ?_
  rw [Expr.recast, Expr.recastAll_eq]

theorem follows_seesFunctionKeyword :
    Step.Follows ρ id seesFunctionKeyword seesFunctionKeyword := by
  refine Step.Follows.look fun s t hs => follows_nextKind.ask fun kind => .pure ?_
  simp only [hs.current, hs.symbols.contains, Token.kind_recast, Token.functionDisallowed_recast,
    Token.text_recast, Recast.isIntrinsic_text, id]

theorem follows_named (h : Parser.Follows ρ (Expr.recast ρ) p q) :
    Parser.Follows ρ (Expr.recast ρ) (named p) (named q) := by
  refine .take follows_advance fun token => ?_
  refine .after (follows_sees _) fun called => ?_
  split
  · refine .get fun s t hs => ?_
    rw [Token.text_recast, hs.symbols.isMatrix, Token.span_recast]
    split
    · refine .after (follows_noteVariable token) fun _ => ?_
      refine (follows_rowAndColumn token.span h).bind fun (row, col) => ?_
      refine .take (follows_spanFrom _) fun span => .pure ?_
      rw [Expr.recast, Expr.recastOption_eq]
      rfl
    · refine .after (follows_noteIfKnown _ token) fun known => ?_
      rw [Recast.isIntrinsic_text]
      have hcall := follows_callOf ⟨token.text, .functionName, token.span⟩ h
      dsimp only
      split
      · exact .after (follows_report rfl _) fun _ => hcall
      · exact hcall
  · refine .after (follows_noteIfKnown _ token) fun known => ?_
    dsimp only
    split
    · exact .pure rfl
    · exact .after (follows_noteVariable token) fun _ => .pure rfl

theorem follows_conditional (h : Parser.Follows ρ (Expr.recast ρ) p q) :
    Parser.Follows ρ (Expr.recast ρ) (conditional p) (conditional q) := by
  refine .take follows_advance fun token => ?_
  refine (follows_expressionOver h).bind fun cond => ?_
  refine (follows_expect _).dropped.ask fun _ => ?_
  refine (follows_expressionOver h).bind fun thenValue => ?_
  refine (follows_expect _).dropped.ask fun _ => ?_
  refine (follows_expressionOver h).bind fun elseValue => ?_
  exact .take (follows_spanFrom _) fun span => .pure rfl

theorem follows_keywordOperand (word : Keyword) (h : Parser.Follows ρ (Expr.recast ρ) p q) :
    Parser.Follows ρ (Expr.recast ρ) (keywordOperand p word) (keywordOperand q word) := by
  refine .take follows_current fun token => ?_
  refine .after follows_seesFunctionKeyword fun called => ?_
  split
  · refine .past follows_advance fun _ => ?_
    refine .past (follows_noteIfKnown _ token) fun _ => ?_
    exact follows_callOf ⟨token.text, .functionName, token.span⟩ h
  · split
    · exact follows_conditional h
    · split
      · refine .past follows_advance fun _ => ?_
        exact .after (follows_noteVariable { token with kind := .ident }) fun _ => .pure rfl
      · exact follows_failHere rfl

/-- The next token is looked at; what reading relies on holds of it. -/
theorem Parser.Follows.peek {α : Type} {g : α → α} {f k : Token → Parser α}
    (hf : ∀ token, token.Suits ρ → Follows ρ g (f token) (k (token.recast ρ))) :
    Follows ρ g (liftM current >>= f) (liftM current >>= k) := by
  intro s t hs
  have hrest := hf s.current hs.suits_current s t hs
  rw [← hs.current] at hrest
  exact hrest

/-- **Operands follow each other** if the operands within them do. -/
theorem follows_primaryLayer (h : Parser.Follows ρ (Expr.recast ρ) p q) :
    Parser.Follows ρ (Expr.recast ρ) (primaryLayer p) (primaryLayer q) := by
  refine .peek fun token hsuits => ?_
  rw [Token.kind_recast]
  split
  · exact .past follows_advance fun _ => follows_suffixes (.number token.text token.span) h
  · exact .past follows_advance fun _ => follows_suffixes (.number token.text token.span) h
  · rename_i hkind
    rw [Token.text_recast, hsuits.literal hkind]
    exact .past follows_advance fun _ =>
      follows_suffixes (.string (literalValue token.text) token.span) h
  · refine .past follows_advance fun _ => (follows_expressionOver h).bind fun inner => ?_
    exact (follows_expect _).dropped.ask fun _ => follows_suffixes inner h
  · refine .past follows_advance fun _ => h.bind fun inner => .pure ?_
    rw [Expr.recast, Expr.span_recast, Token.span_recast, Span.recast_join]
  · exact .past follows_advance fun _ => h
  · refine .past follows_advance fun _ => .after (follows_sees _) fun called => ?_
    split
    · have hname : ρ.text "@" = "@" := ρ.text_of_small (by decide)
      have hcall := follows_callOf ⟨"@", .functionName, token.span⟩ h
      rw [Ident.recast, hname] at hcall
      exact hcall.bind fun e => follows_suffixes e h
    · exact follows_failHere rfl
  · refine .past follows_advance fun _ => .after (follows_noteVariable token) fun _ => ?_
    exact follows_suffixes (.variable ⟨token.text, .reference, token.span⟩) h
  · exact (follows_named h).bind fun e => follows_suffixes e h
  · exact (follows_keywordOperand _ h).bind fun e => follows_suffixes e h
  · exact .throw rfl

end Levels

/-! ## 5. The grammar of expressions -/

theorem follows_primary : Parser.Follows ρ (Expr.recast ρ) primary primary :=
  .nest fun _ _ h => follows_primaryLayer h

theorem follows_expression : Parser.Follows ρ (Expr.recast ρ) expression expression :=
  follows_expressionOver follows_primary

theorem follows_arguments : Parser.Follows ρ (List.map (Expr.recast ρ)) arguments arguments :=
  follows_argumentsOver follows_primary

theorem follows_target : Parser.Follows ρ (Expr.recast ρ) target target := by
  refine .take follows_current fun token => ?_
  refine follows_primary.bind fun e => ?_
  rw [Expr.isMember_recast, Expr.baseIdent?_recast, Option.isSome_map]
  split
  · exact .pure rfl
  · split
    · exact .pure (e.recast_setBaseRole .assignment).symm
    · exact .throw rfl

end BasicCheck.Parse
