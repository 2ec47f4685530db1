import BasicCheck.Proofs.Recovery.Line

/-!
# Expressions heed lines

Every part of the grammar of expressions stays on its line, over operands that do. What is read in an
attempt at an index list is taken back together with it, so only the name of a member can be misread
(**`heeds_memberOf`**). Operands are built over themselves behind at least one token, so that all of
them heed lines (**`careful_primary`**, **`careful_expression`**), and nesting is never given up.
-/

namespace BasicCheck

/-- No name is a separator. -/
theorem Kind.IsName.not_isSeparator {kind : Kind} (h : kind.IsName) : kind.isSeparator = false := by
  rcases h with rfl | rfl | hkeyword
  · rfl
  · rfl
  · cases kind with
    | keyword word => rfl
    | _ => cases hkeyword

namespace Grammar

open Parse

variable {α : Type} {s u : State}

/-! ## 1. The levels of binary operators -/

/-- An operator stands on the line, or what was taken for one does. -/
theorem heeds_takeOperator (hk : s.current.kind.isSeparator = false) : Heeds s takeOperator := by
  refine Heeds.read fun _ => ?_
  split
  · exact SameLine.advance hk
  · exact Stuck.here (.refl s) (.advance hk) rfl

section Chains

variable {operand : Parser Expr} {isOperator : Kind → Bool}

theorem careful_chainTurn (ho : Careful operand)
    (hline : ∀ kind, isOperator kind = true → kind.isSeparator = false) (left : Expr) :
    Careful (chainTurn operand isOperator left) := by
  intro s
  refine Heeds.look (currentKind_eq s) ?_
  split
  · rename_i hk
    exact (heeds_takeOperator (hline _ hk)).bind fun op u _ => (ho u).bind fun right v _ => .pure _
  · exact .pure _

theorem careful_chain (ho : Careful operand) (hp : Parses operand)
    (hline : ∀ kind, isOperator kind = true → kind.isSeparator = false) :
    Careful (chain operand isOperator) := by
  intro s
  refine (ho s).bind fun first u _ => Heeds.tryLoop (chainTurn operand isOperator)
    (J := fun e v => Derives first u u → Derives e u v) (careful_chainTurn ho hline) id
    fun left v _ hleft => Goes.proceeds (tries_chainTurn hp isOperator hleft)

end Chains

/-- No separator is an operator. -/
theorem not_isSeparator_of_isOperator (isOperator : Kind → Bool)
    (hnewline : isOperator .newline = false) (hsemicolon : isOperator .semicolon = false) :
    ∀ kind, isOperator kind = true → kind.isSeparator = false := by
  intro kind hk
  cases kind <;> first | rfl | simp_all

section Levels

variable {primary : Parser Expr} (hp : Parses primary) (hc : Careful primary)

include hp hc

theorem careful_concatenations : Careful (concatenations primary) := by
  have powers := careful_chain hc hp (not_isSeparator_of_isOperator (· == .caret) rfl rfl)
  have products := careful_chain powers (parses_chain hp _)
    (not_isSeparator_of_isOperator Kind.isMultiplicative rfl rfl)
  have sums := careful_chain products (parses_chain (parses_chain hp _) _)
    (not_isSeparator_of_isOperator Kind.isAdditive rfl rfl)
  exact careful_chain sums (parses_chain (parses_chain (parses_chain hp _) _) _)
    (not_isSeparator_of_isOperator Kind.isConcatenation rfl rfl)

theorem careful_expressionOver : Careful (expressionOver primary) := by
  have comparisons := careful_chain (careful_concatenations hp hc) (parses_concatenations hp)
    (not_isSeparator_of_isOperator Kind.isComparison rfl rfl)
  exact careful_chain comparisons (parses_chain (parses_concatenations hp) _)
    (not_isSeparator_of_isOperator Kind.isLogical rfl rfl)

/-! ## 2. Lists of expressions -/

theorem careful_expressions : Careful (commaList (expressionOver primary)) :=
  careful_commaList (careful_expressionOver hp hc) fun s =>
    (parses_expressionOver hp s).mono fun _ _ _ _ => trivial

/-- What is done behind arguments is done behind their last bracket. -/
theorem heeds_argumentsOver {f : List Expr → Parser α}
    (hf : ∀ args u, Heeds u (do
      discard (expect .rightParen)
      f args)) : Heeds s (argumentsOver primary >>= f) := by
  have hclose (args : List Expr) (u : State) : Heeds u (do
      discard (expect .rightParen)
      let args ← (pure args : Parser (List Expr))
      f args) := by
    simpa only [pure_bind] using hf args u
  unfold argumentsOver
  rw [bind_assoc]
  refine (heeds_expected rfl).bind fun _ u _ => ?_
  rw [bind_assoc]
  refine Heeds.look (sees_eq u .rightParen) ?_
  dsimp only
  split
  · rw [bind_assoc, pure_bind, bind_assoc]
    exact hclose [] u
  · rw [bind_assoc]
    refine (careful_expressions hp hc u).bind fun args v _ => ?_
    rw [bind_assoc]
    exact hclose args v

theorem careful_argumentsOver : Careful (argumentsOver primary) := by
  intro s
  rw [← bind_pure (argumentsOver primary)]
  exact heeds_argumentsOver hp hc fun _ _ => (heeds_expected rfl).bind fun _ _ _ => .pure _

/-- Where the row of a matrix is missing the fault stands at the closing bracket, which is read. -/
theorem careful_rowAndColumn (start : Span) : Careful (rowAndColumn primary start) := by
  intro s
  refine heeds_argumentsOver hp hc fun args u => ?_
  cases args with
  | nil =>
    refine heeds_expected_bind fun hk hu => ?_
    have hword : u.current.kind.IsWord := by
      rw [hk]
      decide
    have hspan := congrArg Token.span (hu.previous_advance hword)
    exact Stuck.here (.refl u) (.advance (by rw [hk]; rfl)) hspan
  | cons row cols =>
    refine (heeds_expected rfl).bind fun _ u _ => ?_
    dsimp only
    split
    · exact Heeds.look (spanFrom_eq u start) (Heeds.after (walks_report _ _) fun _ _ _ => .pure _)
    · exact .pure _

/-! ## 3. Index lists -/

omit hp hc in
theorem walks_splitGreaterEqual : Walks s splitGreaterEqual := by
  intro hs
  have hpast := (goes_splitGreaterEqual hs).1
  rcases splitGreaterEqual_cases s with ⟨hk, hsplit⟩ | hsame
  · have hword : s.current.kind.IsWord := hk.1 ▸ Kind.isWord_greaterEqual
    rw [hsplit] at hpast ⊢
    refine ⟨⟨hpast, rfl, rfl, rfl⟩, fun read htokens => ?_⟩
    refine forall_mem_of_advance (s := s) (P := (·.isSeparator = false)) (by rw [hk.1]; rfl) ?_
    rw [hs.advance_of_isWord hword]
    exact htokens
  · rw [hsame]
    exact .refl s

omit hp hc in
theorem walks_closeAngle : Walks s closeAngle := by
  refine (walks_consume rfl).bind fun closed u _ => ?_
  split
  · exact .pure _
  · exact walks_splitGreaterEqual

/-- Indexes that are closed stand on the line. -/
theorem line_closedIndexes? {found : Option (List Expr)} (hs : s.Regular)
    (hk : s.current.kind = .less) (hr : closedIndexes? primary s = (found, u)) :
    Quiet s u ∧ (found.isSome → SameLine s u) := by
  have hsign : SameLine s s.advance.2 := .advance (by rw [hk]; rfl)
  have hitems := careful_commaList (careful_concatenations hp hc)
    (fun v => (parses_concatenations hp v).mono fun _ _ _ _ => trivial) s.advance.2
    (hsign.past.regular hs)
  rw [closedIndexes?_eq] at hr
  rcases hlist : (commaList (concatenations primary)).run s.advance.2 with ⟨items, m⟩
  rw [hlist] at hitems
  have hquiet : Quiet s m := hsign.toQuiet.trans hitems.quiet
  have hbehind : indexesBehind? primary s.advance.2 = _ := step_bind hlist
  rw [hr] at hbehind
  cases items with
  | error fault =>
    cases hbehind
    exact ⟨hquiet, nofun⟩
  | ok indexes =>
    have hline : SameLine s m := hsign.trans hitems
    have hclose : Walks m (do
        if ← closeAngle then return some indexes else return none) :=
      walks_closeAngle.bind fun closed v _ => by split <;> exact .pure _
    have hwalk := hline.trans (hclose (hline.past.regular hs))
    have hend : (found, u) = (do
        if ← closeAngle then return some indexes else return none : Step (Option (List Expr))) m :=
      hbehind
    rw [← hend] at hwalk
    exact ⟨hwalk.toQuiet, fun _ => hwalk⟩

omit hp hc in
theorem walks_checkIndexes (base : Expr) (indexes : List Expr) :
    Walks s (checkIndexes base indexes) := by
  unfold checkIndexes
  dsimp only
  split
  · exact Walks.look (spanFrom_eq s base.span) ((walks_report _ _).bind fun _ _ _ => .pure _)
  · exact .pure _

/-- **An attempt at indexes** stays on the line, whatever was read in it. -/
theorem walks_angleIndexes? (base : Expr) (hk : s.current.kind = .less) :
    Walks s (angleIndexes? primary base) := by
  intro hs
  rcases hr : closedIndexes? primary s with ⟨found, u⟩
  obtain ⟨hquiet, hline⟩ := line_closedIndexes? hp hc hs hk hr
  rw [angleIndexes?_eq hr]
  cases found with
  | none =>
    -- no region was recorded since, so that none is taken back
    have hregions : u.regions.take s.regions.size = s.regions := by
      rw [hquiet.regions, Array.take_eq_extract, Array.extract_size]
    exact .of_quiet ⟨hquiet.past.takeBack, hquiet.recoveries, hquiet.begun, hregions⟩ rfl
  | some indexes =>
    exact (hline rfl).trans (walks_checkIndexes base indexes (hquiet.past.regular hs))

/-! ## 4. Operands -/

theorem heeds_substringOf (base : Expr) (hk : s.current.kind = .leftBracket) :
    Heeds s (substringOf primary base) := by
  refine (heeds_skip (by rw [hk]; rfl)).bind fun _ u _ => ?_
  refine (careful_expressions hp hc u).bind fun indexes v _ => ?_
  refine (heeds_expected rfl).bind fun _ w _ => Heeds.look (spanFrom_eq w base.span) ?_
  dsimp only
  split
  · exact Heeds.after (walks_report _ _) fun _ _ _ => .pure _
  · exact .pure _

/-- **The name of a member** is read before it is looked at, even where a separator stands. -/
theorem heeds_memberOf (object : Expr) (hk : s.current.kind = .arrow) :
    Heeds s (memberOf primary object) := by
  have hsign : SameLine s s.advance.2 := .advance (by rw [hk]; rfl)
  intro hs
  unfold memberOf
  rw [run_skip_bind, run_advance_bind]
  dsimp only
  split
  · rename_i hname
    have hmember := (Kind.isName_of_mayNameMember hname).not_isSeparator
    have hline := hsign.trans (.advance hmember)
    refine Ends.after hline ((?_ : Heeds s.advance.2.advance.2 _) (hline.past.regular hs))
    refine Heeds.look (sees_eq _ .leftParen) ?_
    split
    · refine (careful_argumentsOver hp hc _).bind fun args u _ => ?_
      exact Heeds.look (spanFrom_eq u object.span) (.pure _)
    · exact Heeds.look (spanFrom_eq _ object.span) (.pure _)
  · by_cases hmember : s.advance.2.current.kind.isSeparator = true
    · exact Stuck.member (.refl s) hk hmember
    · exact Stuck.here hsign (.advance (Bool.not_eq_true _ ▸ hmember)) rfl

theorem careful_suffixTurn (e : Expr) : Careful (suffixTurn primary e) := by
  intro s
  refine Heeds.look (currentKind_eq s) ?_
  split
  · rename_i hk
    split
    · refine Heeds.after (walks_angleIndexes? hp hc e hk) fun found u _ => ?_
      cases found with
      | none => exact .pure _
      | some indexes => exact Heeds.look (spanFrom_eq u e.span) (.pure _)
    · exact .pure _
  · rename_i hk
    exact (heeds_substringOf hp hc e hk).bind fun _ _ _ => .pure _
  · rename_i hk
    exact (heeds_memberOf hp hc e hk).bind fun _ _ _ => .pure _
  · exact .pure _

theorem careful_suffixes (base : Expr) : Careful (suffixes primary base) := fun s =>
  Heeds.tryLoop (suffixTurn primary) (careful_suffixTurn hp hc)
    (J := fun e u => Derives base s s → Derives e s u) id fun _ _ _ he =>
      Goes.proceeds (tries_suffixTurn hp he)

theorem careful_callOf (name : Ident) : Careful (callOf primary name) := fun s =>
  (careful_argumentsOver hp hc s).bind fun _ u _ => Heeds.look (spanFrom_eq u name.span) (.pure _)

theorem heeds_named (hk : s.current.kind = .ident) : Heeds s (named primary) := by
  refine (heeds_advance (by rw [hk]; rfl)).bind fun token u1 _ => ?_
  refine Heeds.look (sees_eq u1 .leftParen) ?_
  split
  · refine Heeds.get ?_
    split
    · refine Heeds.after (walks_noteVariable _) fun _ u2 _ => ?_
      refine (careful_rowAndColumn hp hc _ u2).bind fun found u3 _ => ?_
      exact Heeds.look (spanFrom_eq u3 _) (.pure _)
    · refine Heeds.after (walks_noteIfKnown .function _) fun known u2 _ => ?_
      dsimp only
      split
      · exact Heeds.after (walks_report _ _) fun _ u3 _ => careful_callOf hp hc _ u3
      · exact careful_callOf hp hc _ u2
  · refine Heeds.after (walks_noteIfKnown .equate _) fun known u2 _ => ?_
    dsimp only
    split
    · exact .pure _
    · exact Heeds.after (walks_noteVariable _) fun _ _ _ => .pure _

theorem heeds_conditional (hk : s.current.kind.isSeparator = false) :
    Heeds s (conditional primary) := by
  have hc' := careful_expressionOver hp hc
  refine (heeds_advance hk).bind fun token u1 _ => (hc' u1).bind fun cond _ _ => ?_
  refine (heeds_expected rfl).bind fun _ u2 _ => (hc' u2).bind fun thenValue _ _ => ?_
  refine (heeds_expected rfl).bind fun _ u3 _ => (hc' u3).bind fun elseValue u4 _ => ?_
  exact Heeds.look (spanFrom_eq u4 _) (.pure _)

theorem heeds_keywordOperand {word : Keyword} (hk : s.current.kind = .keyword word) :
    Heeds s (keywordOperand primary word) := by
  have hline : s.current.kind.isSeparator = false := by
    rw [hk]
    rfl
  refine Heeds.look (current_eq s) (Heeds.look (looks_seesFunctionKeyword s) ?_)
  split
  · refine (heeds_skip hline).bind fun _ u _ => ?_
    refine (Heeds.step (walks_noteIfKnown .function _)).dropped.bind fun _ v _ => ?_
    exact careful_callOf hp hc _ v
  · split
    · exact heeds_conditional hp hc hline
    · split
      · refine (heeds_skip hline).bind fun _ u _ => ?_
        exact Heeds.after (walks_noteVariable _) fun _ _ _ => .pure _
      · exact careful_failHere _ s

/-- **One layer of operands** heeds lines if the operands within it do. -/
theorem careful_primaryLayer : Careful (primaryLayer primary) := by
  intro s
  have hskip {kind : Kind} (hk : s.current.kind = kind) (hkind : kind.isSeparator = false) :
      Heeds s (discard (liftM advance : Parser Token)) :=
    heeds_skip (hk ▸ hkind)
  refine Heeds.look (current_eq s) ?_
  split
  · rename_i hk
    exact (hskip hk rfl).bind fun _ u _ => careful_suffixes hp hc _ u
  · rename_i hk
    exact (hskip hk rfl).bind fun _ u _ => careful_suffixes hp hc _ u
  · rename_i hk
    exact (hskip hk rfl).bind fun _ u _ => careful_suffixes hp hc _ u
  · rename_i hk
    refine (hskip hk rfl).bind fun _ u _ => (careful_expressionOver hp hc u).bind fun inner v _ => ?_
    exact (heeds_expected rfl).bind fun _ w _ => careful_suffixes hp hc inner w
  · rename_i hk
    exact (hskip hk rfl).bind fun _ u _ => (hc u).bind fun _ _ _ => .pure _
  · rename_i hk
    exact (hskip hk rfl).bind fun _ u _ => hc u
  · rename_i hk
    refine (hskip hk rfl).bind fun _ u _ => Heeds.look (sees_eq u .leftParen) ?_
    split
    · exact (careful_callOf hp hc _ u).bind fun base v _ => careful_suffixes hp hc base v
    · exact careful_failHere _ u
  · rename_i hk
    refine (hskip hk rfl).bind fun _ u _ => Heeds.after (walks_noteVariable _) fun _ v _ => ?_
    exact careful_suffixes hp hc _ v
  · rename_i hk
    exact (heeds_named hp hc hk).bind fun base v _ => careful_suffixes hp hc base v
  · rename_i hk
    exact (heeds_keywordOperand hp hc hk).bind fun base v _ => careful_suffixes hp hc base v
  · exact .throw rfl

end Levels

/-! ## 5. The grammar of expressions -/

/-- **An operand** heeds lines, however deep it is nested. -/
theorem careful_primary : Careful primary := by
  intro s hs
  have hgoes (u : State) : Goes u primary.run fun _ _ => True := fun hu =>
    ⟨(derives_primary u hu).1, trivial⟩
  refine (nested primaryLayer
    (P := fun s r => Ends s r ∧ Onward s r.2 ∧ Owes (fun e u => Derives e s u) r.1 r.2)
    hgoes run_primary ?_ ?_ hs).1
  · exact fun u hu => ⟨careful_failHere _ u hu, tries_failHere rfl hu⟩
  · intro n q hq hends u hu hcount
    have hparses : Parses q := fun v hv => (hends v hv).2
    have hcareful : Careful q := fun v hv => (hends v hv).1
    exact ⟨((Enters.primaryLayer hq hcount) hu).1, careful_primaryLayer hparses hcareful u hu,
      parses_primaryLayer hparses u hu⟩

/-- **An expression** heeds lines. -/
theorem careful_expression : Careful expression :=
  careful_expressionOver derives_primary careful_primary

theorem careful_arguments : Careful arguments := careful_argumentsOver derives_primary careful_primary

theorem careful_target : Careful target := by
  intro s
  refine Heeds.look (current_eq s) ?_
  refine (careful_primary s).bind_ends fun e u hu _ => ?_
  split
  · exact hu
  · split
    · exact hu
    · exact Stuck.here (.refl s) hu rfl

end Grammar

end BasicCheck
