import BasicCheck.Proofs.Grammar.Procedure
import BasicCheck.Proofs.Progress.Nesting

/-!
# Reading always finishes

Three things could keep reading from finishing, and none of them can happen from a regular state,
whatever the tokens are. A loop might go round without reading anything (`Repeats.runs`); an operand
or a statement might be read within itself without anything having been read before it
(`run_primary_congr`, `run_statement_congr`); an attempt at an index list might be made again within
itself at the same place (`angleIndexes?_congr`). Taken together: **`finishes`**.
-/

namespace BasicCheck.Grammar

open Parse

variable {α β : Type} {s u : State}

/-! ## 1. The loops of the grammar -/

/-- What stands in lists. -/
inductive Listed : {α : Type} → Parser α → Prop where
  | argument : Listed expression
  | index : Listed (concatenations primary)
  | label : Listed labelIdent
  | routine (routine : Routine) : Listed (declaredRoutine routine)
  | commonItem : Listed commonItem
  | dimension : Listed dimension

/-- The levels of binary operators: what stands between the operators of a level, and which those
    are. -/
inductive Level : Parser Expr → (Kind → Bool) → Prop where
  | powers : Level primary (· == .caret)
  | products : Level (Parse.powers primary) Kind.isMultiplicative
  | sums : Level (Parse.products primary) Kind.isAdditive
  | concatenations : Level (Parse.sums primary) Kind.isConcatenation
  | comparisons : Level (Parse.concatenations primary) Kind.isComparison
  | logic : Level (Parse.comparisons primary) Kind.isLogical

/-- What is read over: empty lines, what is left of a malformed statement, and a line outside all arms
    of a choice. -/
inductive Skipped : (Kind → Bool) → Prop where
  | emptyLines : Skipped (· == .newline)
  | statement : Skipped fun kind => !kind.isSeparator && kind != .endOfFile
  | line : Skipped fun kind => kind != .newline && kind != .endOfFile

/-- The loops of the grammar: each repeats a turn, and starts with what it has before its first
    one. -/
inductive Repeats : {α β : Type} → Step β → (α → Step (Turn α β)) → α → Prop where
  | statements (stop : BlockEnd) : Repeats (block statement stop) (blockTurn statement stop) #[]
  | line (stopsAtElse : Bool) :
      Repeats (lineBlock statement stopsAtElse).run (tryTurn (lineTurn statement stopsAtElse)) #[]
  | cases (start : Span) : Repeats (choiceArms statement start) (choiceTurn statement start) #[]
  | list {α : Type} {item : Parser α} (listed : Listed item) (first : α) :
      Repeats (tryLoop (commaTurn item) #[first]).run (tryTurn (commaTurn item)) #[first]
  | parameters : Repeats (tryLoop parameterTurn #[]).run (tryTurn parameterTurn) #[]
  | suffixes (base : Expr) :
      Repeats (Parse.suffixes primary base).run (tryTurn (suffixTurn primary)) base
  | operators {operand : Parser Expr} {isOperator : Kind → Bool} (level : Level operand isOperator)
      (first : Expr) : Repeats (tryLoop (chainTurn operand isOperator) first).run
        (tryTurn (chainTurn operand isOperator)) first
  | options : Repeats searchOptions.run (tryTurn optionTurn) (none, none)
  | skipping {skipped : Kind → Bool} (h : Skipped skipped) :
      Repeats (skipWhile skipped) (skipTurn skipped) ()

theorem Listed.goes {item : Parser α} (h : Listed item) (s : State) :
    Tries s item fun _ _ => True := by
  cases h with
  | argument => exact (derives_expression s).mono fun _ _ _ _ => trivial
  | index => exact (parses_concatenations derives_primary s).mono fun _ _ _ _ => trivial
  | label => exact (takes_labelIdent s).mono fun _ _ _ _ => trivial
  | routine routine => exact (takes_declaredRoutine routine s).mono fun _ _ _ _ => trivial
  | commonItem => exact (takes_commonItem s).mono fun _ _ _ _ => trivial
  | dimension => exact (takes_dimension s).mono fun _ _ _ _ => trivial

theorem Level.parses {operand : Parser Expr} {isOperator : Kind → Bool}
    (h : Level operand isOperator) : Parses operand := by
  have powers := parses_chain derives_primary (· == .caret)
  have products := parses_chain powers Kind.isMultiplicative
  have sums := parses_chain products Kind.isAdditive
  have concatenations := parses_concatenations derives_primary
  cases h with
  | powers => exact derives_primary
  | products => exact powers
  | sums => exact products
  | concatenations => exact sums
  | comparisons => exact concatenations
  | logic => exact parses_chain concatenations _

theorem Skipped.not_end {skipped : Kind → Bool} (h : Skipped skipped) :
    skipped .endOfFile = false := by
  cases h <;> rfl

/-- **Every loop of the grammar** is a run of its turns: each of them but the last consumes at least
    one token, or the `=` that was left of a token `>=`. -/
theorem Repeats.runs {p : Step β} {turn : α → Step (Turn α β)} {a : α} (h : Repeats p turn a)
    (hs : s.Regular) : Runs turn a s (p s).1 (p s).2 := by
  cases h with
  | statements stop =>
    exact runs_loop _ hs (J := fun found u => Laid found.toList s u) (Or.inl (.nil (.refl s)))
      fun found u _ h => (goes_blockTurn writes_statement stop found h).proceeds
  | line stopsAtElse =>
    exact runs_loop _ hs (J := fun found u => Written (.front found.toList) s u) (.nil (.refl s))
      fun found u _ h =>
        (goes_tryTurn (tries_lineTurn writes_statement stopsAtElse found h)).proceeds
  | cases start =>
    exact runs_loop _ hs (J := fun found u => Onward s u ∧ Armed s found.toList u)
      ⟨.refl s, fun _ ha => absurd ha List.not_mem_nil⟩
      fun found u _ h => (goes_choiceTurn writes_statement start found h.2 h.1).proceeds
  | list listed first =>
    exact runs_loop _ hs (J := fun found u => Onward s u ∧ found.toList ≠ [] ∧ ∀ _ ∈ found.toList, True)
      ⟨.refl s, by simp, fun _ _ => trivial⟩ fun found u _ h => (goes_tryTurn
        (tries_commaTurn listed.goes (fun _ _ _ => trivial) found h.1 h.2.1 h.2.2)).proceeds
  | parameters =>
    exact runs_loop _ hs (J := fun _ _ => True) trivial fun found u _ _ =>
      proceeds_tryTurn (proceeds_parameterTurn found)
  | suffixes base =>
    -- any base will do: whether it was read matters for what the loop gives, not for its progress
    exact runs_loop _ hs (J := fun e u => Derives base s s → Derives e s u) id
      fun e u _ h => (goes_tryTurn (tries_suffixTurn derives_primary h)).proceeds
  | operators level first =>
    exact runs_loop _ hs (J := fun e u => Derives first s s → Derives e s u) id
      fun e u _ h => (goes_tryTurn (tries_chainTurn level.parses _ h)).proceeds
  | options =>
    exact runs_loop _ hs (J := Searched s) (.start s)
      fun found u _ h => (goes_tryTurn (tries_optionTurn found h)).proceeds
  | skipping h =>
    exact runs_loop _ hs (J := fun _ => Skips _ s) (.refl _ s)
      fun _ u _ hskips => (goes_skipTurn h.not_end hskips).proceeds

/-! ## 2. Operands and statements within others -/

/-- Two parsers do the same from every regular state with fewer tokens left. -/
def AgreeBehind (s : State) (p q : Parser α) : Prop :=
  ∀ u, u.Regular → u.rest.count < s.rest.count → p.run u = q.run u

theorem AgreeBehind.concurs {p q : Parser α} (h : AgreeBehind s p q)
    {Q : State → α → State → Prop} (hp : ∀ u, Tries u p (Q u)) : Concurs s.rest.count p q :=
  fun u hu hcount => ⟨h u hu hcount, (hp u hu).1⟩

/-- **An operand** is read with the operands within it, all of which have fewer tokens left. -/
theorem run_primary_congr {q : Parser Expr} (hs : s.Regular) (h : AgreeBehind s primary q) :
    primary.run s = (primaryLayer q).run s :=
  (run_primary hs).trans ((Enters.primaryLayer (h.concurs derives_primary) (Nat.le_refl _)) hs).1

/-- **A statement** is read with the statements within it, all of which have fewer tokens left. -/
theorem run_statement_congr {q : Parser Statement} (hs : s.Regular)
    (h : AgreeBehind s statement q) : statement.run s = (statementLayer q).run s :=
  (run_statement hs).trans (run_statementLayer (h.concurs writes_statement) hs (Nat.le_refl _))

/-! ## 3. Finishing -/

/-- What it is for reading to finish, from any regular state. -/
structure Finishes : Prop where
  /-- Each loop is a run of its turns, each of which but the last consumes at least one token, or the
      `=` that was left of a token `>=`. -/
  loops : ∀ {α β : Type} {p : Step β} {turn : α → Step (Turn α β)} {a : α}, Repeats p turn a →
    ∀ s : State, s.Regular → Runs turn a s (p s).1 (p s).2
  /-- Fewer tokens are left behind an expression. -/
  expressions : ∀ (s u : State) (e : Expr), s.Regular → expression.run s = (.ok e, u) →
    u.rest.count < s.rest.count
  /-- Fewer tokens are left behind a statement. -/
  statements : ∀ (s u : State) (st : Statement), s.Regular → statement.run s = (.ok st, u) →
    u.rest.count < s.rest.count
  /-- Operands are read within an operand only where fewer tokens are left. -/
  operandsWithin : ∀ (s : State) (q : Parser Expr), s.Regular → AgreeBehind s primary q →
    primary.run s = (primaryLayer q).run s
  /-- Statements are read within a statement only where fewer tokens are left. -/
  statementsWithin : ∀ (s : State) (q : Parser Statement), s.Regular → AgreeBehind s statement q →
    statement.run s = (statementLayer q).run s
  /-- Operands, and with them further attempts, are read within an attempt at an index list only where
      fewer tokens are left. -/
  attempts : ∀ (s : State) (base : Expr) (q : Parser Expr), s.Regular → s.current.kind = .less →
    AgreeBehind s primary q → angleIndexes? primary base s = angleIndexes? q base s
  /-- Any tokens are read from a regular state on, up to the end of the file. -/
  ends : ∀ (tokens : List Token) (faults : List Fault), (State.opening tokens faults).Regular ∧
    Past (State.opening tokens faults) (procedure (.opening tokens faults)).2 ∧
    (procedure (.opening tokens faults)).2.current.kind = .endOfFile

/-- **Reading always finishes.** -/
theorem finishes : Finishes where
  loops h _ hs := h.runs hs
  expressions s u e hs hread := by
    obtain ⟨-, he⟩ := derives_expression s hs
    rw [hread] at he
    obtain ⟨span, hstands⟩ := Derives.exists_stands he
    exact hstands.count_lt hs
  statements s u st hs hread := by
    obtain ⟨-, hst⟩ := writes_statement s hs
    rw [hread] at hst
    obtain ⟨t, hopens, -⟩ := Written.exists_opens hst
    exact hopens.count_lt hs
  operandsWithin _ _ hs h := run_primary_congr hs h
  statementsWithin _ _ hs h := run_statement_congr hs h
  attempts s base q hs hk h := by
    have hword : s.current.kind.IsWord := by
      rw [hk]
      decide
    have hopens : Opens s s.current s.advance.2 := ⟨rfl, hword, .refl _⟩
    exact (angleIndexes?_congr (h.concurs derives_primary) base hs (hopens.count_lt hs)).1
  ends tokens faults := by
    have hregular := regular_opening tokens faults
    obtain ⟨honward, m, v, hbody⟩ := goes_procedure (unequated_opening tokens faults) hregular
    exact ⟨hregular, honward, hbody.stays.current ▸ hbody.ended⟩

end BasicCheck.Grammar
