import BasicCheck.Proofs.Recast.Action

/-!
# Decisions that are written anew

Every reader of a decision follows itself (**`follows_decisionAfter?`**).
-/

namespace BasicCheck.Parse

variable {ρ : Recast}

theorem follows_fileAndKey :
    Parser.Follows ρ (Prod.map (Expr.recast ρ) (Expr.recast ρ)) fileAndKey fileAndKey := by
  refine follows_expression.bind fun file => (follows_expect _).dropped.ask fun _ => ?_
  exact follows_expression.bind fun key => .pure rfl

theorem follows_columnIf (wanted : Bool) :
    Parser.Follows ρ (Option.map (Expr.recast ρ)) (columnIf wanted) (columnIf wanted) := by
  unfold columnIf
  split
  · refine (follows_expect _).dropped.ask fun _ => ?_
    exact follows_expression.bind fun column => .pure rfl
  · exact .pure rfl

theorem follows_readDecision (form : ReadForm) :
    Parser.Follows ρ (Decision.recast ρ) (readDecision form) (readDecision form) := by
  refine follows_target.bind fun left => (follows_expect _).dropped.ask fun _ => ?_
  refine follows_fileAndKey.bind fun (file, key) => ?_
  exact (follows_columnIf _).bind fun column => .pure rfl

theorem follows_matReadDecision :
    Parser.Follows ρ (Decision.recast ρ) matReadDecision matReadDecision := by
  refine (follows_variableIdent .assignment).bind fun name => ?_
  refine (follows_expect _).dropped.ask fun _ => ?_
  exact follows_fileAndKey.bind fun (file, key) => .pure rfl

theorem follows_readNextDecision :
    Parser.Follows ρ (Decision.recast ρ) readNextDecision readNextDecision := by
  refine follows_target.bind fun left => ?_
  exact (follows_expressionAfter? _).bind fun cursor => .pure rfl

theorem follows_writeDecision (form : WriteForm) :
    Parser.Follows ρ (Decision.recast ρ) (writeDecision form) (writeDecision form) := by
  refine follows_expression.bind fun value => follows_expectOnOrTo.ask fun _ => ?_
  refine follows_fileAndKey.bind fun (file, key) => ?_
  exact (follows_columnIf _).bind fun column => .pure rfl

theorem follows_matWriteDecision :
    Parser.Follows ρ (Decision.recast ρ) matWriteDecision matWriteDecision := by
  refine (follows_variableIdent .reference).bind fun name => follows_expectOnOrTo.ask fun _ => ?_
  exact follows_fileAndKey.bind fun (file, key) => .pure rfl

theorem follows_openDecision : Parser.Follows ρ (Decision.recast ρ) openDecision openDecision := by
  refine follows_expression.bind fun first => ?_
  refine .after (follows_consume _) fun both => ?_
  dsimp only
  split
  · have hsecond := follows_expression.map (f := some) (k := some) (h := Option.map (Expr.recast ρ))
      fun _ => rfl
    refine hsecond.bind fun second => (follows_expect _).dropped.ask fun _ => ?_
    refine follows_target.bind fun handle => ?_
    cases second <;> exact .pure rfl
  · refine .given ((follows_expect _).dropped.ask fun _ => ?_)
    exact follows_target.bind fun handle => .pure rfl

/-- The clauses of a search, in any sequence. -/
theorem follows_searchOptions :
    Parser.Follows ρ (Prod.map (Option.map (Expr.recast ρ)) (Option.map (Expr.recast ρ)))
      searchOptions searchOptions := by
  refine .tryLoop (g := Prod.map (Option.map (Expr.recast ρ)) (Option.map (Expr.recast ρ)))
    (fun (delimiter, order) => ?_) (none, none)
  refine .after (follows_consume _) fun found => ?_
  split
  · exact follows_expression.bind fun e => .pure rfl
  · refine .after (follows_consume _) fun found => ?_
    split
    · exact follows_expression.bind fun e => .pure rfl
    · exact .pure rfl

theorem follows_locateDecision :
    Parser.Follows ρ (Decision.recast ρ) locateDecision locateDecision := by
  refine follows_expression.bind fun needle => (follows_expect _).dropped.ask fun _ => ?_
  refine follows_expression.bind fun haystack => ?_
  refine follows_searchOptions.bind fun (delimiter, order) => ?_
  refine (follows_expect _).dropped.ask fun _ => ?_
  exact follows_target.bind fun position => .pure rfl

theorem follows_osReadDecision :
    Parser.Follows ρ (Decision.recast ρ) osReadDecision osReadDecision := by
  refine follows_target.bind fun left => (follows_expect _).dropped.ask fun _ => ?_
  exact follows_expression.bind fun path => .pure rfl

theorem follows_osOpenDecision :
    Parser.Follows ρ (Decision.recast ρ) osOpenDecision osOpenDecision := by
  refine follows_expression.bind fun path => (follows_expect _).dropped.ask fun _ => ?_
  exact follows_target.bind fun handle => .pure rfl

/-- **Every decision follows itself** behind its keyword. -/
theorem follows_decisionAfter? (word : Keyword) :
    Option.Rel (Parser.Follows ρ (Decision.recast ρ)) (decisionAfter? word)
      (decisionAfter? word) := by
  cases word with
  | IF => exact .some (follows_expression.map fun _ => rfl)
  | READ => exact .some (follows_readDecision .read)
  | READU => exact .some (follows_readDecision .readU)
  | READO => exact .some (follows_readDecision .readO)
  | READV => exact .some (follows_readDecision .readV)
  | MATREAD => exact .some follows_matReadDecision
  | READNEXT => exact .some follows_readNextDecision
  | WRITE => exact .some (follows_writeDecision .write)
  | WRITEU => exact .some (follows_writeDecision .writeU)
  | WRITEV => exact .some (follows_writeDecision .writeV)
  | MATWRITE => exact .some follows_matWriteDecision
  | OPEN => exact .some follows_openDecision
  | DELETE => exact .some (follows_fileAndKey.map fun _ => rfl)
  | LOCK => exact .some (follows_fileAndKey.map fun _ => rfl)
  | UNLOCK => exact .some (follows_fileAndKey.map fun _ => rfl)
  | LOCATE => exact .some follows_locateDecision
  | OSREAD => exact .some follows_osReadDecision
  | OSOPEN => exact .some follows_osOpenDecision
  | _ => exact .none

end BasicCheck.Parse
