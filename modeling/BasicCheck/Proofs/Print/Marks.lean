import BasicCheck.Procedure
import BasicCheck.Proofs.Print.Words

/-!
# Blocks in marks

How blocks are written on several lines: one statement to a line, every arm of a decision and every
loop with its body on lines of its own and the word that closes it behind them (`Block.marks`). What
is written this way are statements of control flow over variables and numbers
(`Statement.Structured`); a condition of a loop needs a loop around it. Two blocks are the same up to
spans if they are equal with blank spans (`Block.eraseSpans`).
-/

namespace BasicCheck

/-! ## 1. Blank spans -/

/-- The identifier with a blank span. -/
def Ident.eraseSpan (i : Ident) : Ident := { i with span := .blank }

def Dimension.eraseSpans (d : Dimension) : Dimension :=
  ⟨d.name.eraseSpan, d.rows.eraseSpans, d.cols.map Expr.eraseSpans⟩

def CommonItem.eraseSpans (item : CommonItem) : CommonItem :=
  ⟨item.name.eraseSpan, item.size.map Dimension.eraseSpans⟩

def Counter.eraseSpans (c : Counter) : Counter :=
  ⟨c.name.eraseSpan, c.start.eraseSpans, c.limit.eraseSpans, c.step.map Expr.eraseSpans⟩

/-- The action with blank spans. -/
def Action.eraseSpans : Action → Action
  | assignment target op value => assignment target.eraseSpans op value.eraseSpans
  | matrixAssignment name row col value =>
    matrixAssignment name.eraseSpan row.eraseSpans (col.map Expr.eraseSpans) value.eraseSpans
  | mat name value => mat name.eraseSpan value.eraseSpans
  | loopCondition test cond => loopCondition test cond.eraseSpans
  | gosub target => gosub target.eraseSpan
  | goto target => goto target.eraseSpan
  | onJump jump selector labels =>
    onJump jump selector.eraseSpans (labels.map Ident.eraseSpan)
  | label name => label name.eraseSpan
  | .return value => .return (value.map Expr.eraseSpans)
  | call name args indirect => call name.eraseSpan (args.map Expr.eraseSpans) indirect
  | subroutineCall name args => subroutineCall name.eraseSpan (args.map Expr.eraseSpans)
  | memberCall target => memberCall target.eraseSpans
  | declare routine names => declare routine (names.map Ident.eraseSpan)
  | equate name value => equate name.eraseSpan value.eraseSpans
  | common block items => common (block.map Ident.eraseSpan) (items.map CommonItem.eraseSpans)
  | dim matrices => dim (matrices.map Dimension.eraseSpans)
  | insert name => insert name.eraseSpan
  | swap old new target => swap old.eraseSpans new.eraseSpans target.eraseSpans
  | convert source result target =>
    convert source.eraseSpans result.eraseSpans target.eraseSpans
  | transfer source target => transfer source.eraseSpans target.eraseSpans
  | remove target source position flag =>
    remove target.eraseSpans source.eraseSpans position.eraseSpans flag.eraseSpans
  | select source => select source.eraseSpans
  | clearSelect cursor => clearSelect (cursor.map Expr.eraseSpans)
  | osWrite value path => osWrite value.eraseSpans path.eraseSpans
  | osBRead target handle position length =>
    osBRead target.eraseSpans handle.eraseSpans position.eraseSpans length.eraseSpans
  | osBWrite value handle position =>
    osBWrite value.eraseSpans handle.eraseSpans position.eraseSpans
  | osClose handle => osClose handle.eraseSpans
  | osDelete path => osDelete path.eraseSpans
  | matParse source name delimiter =>
    matParse source.eraseSpans name.eraseSpan (delimiter.map Expr.eraseSpans)
  | initRnd seed => initRnd seed.eraseSpans
  | flush => flush
  | garbageCollect => garbageCollect
  | null => null
  | debug => debug
  | stop => stop
  | finish => finish
  | empty => empty

/-- The decision with blank spans. -/
def Decision.eraseSpans : Decision → Decision
  | condition cond => condition cond.eraseSpans
  | read form target file key column =>
    read form target.eraseSpans file.eraseSpans key.eraseSpans (column.map Expr.eraseSpans)
  | matRead name file key => matRead name.eraseSpan file.eraseSpans key.eraseSpans
  | readNext target cursor => readNext target.eraseSpans (cursor.map Expr.eraseSpans)
  | write form value file key column =>
    write form value.eraseSpans file.eraseSpans key.eraseSpans (column.map Expr.eraseSpans)
  | matWrite name file key => matWrite name.eraseSpan file.eraseSpans key.eraseSpans
  | .open dict table handle =>
    .open (dict.map Expr.eraseSpans) table.eraseSpans handle.eraseSpans
  | delete file key => delete file.eraseSpans key.eraseSpans
  | lock file key => lock file.eraseSpans key.eraseSpans
  | unlock file key => unlock file.eraseSpans key.eraseSpans
  | locate needle haystack delimiter order position =>
    locate needle.eraseSpans haystack.eraseSpans (delimiter.map Expr.eraseSpans)
      (order.map Expr.eraseSpans) position.eraseSpans
  | osRead target path => osRead target.eraseSpans path.eraseSpans
  | osOpen path handle => osOpen path.eraseSpans handle.eraseSpans

mutual

/-- The statement with blank spans. -/
def Statement.eraseSpans : Statement → Statement
  | .action form _ => .action form.eraseSpans .blank
  | .decision test thenArm elseArm _ =>
    .decision test.eraseSpans (eraseArmSpans thenArm) (eraseArmSpans elseArm) .blank
  | .counted counter body closing _ =>
    .counted counter.eraseSpans (Block.eraseSpans body) (closing.map Ident.eraseSpan) .blank
  | .loop body _ => .loop (Block.eraseSpans body) .blank
  | .choice arms _ => .choice (eraseCaseSpans arms) .blank

/-- The arm of a decision with blank spans. -/
def eraseArmSpans : Option (List Statement) → Option (List Statement)
  | none => none
  | some body => some (Block.eraseSpans body)

/-- The block with blank spans. -/
def Block.eraseSpans : List Statement → List Statement
  | [] => []
  | s :: rest => s.eraseSpans :: Block.eraseSpans rest

/-- The arms of a choice with blank spans. -/
def eraseCaseSpans : List CaseArm → List CaseArm
  | [] => []
  | .mk cond body _ :: rest => .mk cond.eraseSpans (Block.eraseSpans body) .blank :: eraseCaseSpans rest

end

/-- Whether a statement is a lone semicolon does not depend on its span. -/
theorem Statement.isEmpty_eraseSpans (s : Statement) : s.eraseSpans.isEmpty = s.isEmpty := by
  cases s with
  | action form span => cases form <;> rfl
  | _ => rfl

theorem Statement.isSeparatorExempt_eraseSpans (s : Statement) :
    s.eraseSpans.isSeparatorExempt = s.isSeparatorExempt := by
  cases s with
  | action form span => cases form <;> rfl
  | _ => rfl

/-! ## 2. Marks -/

/-- What blocks are written with. -/
inductive Mark where
  | name (text : String)
  | number (text : String)
  /-- A token that is told by its kind alone. -/
  | sign (kind : Kind)

namespace Mark

abbrev key (word : Keyword) : Mark := sign (.keyword word)

abbrev equal : Mark := sign .equal

abbrev newline : Mark := sign .newline

/-- A token that spells a mark. -/
def Spelled : Mark → Token → Prop
  | name text, t => t.kind = .ident ∧ t.text = text
  | number text, t => (t.kind = .number ∨ t.kind = .hexNumber) ∧ t.text = text
  | sign kind, t => t.kind = kind

end Mark

/-- The mark of a variable or a number. Other expressions are not written here. -/
def Expr.marks : Expr → List Mark
  | .variable ident => [.name ident.name]
  | .number text _ => [.number text]
  | _ => []

/-- The marks of an action. Other actions than the ones of control flow are not written here. -/
def Action.marks : Action → List Mark
  | assignment target _ value => target.marks ++ .equal :: value.marks
  | loopCondition .whileHolds cond => .key .WHILE :: cond.marks
  | loopCondition .untilHolds cond => .key .UNTIL :: cond.marks
  | .return value => .key .RETURN :: value.toList.flatMap Expr.marks
  | null => [.key .NULL]
  | _ => []

/-- The mark of a condition. Other decisions are not written here. -/
def Decision.marks : Decision → List Mark
  | condition cond => cond.marks
  | _ => []

/-- The marks of a counter: the name, its bounds, and its step if it has one. -/
def Counter.marks (c : Counter) : List Mark :=
  .name c.name.name :: .equal :: (c.start.marks ++ .key .TO :: (c.limit.marks ++
    c.step.toList.flatMap fun step => .key .STEP :: step.marks))

mutual

/-- The marks of a statement up to the end of its last line. -/
def Statement.marks : Statement → List Mark
  | .action form _ => form.marks
  | .decision test thenArm elseArm _ =>
    .key .IF :: (test.marks ++ marksOfArm .THEN thenArm ++ marksOfArm .ELSE elseArm)
  | .counted counter body closing _ =>
    .key .FOR :: (counter.marks ++ .newline :: (Block.marks body ++
      .key .NEXT :: closing.toList.map (.name ·.name)))
  | .loop body _ => .key .LOOP :: .newline :: (Block.marks body ++ [.key .REPEAT])
  | .choice arms _ =>
    .key .BEGIN :: .key .CASE :: .newline :: (marksOfCases arms ++ [.key .END, .key .CASE])

/-- The marks of an arm of a decision, if it is there: its word, its lines, and `end`. -/
def marksOfArm (word : Keyword) : Option (List Statement) → List Mark
  | none => []
  | some body => .key word :: .newline :: (Block.marks body ++ [.key .END])

/-- The marks of a block, every statement on lines of its own. -/
def Block.marks : List Statement → List Mark
  | [] => []
  | s :: rest => s.marks ++ .newline :: Block.marks rest

/-- The marks of the arms of a choice. -/
def marksOfCases : List CaseArm → List Mark
  | [] => []
  | .mk cond body _ :: rest =>
    .key .CASE :: (cond.marks ++ .newline :: (Block.marks body ++ marksOfCases rest))

end

/-! ## 3. Blocks that are written -/

/-- A variable or a number. -/
inductive Expr.Atom : Expr → Prop where
  | variable {ident : Ident} (hrole : ident.role = .reference) : Atom (.variable ident)
  | number (text : String) (span : Span) : Atom (.number text span)

/-- Statements of control flow over variables and numbers, under a loop or not. -/
inductive Statement.Structured : Bool → Statement → Prop where
  | assignment {looping : Bool} {target : Ident} {value : Expr} (span : Span)
      (htarget : target.role = .assignment) (hvalue : value.Atom) :
      Structured looping (.action (.assignment (.variable target) .assign value) span)
  | null {looping : Bool} (span : Span) : Structured looping (.action .null span)
  | return {looping : Bool} {value : Option Expr} (span : Span) (hvalue : ∀ e ∈ value, e.Atom) :
      Structured looping (.action (.return value) span)
  /-- A condition of a loop has a loop around it. -/
  | loopCondition {test : LoopTest} {cond : Expr} (span : Span) (hcond : cond.Atom) :
      Structured true (.action (.loopCondition test cond) span)
  /-- One of the arms holds a statement. -/
  | decision {looping : Bool} {cond : Expr} {thenArm elseArm : Option Block} (span : Span)
      (hcond : cond.Atom) (hsome : ∃ arm ∈ thenArm.toList ++ elseArm.toList, arm ≠ [])
      (hthen : ∀ arm ∈ thenArm, ∀ s ∈ arm, Structured looping s)
      (helse : ∀ arm ∈ elseArm, ∀ s ∈ arm, Structured looping s) :
      Structured looping (.decision (.condition cond) thenArm elseArm span)
  /-- What stands behind `next` is the variable of the loop, in whatever case. -/
  | counted {looping : Bool} {counter : Counter} {body : Block} {closing : Option Ident} (span : Span)
      (hrole : counter.name.role = .assignment) (hstart : counter.start.Atom)
      (hlimit : counter.limit.Atom) (hstep : ∀ e ∈ counter.step, e.Atom)
      (hbody : ∀ s ∈ body, Structured true s)
      (hclosing : ∀ name ∈ closing, name.role = .reference ∧ name.folded = counter.name.folded) :
      Structured looping (.counted counter body closing span)
  | loop {looping : Bool} {body : Block} (span : Span) (hbody : ∀ s ∈ body, Structured true s) :
      Structured looping (.loop body span)
  | choice {looping : Bool} {arms : List CaseArm} (span : Span)
      (hconds : ∀ arm ∈ arms, arm.cond.Atom)
      (hbodies : ∀ arm ∈ arms, ∀ s ∈ arm.body, Structured looping s) :
      Structured looping (.choice arms span)

/-- Marks that statements start with. -/
def Mark.opens : Mark → Bool
  | name _ => true
  | sign (.keyword word) =>
    [Keyword.NULL, .RETURN, .WHILE, .UNTIL, .IF, .FOR, .LOOP, .BEGIN].contains word
  | _ => false

/-- The first mark of a statement tells that a statement starts. -/
theorem Statement.Structured.opens {looping : Bool} {s : Statement} (h : s.Structured looping) :
    ∃ m ms, s.marks = m :: ms ∧ m.opens = true := by
  cases h with
  | @loopCondition test cond span hcond => cases test <;> exact ⟨_, _, rfl, rfl⟩
  | _ => exact ⟨_, _, rfl, rfl⟩

/-- What is written is no lone semicolon and no label, so a separator stands behind it. -/
theorem Statement.Structured.not_exempt {looping : Bool} {s : Statement} (h : s.Structured looping) :
    s.isEmpty = false ∧ s.isSeparatorExempt = false := by
  cases h <;> exact ⟨rfl, rfl⟩

end BasicCheck
