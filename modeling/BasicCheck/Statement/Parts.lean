import BasicCheck.Statement.Basic

/-!
# The parts of statements

The names of the statement forms, and for each form the expressions, nested blocks and names that it
holds. From these lists follow the variables that a statement reads and the ones that it assigns
(`Statement.referenced`, `Statement.assigned`); statements nested in it are not counted in.
-/

namespace BasicCheck

/-! ## 1. Names of forms -/

/-- What messages call an action. -/
def Action.title : Action → String
  | assignment _ _ _ => "assignment"
  | matrixAssignment _ _ _ _ => "matrix assignment"
  | mat _ _ => "mat"
  | loopCondition .whileHolds _ => "while"
  | loopCondition .untilHolds _ => "until"
  | gosub _ => "gosub"
  | goto _ => "goto"
  | onJump _ _ _ => "on"
  | label _ => "label"
  | .return _ => "return"
  | call _ _ _ => "call"
  | subroutineCall _ _ => "subroutine call"
  | memberCall _ => "ole call"
  | declare _ _ => "declare"
  | equate _ _ => "equate"
  | common _ _ => "common"
  | dim _ => "dim"
  | insert _ => "$insert"
  | swap _ _ _ => "swap"
  | convert _ _ _ => "convert"
  | transfer _ _ => "transfer"
  | remove _ _ _ _ => "remove"
  | select _ => "select"
  | clearSelect _ => "clearselect"
  | osWrite _ _ => "oswrite"
  | osBRead _ _ _ _ => "osbread"
  | osBWrite _ _ _ => "osbwrite"
  | osClose _ => "osclose"
  | osDelete _ => "osdelete"
  | matParse _ _ _ => "matparse"
  | initRnd _ => "initrnd"
  | flush => "flush"
  | garbageCollect => "garbagecollect"
  | null => "null"
  | debug => "debug"
  | stop => "stop"
  | finish => "end"
  | empty => "empty"

/-- What messages call a decision. -/
def Decision.title : Decision → String
  | condition _ => "if"
  | read _ _ _ _ _ => "read"
  | matRead _ _ _ => "matread"
  | readNext _ _ => "readnext"
  | write _ _ _ _ _ => "write"
  | matWrite _ _ _ => "matwrite"
  | .open _ _ _ => "open"
  | delete _ _ => "delete"
  | lock _ _ => "lock"
  | unlock _ _ => "unlock"
  | locate _ _ _ _ _ => "locate"
  | osRead _ _ => "osread"
  | osOpen _ _ => "osopen"

/-- What messages call a statement. -/
def Statement.title : Statement → String
  | action form _ => form.title
  | decision test _ _ _ => test.title
  | counted _ _ _ _ => "for"
  | loop _ _ => "loop"
  | choice _ _ => "case"

/-! ## 2. Expressions -/

/-- The expressions of a matrix declaration. -/
def Dimension.expressions (d : Dimension) : List Expr := d.rows :: d.cols.toList

/-- The expressions of an action in the order in which they are written. -/
def Action.expressions : Action → List Expr
  | assignment target _ value => [target, value]
  | matrixAssignment _ row col value => row :: (col.toList ++ [value])
  | mat _ value => [value]
  | loopCondition _ cond => [cond]
  | onJump _ selector _ => [selector]
  | .return value => value.toList
  | call _ args _ => args
  | subroutineCall _ args => args
  | memberCall target => [target]
  | equate _ value => [value]
  | common _ items => items.flatMap fun item => item.size.toList.flatMap Dimension.expressions
  | dim matrices => matrices.flatMap Dimension.expressions
  | swap old new target => [old, new, target]
  | convert source result target => [source, result, target]
  | transfer source target => [source, target]
  | remove target source position flag => [target, source, position, flag]
  | select source => [source]
  | clearSelect cursor => cursor.toList
  | osWrite value path => [value, path]
  | osBRead target handle position length => [target, handle, position, length]
  | osBWrite value handle position => [value, handle, position]
  | osClose handle => [handle]
  | osDelete path => [path]
  | matParse source _ delimiter => source :: delimiter.toList
  | initRnd seed => [seed]
  | gosub _ | goto _ | label _ | declare _ _ | insert _ | flush | garbageCollect | null | debug
  | stop | finish | empty => []

/-- The expressions of a decision in the order in which they are written. -/
def Decision.expressions : Decision → List Expr
  | condition cond => [cond]
  | read _ target file key column => target :: file :: key :: column.toList
  | matRead _ file key => [file, key]
  | readNext target cursor => target :: cursor.toList
  | write _ value file key column => value :: file :: key :: column.toList
  | matWrite _ file key => [file, key]
  | .open dict table handle => dict.toList ++ [table, handle]
  | delete file key => [file, key]
  | lock file key => [file, key]
  | unlock file key => [file, key]
  | locate needle haystack delimiter order position =>
    needle :: haystack :: (delimiter.toList ++ order.toList ++ [position])
  | osRead target path => [target, path]
  | osOpen path handle => [path, handle]

/-- The expressions of a counter in the order in which they are written. -/
def Counter.expressions (c : Counter) : List Expr := c.start :: c.limit :: c.step.toList

/-- The expressions that a statement holds itself. -/
def Statement.expressions : Statement → List Expr
  | action form _ => form.expressions
  | decision test _ _ _ => test.expressions
  | counted counter _ _ _ => counter.expressions
  | loop _ _ => []
  | choice arms _ => arms.map CaseArm.cond

/-! ## 3. Blocks -/

/-- The nested blocks of a statement in the order in which they are written. -/
def Statement.blocks : Statement → List Block
  | action _ _ => []
  | decision _ thenArm elseArm _ => thenArm.toList ++ elseArm.toList
  | counted _ body _ _ => [body]
  | loop body _ => [body]
  | choice arms _ => arms.map CaseArm.body

/-- The `then` and the `else` arm of a statement that may carry them. -/
def Statement.arms? : Statement → Option (Option Block × Option Block)
  | decision _ thenArm elseArm _ => some (thenArm, elseArm)
  | _ => none

/-! ## 4. Names -/

/-- The names of an action outside its expressions. -/
def Action.names : Action → List Ident
  | matrixAssignment name _ _ _ => [name]
  | mat name _ => [name]
  | matParse _ name _ => [name]
  | equate name _ => [name]
  | insert name => [name]
  | call name _ _ => [name]
  | subroutineCall name _ => [name]
  | gosub target => [target]
  | goto target => [target]
  | label name => [name]
  | onJump _ _ labels => labels
  | declare _ names => names
  | common block items => block.toList ++ items.map CommonItem.name
  | dim matrices => matrices.map Dimension.name
  | _ => []

/-- The names of a decision outside its expressions. -/
def Decision.names : Decision → List Ident
  | matRead name _ _ => [name]
  | matWrite name _ _ => [name]
  | _ => []

/-- The names of a statement outside its expressions. -/
def Statement.names : Statement → List Ident
  | action form _ => form.names
  | decision test _ _ _ => test.names
  | counted counter _ closing _ => counter.name :: closing.toList
  | loop _ _ => []
  | choice _ _ => []

/-- The targets that a statement reads before it writes them. -/
def Statement.updatedTargets : Statement → List Expr
  | action (.assignment target op _) _ => if op.isCompound then [target] else []
  | action (.swap _ _ target) _ => [target]
  | action (.convert _ _ target) _ => [target]
  | action (.remove _ _ position _) _ => [position]
  | _ => []

/-! ## 5. Reads and assignments -/

/-- The identifiers of a statement: its names, then those of its expressions. -/
def Statement.idents (s : Statement) : List Ident :=
  s.names ++ s.expressions.flatMap Expr.idents

/-- The variables that a statement assigns, by the names that they are looked up by. -/
def Statement.assigned (s : Statement) : List String :=
  (s.idents.filter (·.role == .assignment)).map Ident.folded

/-- The variables that a statement reads. -/
def Statement.referenced (s : Statement) : List Ident :=
  s.idents.filter (·.role == .reference) ++ s.updatedTargets.filterMap Expr.baseIdent?

end BasicCheck
