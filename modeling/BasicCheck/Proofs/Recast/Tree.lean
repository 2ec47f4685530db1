import BasicCheck.Label
import BasicCheck.Proofs.Recast.Basic

/-!
# Trees that are written anew

The tree with its names, literals and spans written anew (`Expr.recast`, `Statement.recast`). What
is asked of a tree has the same answer for it: what sort of tree it is, and which names it holds,
these written anew. So a recast statement assigns the same variables
(**`Statement.assigned_recast`**) and reads the same ones (**`Statement.referenced_recast`**), and
labels stand where they stood (**`LabelTable.ofBody_recast`**).
-/

namespace BasicCheck

variable {ρ : Recast}

/-! ## 1. Expressions -/

/-- The identifier that is written anew. -/
def Ident.recast (ρ : Recast) (i : Ident) : Ident :=
  { i with name := ρ.text i.name, span := i.span.recast ρ }

@[simp] theorem Ident.name_recast (i : Ident) : (i.recast ρ).name = ρ.text i.name := rfl

@[simp] theorem Ident.span_recast (i : Ident) : (i.recast ρ).span = i.span.recast ρ := rfl

@[simp] theorem Ident.folded_recast (i : Ident) : (i.recast ρ).folded = i.folded := ρ.fold_text _

namespace Expr

mutual

/-- The expression that is written anew. -/
def recast (ρ : Recast) : Expr → Expr
  | .variable ident => .variable (ident.recast ρ)
  | number text span => number (ρ.text text) (span.recast ρ)
  | string value span => string (ρ.text value) (span.recast ρ)
  | binary op left right span => binary op (left.recast ρ) (right.recast ρ) (span.recast ρ)
  | negate inner span => negate (inner.recast ρ) (span.recast ρ)
  | arrayIndex base indexes span => arrayIndex (base.recast ρ) (recastAll ρ indexes) (span.recast ρ)
  | substring base indexes span => substring (base.recast ρ) (recastAll ρ indexes) (span.recast ρ)
  | matrixIndex name row col span =>
    matrixIndex (name.recast ρ) (row.recast ρ) (recastOption ρ col) (span.recast ρ)
  | call name args span => call (name.recast ρ) (recastAll ρ args) (span.recast ρ)
  | conditional cond thenValue elseValue span =>
    conditional (cond.recast ρ) (thenValue.recast ρ) (elseValue.recast ρ) (span.recast ρ)
  | property object member span => property (object.recast ρ) (member.recast ρ) (span.recast ρ)
  | method object member args span =>
    method (object.recast ρ) (member.recast ρ) (recastAll ρ args) (span.recast ρ)

/-- Several expressions that are written anew. -/
def recastAll (ρ : Recast) : List Expr → List Expr
  | [] => []
  | e :: rest => e.recast ρ :: recastAll ρ rest

/-- An expression that may be missing, written anew. -/
def recastOption (ρ : Recast) : Option Expr → Option Expr
  | none => none
  | some e => some (e.recast ρ)

end

@[simp] theorem recastAll_eq (es : List Expr) : recastAll ρ es = es.map (recast ρ) := by
  induction es with
  | nil => rfl
  | cons e rest ih => rw [recastAll, ih, List.map_cons]

@[simp] theorem recastOption_eq (e : Option Expr) : recastOption ρ e = e.map (recast ρ) := by
  cases e <;> rfl

@[simp] theorem span_recast (e : Expr) : (e.recast ρ).span = e.span.recast ρ := by
  cases e <;> rfl

theorem recast_missing (span : Span) : (missing span).recast ρ = missing (span.recast ρ) := by
  rw [missing, recast, ρ.text_of_small (s := "") (by decide), missing]

@[simp] theorem isMember_recast (e : Expr) : (e.recast ρ).isMember = e.isMember := by
  cases e <;> rfl

@[simp] theorem isIndexable_recast (e : Expr) : (e.recast ρ).isIndexable = e.isIndexable := by
  cases e <;> rfl

@[simp] theorem baseIdent?_recast :
    ∀ e : Expr, (e.recast ρ).baseIdent? = e.baseIdent?.map (Ident.recast ρ)
  | .variable _ | matrixIndex _ _ _ _ => rfl
  | arrayIndex base _ _ | substring base _ _ => baseIdent?_recast base
  | property object _ _ | method object _ _ _ => baseIdent?_recast object
  | number _ _ | string _ _ | binary _ _ _ _ | negate _ _ | call _ _ _ | conditional _ _ _ _ => rfl

theorem recast_setBaseRole (role : Role) : ∀ e : Expr,
    (e.setBaseRole role).recast ρ = (e.recast ρ).setBaseRole role
  | .variable _ | matrixIndex _ _ _ _ => rfl
  | arrayIndex base indexes span | substring base indexes span => by
    rw [setBaseRole, recast, recast_setBaseRole role base, recast, setBaseRole]
  | property object member span => by
    rw [setBaseRole, recast, recast_setBaseRole role object, recast, setBaseRole]
  | method object member args span => by
    rw [setBaseRole, recast, recast_setBaseRole role object, recast, setBaseRole]
  | number _ _ | string _ _ | binary _ _ _ _ | negate _ _ | call _ _ _ | conditional _ _ _ _ => rfl

mutual

/-- The names of a recast expression are its names, recast. -/
theorem idents_recast : ∀ e : Expr, (e.recast ρ).idents = e.idents.map (Ident.recast ρ)
  | .variable ident => rfl
  | number text span => rfl
  | string value span => rfl
  | binary op left right span => by
    rw [recast, idents, idents, idents_recast left, idents_recast right, List.map_append]
  | negate inner span => by rw [recast, idents, idents, idents_recast inner]
  | arrayIndex base indexes span => by
    rw [recast, idents, idents, idents_recast base, identsOfAll_recast indexes, List.map_append]
  | substring base indexes span => by
    rw [recast, idents, idents, idents_recast base, identsOfAll_recast indexes, List.map_append]
  | matrixIndex name row none span => by
    rw [recast, recastOption, idents, idents, idents_recast row, List.map_cons]
  | matrixIndex name row (some col) span => by
    rw [recast, recastOption, idents, idents, idents_recast row, idents_recast col, List.map_cons,
      List.map_append]
  | call name args span => by rw [recast, idents, idents, identsOfAll_recast args, List.map_cons]
  | conditional cond thenValue elseValue span => by
    rw [recast, idents, idents, idents_recast cond, idents_recast thenValue,
      idents_recast elseValue, List.map_append, List.map_append]
  | property object member span => by
    rw [recast, idents, idents, idents_recast object, List.map_append, List.map_cons, List.map_nil]
  | method object member args span => by
    rw [recast, idents, idents, idents_recast object, identsOfAll_recast args, List.map_append,
      List.map_cons]

theorem identsOfAll_recast : ∀ es : List Expr,
    identsOfAll (recastAll ρ es) = (identsOfAll es).map (Ident.recast ρ)
  | [] => rfl
  | e :: rest => by
    rw [recastAll, identsOfAll, identsOfAll, idents_recast e, identsOfAll_recast rest,
      List.map_append]

end

end Expr

/-! ## 2. Statements -/

def Dimension.recast (ρ : Recast) (d : Dimension) : Dimension :=
  ⟨d.name.recast ρ, d.rows.recast ρ, d.cols.map (Expr.recast ρ)⟩

def CommonItem.recast (ρ : Recast) (item : CommonItem) : CommonItem :=
  ⟨item.name.recast ρ, item.size.map (Dimension.recast ρ)⟩

def Counter.recast (ρ : Recast) (c : Counter) : Counter :=
  ⟨c.name.recast ρ, c.start.recast ρ, c.limit.recast ρ, c.step.map (Expr.recast ρ)⟩

/-- The action written anew. -/
def Action.recast (ρ : Recast) : Action → Action
  | assignment target op value => assignment (target.recast ρ) op (value.recast ρ)
  | matrixAssignment name row col value =>
    matrixAssignment (name.recast ρ) (row.recast ρ) (col.map (Expr.recast ρ)) (value.recast ρ)
  | mat name value => mat (name.recast ρ) (value.recast ρ)
  | loopCondition test cond => loopCondition test (cond.recast ρ)
  | gosub target => gosub (target.recast ρ)
  | goto target => goto (target.recast ρ)
  | onJump jump selector labels =>
    onJump jump (selector.recast ρ) (labels.map (Ident.recast ρ))
  | label name => label (name.recast ρ)
  | .return value => .return (value.map (Expr.recast ρ))
  | call name args indirect => call (name.recast ρ) (args.map (Expr.recast ρ)) indirect
  | subroutineCall name args => subroutineCall (name.recast ρ) (args.map (Expr.recast ρ))
  | memberCall target => memberCall (target.recast ρ)
  | declare routine names => declare routine (names.map (Ident.recast ρ))
  | equate name value => equate (name.recast ρ) (value.recast ρ)
  | common block items => common (block.map (Ident.recast ρ)) (items.map (CommonItem.recast ρ))
  | dim matrices => dim (matrices.map (Dimension.recast ρ))
  | insert name => insert (name.recast ρ)
  | swap old new target => swap (old.recast ρ) (new.recast ρ) (target.recast ρ)
  | convert source result target =>
    convert (source.recast ρ) (result.recast ρ) (target.recast ρ)
  | transfer source target => transfer (source.recast ρ) (target.recast ρ)
  | remove target source position flag =>
    remove (target.recast ρ) (source.recast ρ) (position.recast ρ) (flag.recast ρ)
  | select source => select (source.recast ρ)
  | clearSelect cursor => clearSelect (cursor.map (Expr.recast ρ))
  | osWrite value path => osWrite (value.recast ρ) (path.recast ρ)
  | osBRead target handle position length =>
    osBRead (target.recast ρ) (handle.recast ρ) (position.recast ρ) (length.recast ρ)
  | osBWrite value handle position =>
    osBWrite (value.recast ρ) (handle.recast ρ) (position.recast ρ)
  | osClose handle => osClose (handle.recast ρ)
  | osDelete path => osDelete (path.recast ρ)
  | matParse source name delimiter =>
    matParse (source.recast ρ) (name.recast ρ) (delimiter.map (Expr.recast ρ))
  | initRnd seed => initRnd (seed.recast ρ)
  | flush => flush
  | garbageCollect => garbageCollect
  | null => null
  | debug => debug
  | stop => stop
  | finish => finish
  | empty => empty

/-- The decision written anew. -/
def Decision.recast (ρ : Recast) : Decision → Decision
  | condition cond => condition (cond.recast ρ)
  | read form target file key column =>
    read form (target.recast ρ) (file.recast ρ) (key.recast ρ) (column.map (Expr.recast ρ))
  | matRead name file key => matRead (name.recast ρ) (file.recast ρ) (key.recast ρ)
  | readNext target cursor => readNext (target.recast ρ) (cursor.map (Expr.recast ρ))
  | write form value file key column =>
    write form (value.recast ρ) (file.recast ρ) (key.recast ρ) (column.map (Expr.recast ρ))
  | matWrite name file key => matWrite (name.recast ρ) (file.recast ρ) (key.recast ρ)
  | .open dict table handle =>
    .open (dict.map (Expr.recast ρ)) (table.recast ρ) (handle.recast ρ)
  | delete file key => delete (file.recast ρ) (key.recast ρ)
  | lock file key => lock (file.recast ρ) (key.recast ρ)
  | unlock file key => unlock (file.recast ρ) (key.recast ρ)
  | locate needle haystack delimiter order position =>
    locate (needle.recast ρ) (haystack.recast ρ) (delimiter.map (Expr.recast ρ))
      (order.map (Expr.recast ρ)) (position.recast ρ)
  | osRead target path => osRead (target.recast ρ) (path.recast ρ)
  | osOpen path handle => osOpen (path.recast ρ) (handle.recast ρ)

mutual

/-- The statement written anew. -/
def Statement.recast (ρ : Recast) : Statement → Statement
  | .action form span => .action (form.recast ρ) (span.recast ρ)
  | .decision test thenArm elseArm span =>
    .decision (test.recast ρ) (recastArm ρ thenArm) (recastArm ρ elseArm) (span.recast ρ)
  | .counted counter body closing span =>
    .counted (counter.recast ρ) (Block.recast ρ body) (closing.map (Ident.recast ρ)) (span.recast ρ)
  | .loop body span => .loop (Block.recast ρ body) (span.recast ρ)
  | .choice arms span => .choice (recastCases ρ arms) (span.recast ρ)

/-- The arm of a decision written anew. -/
def recastArm (ρ : Recast) : Option (List Statement) → Option (List Statement)
  | none => none
  | some body => some (Block.recast ρ body)

/-- The block written anew. -/
def Block.recast (ρ : Recast) : List Statement → List Statement
  | [] => []
  | s :: rest => s.recast ρ :: Block.recast ρ rest

/-- The arms of a choice written anew. -/
def recastCases (ρ : Recast) : List CaseArm → List CaseArm
  | [] => []
  | .mk cond body span :: rest =>
    .mk (cond.recast ρ) (Block.recast ρ body) (span.recast ρ) :: recastCases ρ rest

end

@[simp] theorem Block.recast_eq (body : List Statement) :
    Block.recast ρ body = body.map (Statement.recast ρ) := by
  induction body with
  | nil => rfl
  | cons s rest ih => rw [Block.recast, ih, List.map_cons]

@[simp] theorem recastArm_eq (body : Option (List Statement)) :
    recastArm ρ body = body.map (List.map (Statement.recast ρ)) := by
  cases body with
  | none => rfl
  | some body => rw [recastArm, Block.recast_eq, Option.map_some]

/-- The arm of a choice written anew. -/
def CaseArm.recast (ρ : Recast) (arm : CaseArm) : CaseArm :=
  .mk (arm.cond.recast ρ) (arm.body.map (Statement.recast ρ)) (arm.span.recast ρ)

@[simp] theorem recastCases_eq (arms : List CaseArm) :
    recastCases ρ arms = arms.map (CaseArm.recast ρ) := by
  induction arms with
  | nil => rfl
  | cons arm rest ih =>
    obtain ⟨cond, body, span⟩ := arm
    rw [recastCases, ih, List.map_cons, Block.recast_eq]
    rfl

/-! ## 3. What is asked of statements -/

namespace Statement

@[simp] theorem span_recast (s : Statement) : (s.recast ρ).span = s.span.recast ρ := by
  cases s <;> rfl

@[simp] theorem isEmpty_recast (s : Statement) : (s.recast ρ).isEmpty = s.isEmpty := by
  cases s with
  | action form span => cases form <;> rfl
  | _ => rfl

@[simp] theorem isSeparatorExempt_recast (s : Statement) :
    (s.recast ρ).isSeparatorExempt = s.isSeparatorExempt := by
  cases s with
  | action form span => cases form <;> rfl
  | _ => rfl

theorem blocks_recast (s : Statement) :
    (s.recast ρ).blocks = s.blocks.map (List.map (Statement.recast ρ)) := by
  cases s with
  | action form span => rfl
  | decision test thenArm elseArm span =>
    cases thenArm <;> cases elseArm <;> simp [recast, blocks]
  | counted counter body closing span => simp [recast, blocks]
  | loop body span => simp [recast, blocks]
  | choice arms span =>
    simp only [recast, recastCases_eq, blocks, List.map_map]
    rfl

end Statement

theorem Dimension.expressions_recast (d : Dimension) :
    (d.recast ρ).expressions = d.expressions.map (Expr.recast ρ) := by
  obtain ⟨name, rows, _ | col⟩ := d <;> rfl

theorem flatMap_expressions_recast (ds : List Dimension) :
    (ds.map (Dimension.recast ρ)).flatMap Dimension.expressions =
      (ds.flatMap Dimension.expressions).map (Expr.recast ρ) := by
  rw [List.flatMap_map, List.map_flatMap]
  exact congrArg ds.flatMap (funext Dimension.expressions_recast)

theorem Action.expressions_recast (a : Action) :
    (a.recast ρ).expressions = a.expressions.map (Expr.recast ρ) := by
  cases a with
  | common block items =>
    rw [recast, expressions, expressions, List.flatMap_map, List.map_flatMap]
    refine congrArg items.flatMap (funext fun item => ?_)
    rw [CommonItem.recast, Option.toList_map]
    exact flatMap_expressions_recast _
  | dim matrices => exact flatMap_expressions_recast matrices
  | matrixAssignment name row col value => cases col <;> rfl
  | «return» value => cases value <;> rfl
  | clearSelect cursor => cases cursor <;> rfl
  | matParse source name delimiter => cases delimiter <;> rfl
  | _ => rfl

theorem Decision.expressions_recast (d : Decision) :
    (d.recast ρ).expressions = d.expressions.map (Expr.recast ρ) := by
  cases d with
  | read form target file key column => cases column <;> rfl
  | readNext target cursor => cases cursor <;> rfl
  | write form value file key column => cases column <;> rfl
  | «open» dict table handle => cases dict <;> rfl
  | locate needle haystack delimiter order position => cases delimiter <;> cases order <;> rfl
  | _ => rfl

theorem Action.names_recast (a : Action) : (a.recast ρ).names = a.names.map (Ident.recast ρ) := by
  cases a with
  | common block items =>
    cases block <;>
      simp only [recast, names, List.map_map, List.map_append, Option.map_none, Option.map_some,
        Option.toList_none, Option.toList_some, List.map_cons, List.map_nil] <;> rfl
  | dim matrices =>
    simp only [recast, names, List.map_map]
    rfl
  | _ => rfl

theorem Decision.names_recast (d : Decision) :
    (d.recast ρ).names = d.names.map (Ident.recast ρ) := by
  cases d <;> rfl

namespace Statement

theorem expressions_recast (s : Statement) :
    (s.recast ρ).expressions = s.expressions.map (Expr.recast ρ) := by
  cases s with
  | action form span => exact form.expressions_recast
  | decision test thenArm elseArm span => exact test.expressions_recast
  | counted counter body closing span =>
    obtain ⟨name, start, limit, _ | step⟩ := counter <;> rfl
  | loop body span => rfl
  | choice arms span =>
    simp only [recast, recastCases_eq, expressions, List.map_map]
    rfl

theorem names_recast (s : Statement) : (s.recast ρ).names = s.names.map (Ident.recast ρ) := by
  cases s with
  | action form span => exact form.names_recast
  | decision test thenArm elseArm span => exact test.names_recast
  | counted counter body closing span => cases closing <;> rfl
  | loop body span => rfl
  | choice arms span => rfl

theorem updatedTargets_recast (s : Statement) :
    (s.recast ρ).updatedTargets = s.updatedTargets.map (Expr.recast ρ) := by
  cases s with
  | action form span =>
    cases form with
    | assignment target op value => cases op <;> rfl
    | _ => rfl
  | _ => rfl

theorem idents_recast (s : Statement) : (s.recast ρ).idents = s.idents.map (Ident.recast ρ) := by
  have hexpr : (s.expressions.map (Expr.recast ρ)).flatMap Expr.idents =
      (s.expressions.flatMap Expr.idents).map (Ident.recast ρ) := by
    rw [List.flatMap_map, List.map_flatMap]
    exact congrArg s.expressions.flatMap (funext Expr.idents_recast)
  rw [idents, idents, names_recast, expressions_recast, hexpr, List.map_append]

/-- **The variables that a statement assigns** are the same. -/
@[simp] theorem assigned_recast (s : Statement) : (s.recast ρ).assigned = s.assigned := by
  rw [assigned, assigned, idents_recast, List.filter_map, List.map_map]
  exact congrArg (fun f => (s.idents.filter (·.role == .assignment)).map f)
    (funext Ident.folded_recast)

/-- **The variables that a statement reads** are written anew. -/
theorem referenced_recast (s : Statement) :
    (s.recast ρ).referenced = s.referenced.map (Ident.recast ρ) := by
  have hbase : (s.updatedTargets.map (Expr.recast ρ)).filterMap Expr.baseIdent? =
      (s.updatedTargets.filterMap Expr.baseIdent?).map (Ident.recast ρ) := by
    rw [List.filterMap_map, List.map_filterMap]
    exact congrArg (List.filterMap · s.updatedTargets) (funext Expr.baseIdent?_recast)
  rw [referenced, referenced, idents_recast, updatedTargets_recast, hbase, List.filter_map,
    List.map_append]
  rfl

end Statement

/-! ## 4. Labels -/

mutual

/-- The labels of a statement are where they were, under the same names. -/
theorem Statement.labelsAt_recast (steps : List (Nat × Nat)) (index : Nat) :
    ∀ s : Statement, (s.recast ρ).labelsAt steps index = s.labelsAt steps index
  | .action form span => by
    cases form with
    | label name =>
      rw [Statement.recast, Action.recast, Statement.labelsAt, Statement.labelsAt,
        Ident.folded_recast]
    | _ => rfl
  | .decision test (some thenArm) (some elseArm) span => by
    rw [Statement.recast, recastArm, recastArm, Statement.labelsAt, Statement.labelsAt,
      labelsInBlock_recast, labelsInBlock_recast]
  | .decision test (some arm) none span => by
    rw [Statement.recast, recastArm, recastArm, Statement.labelsAt, Statement.labelsAt,
      labelsInBlock_recast]
  | .decision test none (some arm) span => by
    rw [Statement.recast, recastArm, recastArm, Statement.labelsAt, Statement.labelsAt,
      labelsInBlock_recast]
  | .decision test none none span => rfl
  | .counted counter body closing span => by
    rw [Statement.recast, Statement.labelsAt, Statement.labelsAt, labelsInBlock_recast]
  | .loop body span => by
    rw [Statement.recast, Statement.labelsAt, Statement.labelsAt, labelsInBlock_recast]
  | .choice arms span => by
    rw [Statement.recast, Statement.labelsAt, Statement.labelsAt, labelsInArms_recast]

theorem labelsInBlock_recast (steps : List (Nat × Nat)) (index : Nat) :
    ∀ body : List Statement, labelsInBlock steps index (Block.recast ρ body) =
      labelsInBlock steps index body
  | [] => rfl
  | s :: rest => by
    rw [Block.recast, labelsInBlock, labelsInBlock, Statement.labelsAt_recast, labelsInBlock_recast]

theorem labelsInArms_recast (steps : List (Nat × Nat)) (index arm : Nat) :
    ∀ arms : List CaseArm, labelsInArms steps index arm (recastCases ρ arms) =
      labelsInArms steps index arm arms
  | [] => rfl
  | .mk cond body span :: rest => by
    rw [recastCases, labelsInArms, labelsInArms, labelsInBlock_recast, labelsInArms_recast]

end

/-- **The table of labels** is the same. -/
theorem LabelTable.ofBody_recast (body : Block) :
    ofBody (body.map (Statement.recast ρ)) = ofBody body := by
  rw [ofBody, ofBody, ← Block.recast_eq, labelsInBlock_recast]

@[simp] theorem LabelTable.get?_recast (table : LabelTable) (name : String) :
    table.get? (ρ.text name) = table.get? name := by
  rw [get?, get?, Recast.fold_text]

/-- The same steps lead to the same block. -/
theorem Block.enter?_recast (block : Block) (steps : List (Nat × Nat)) :
    Block.enter? (block.map (Statement.recast ρ)) steps =
      (Block.enter? block steps).map (List.map (Statement.recast ρ)) := by
  induction steps generalizing block with
  | nil => rfl
  | cons step steps ih =>
    obtain ⟨s, b⟩ := step
    rw [enter?, enter?, List.getElem?_map]
    cases block[s]? with
    | none => rfl
    | some statement =>
      show ((statement.recast ρ).blocks[b]?).bind _ = ((statement.blocks[b]?).bind _).map _
      rw [Statement.blocks_recast, List.getElem?_map]
      cases statement.blocks[b]? with
      | none => rfl
      | some inner => exact ih inner

end BasicCheck
