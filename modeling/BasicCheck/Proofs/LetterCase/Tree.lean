import BasicCheck.Proofs.LetterCase.Lexed
import BasicCheck.Proofs.Recast.Tree

/-!
# Trees that differ in ASCII case

The tree with small letters in its names and literals (`Expr.lower`, `Statement.lower`). Small
letters are a way to write texts anew (`Recast.lowercase`), and a tree with small letters is the
tree that is written anew in this way (**`Expr.lower_eq_recast`**, **`Statement.lower_eq_recast`**);
so whatever is known of trees that are written anew is known of it.
-/

namespace BasicCheck

/-! ## 1. Small letters as a way to write anew -/

/-- Small letters in place of the capitals of ASCII, at the same places. -/
def Recast.lowercase : Recast where
  text := Text.lower
  char := Char.toLower
  place := id
  file := id
  fold_text := Text.fold_lower
  capitalize_text := Text.capitalize_lower
  text_append := Text.lower_append
  text_text s := by rw [← String.toList_inj]; simp
  text_char c := by rw [← String.toList_inj]; simp
  text_of_small {s} h := by
    have hsmall : ∀ c ∈ s.toList, c.toLower = c := fun c hc => eq_of_beq (List.all_eq_true.mp h c hc)
    rw [Text.lower, List.map_congr_left hsmall, List.map_id', String.ofList_toList]
  text_eq_iff := Text.lower_eq_iff
  place_le _ _ := Iff.rfl
  place_origin := rfl
  file_zero := rfl

open Recast (lowercase)

/-! ## 2. Expressions -/

/-- The identifier with small letters in its name. -/
def Ident.lower (i : Ident) : Ident := { i with name := Text.lower i.name }

theorem Ident.lower_eq_recast (i : Ident) : i.lower = i.recast lowercase := rfl

namespace Expr

mutual

/-- The expression with small letters in its names and literals. -/
def lower : Expr → Expr
  | .variable ident => .variable ident.lower
  | number text span => number (Text.lower text) span
  | string value span => string (Text.lower value) span
  | binary op left right span => binary op left.lower right.lower span
  | negate inner span => negate inner.lower span
  | arrayIndex base indexes span => arrayIndex base.lower (lowerAll indexes) span
  | substring base indexes span => substring base.lower (lowerAll indexes) span
  | matrixIndex name row col span => matrixIndex name.lower row.lower (lowerOption col) span
  | call name args span => call name.lower (lowerAll args) span
  | conditional cond thenValue elseValue span =>
    conditional cond.lower thenValue.lower elseValue.lower span
  | property object member span => property object.lower member.lower span
  | method object member args span => method object.lower member.lower (lowerAll args) span

/-- Several expressions with small letters. -/
def lowerAll : List Expr → List Expr
  | [] => []
  | e :: rest => e.lower :: lowerAll rest

/-- An expression that may be missing, with small letters. -/
def lowerOption : Option Expr → Option Expr
  | none => none
  | some e => some e.lower

end

mutual

/-- An expression with small letters is written anew. -/
theorem lower_eq_recast : ∀ e : Expr, e.lower = e.recast lowercase
  | .variable _ | number _ _ | string _ _ => rfl
  | binary op left right span => by
    rw [lower, lower_eq_recast left, lower_eq_recast right]
    rfl
  | negate inner span => by
    rw [lower, lower_eq_recast inner]
    rfl
  | arrayIndex base indexes span | substring base indexes span => by
    rw [lower, lower_eq_recast base, lowerAll_eq_recast indexes]
    rfl
  | matrixIndex name row col span => by
    rw [lower, lower_eq_recast row, lowerOption_eq_recast col]
    rfl
  | call name args span => by
    rw [lower, lowerAll_eq_recast args]
    rfl
  | conditional cond thenValue elseValue span => by
    rw [lower, lower_eq_recast cond, lower_eq_recast thenValue, lower_eq_recast elseValue]
    rfl
  | property object member span => by
    rw [lower, lower_eq_recast object]
    rfl
  | method object member args span => by
    rw [lower, lower_eq_recast object, lowerAll_eq_recast args]
    rfl

theorem lowerAll_eq_recast : ∀ es : List Expr, lowerAll es = recastAll lowercase es
  | [] => rfl
  | e :: rest => by rw [lowerAll, recastAll, lower_eq_recast e, lowerAll_eq_recast rest]

theorem lowerOption_eq_recast : ∀ e : Option Expr, lowerOption e = recastOption lowercase e
  | none => rfl
  | some e => by rw [lowerOption, recastOption, lower_eq_recast e]

end

/-- Small letters make of every expression what writing it anew makes of it. -/
theorem lower_eq : lower = recast lowercase := funext lower_eq_recast

end Expr

/-! ## 3. Statements -/

def Dimension.lower (d : Dimension) : Dimension :=
  ⟨d.name.lower, d.rows.lower, d.cols.map Expr.lower⟩

def CommonItem.lower (item : CommonItem) : CommonItem :=
  ⟨item.name.lower, item.size.map Dimension.lower⟩

def Counter.lower (c : Counter) : Counter :=
  ⟨c.name.lower, c.start.lower, c.limit.lower, c.step.map Expr.lower⟩

/-- The action with small letters. -/
def Action.lower : Action → Action
  | assignment target op value => assignment target.lower op value.lower
  | matrixAssignment name row col value =>
    matrixAssignment name.lower row.lower (col.map Expr.lower) value.lower
  | mat name value => mat name.lower value.lower
  | loopCondition test cond => loopCondition test cond.lower
  | gosub target => gosub target.lower
  | goto target => goto target.lower
  | onJump jump selector labels =>
    onJump jump selector.lower (labels.map Ident.lower)
  | label name => label name.lower
  | .return value => .return (value.map Expr.lower)
  | call name args indirect => call name.lower (args.map Expr.lower) indirect
  | subroutineCall name args => subroutineCall name.lower (args.map Expr.lower)
  | memberCall target => memberCall target.lower
  | declare routine names => declare routine (names.map Ident.lower)
  | equate name value => equate name.lower value.lower
  | common block items => common (block.map Ident.lower) (items.map CommonItem.lower)
  | dim matrices => dim (matrices.map Dimension.lower)
  | insert name => insert name.lower
  | swap old new target => swap old.lower new.lower target.lower
  | convert source result target =>
    convert source.lower result.lower target.lower
  | transfer source target => transfer source.lower target.lower
  | remove target source position flag =>
    remove target.lower source.lower position.lower flag.lower
  | select source => select source.lower
  | clearSelect cursor => clearSelect (cursor.map Expr.lower)
  | osWrite value path => osWrite value.lower path.lower
  | osBRead target handle position length =>
    osBRead target.lower handle.lower position.lower length.lower
  | osBWrite value handle position =>
    osBWrite value.lower handle.lower position.lower
  | osClose handle => osClose handle.lower
  | osDelete path => osDelete path.lower
  | matParse source name delimiter =>
    matParse source.lower name.lower (delimiter.map Expr.lower)
  | initRnd seed => initRnd seed.lower
  | flush => flush
  | garbageCollect => garbageCollect
  | null => null
  | debug => debug
  | stop => stop
  | finish => finish
  | empty => empty

/-- The decision with small letters. -/
def Decision.lower : Decision → Decision
  | condition cond => condition cond.lower
  | read form target file key column =>
    read form target.lower file.lower key.lower (column.map Expr.lower)
  | matRead name file key => matRead name.lower file.lower key.lower
  | readNext target cursor => readNext target.lower (cursor.map Expr.lower)
  | write form value file key column =>
    write form value.lower file.lower key.lower (column.map Expr.lower)
  | matWrite name file key => matWrite name.lower file.lower key.lower
  | .open dict table handle =>
    .open (dict.map Expr.lower) table.lower handle.lower
  | delete file key => delete file.lower key.lower
  | lock file key => lock file.lower key.lower
  | unlock file key => unlock file.lower key.lower
  | locate needle haystack delimiter order position =>
    locate needle.lower haystack.lower (delimiter.map Expr.lower)
      (order.map Expr.lower) position.lower
  | osRead target path => osRead target.lower path.lower
  | osOpen path handle => osOpen path.lower handle.lower

mutual

/-- The statement with small letters. -/
def Statement.lower : Statement → Statement
  | .action form span => .action form.lower span
  | .decision test thenArm elseArm span =>
    .decision test.lower (lowerArm thenArm) (lowerArm elseArm) span
  | .counted counter body closing span =>
    .counted counter.lower (Block.lower body) (closing.map Ident.lower) span
  | .loop body span => .loop (Block.lower body) span
  | .choice arms span => .choice (lowerCases arms) span

/-- The arm of a decision with small letters. -/
def lowerArm : Option (List Statement) → Option (List Statement)
  | none => none
  | some body => some (Block.lower body)

/-- The block with small letters. -/
def Block.lower : List Statement → List Statement
  | [] => []
  | s :: rest => s.lower :: Block.lower rest

/-- The arms of a choice with small letters. -/
def lowerCases : List CaseArm → List CaseArm
  | [] => []
  | .mk cond body span :: rest => .mk cond.lower (Block.lower body) span :: lowerCases rest

end

theorem Dimension.lower_eq : lower = recast lowercase := by
  funext d
  rw [lower, recast, Expr.lower_eq]
  rfl

theorem CommonItem.lower_eq : lower = recast lowercase := by
  funext item
  rw [lower, recast, Dimension.lower_eq]
  rfl

theorem Counter.lower_eq : lower = recast lowercase := by
  funext c
  rw [lower, recast, Expr.lower_eq]
  rfl

/-- An action with small letters is written anew. -/
theorem Action.lower_eq_recast (a : Action) : a.lower = a.recast lowercase := by
  cases a <;> unfold lower recast <;>
    simp only [Expr.lower_eq, Dimension.lower_eq, CommonItem.lower_eq] <;> rfl

theorem Decision.lower_eq_recast (d : Decision) : d.lower = d.recast lowercase := by
  cases d <;> unfold lower recast <;> simp only [Expr.lower_eq] <;> rfl

mutual

/-- A statement with small letters is written anew. -/
theorem Statement.lower_eq_recast : ∀ s : Statement, s.lower = s.recast lowercase
  | .action form span => by
    rw [Statement.lower, form.lower_eq_recast]
    rfl
  | .decision test thenArm elseArm span => by
    rw [Statement.lower, test.lower_eq_recast, lowerArm_eq_recast thenArm,
      lowerArm_eq_recast elseArm]
    rfl
  | .counted counter body closing span => by
    rw [Statement.lower, Counter.lower_eq, Block.lower_eq_recast body]
    rfl
  | .loop body span => by
    rw [Statement.lower, Block.lower_eq_recast body]
    rfl
  | .choice arms span => by
    rw [Statement.lower, lowerCases_eq_recast arms]
    rfl

theorem lowerArm_eq_recast : ∀ arm : Option (List Statement), lowerArm arm = recastArm lowercase arm
  | none => rfl
  | some body => by rw [lowerArm, recastArm, Block.lower_eq_recast body]

theorem Block.lower_eq_recast : ∀ body : List Statement,
    Block.lower body = Block.recast lowercase body
  | [] => rfl
  | s :: rest => by
    rw [Block.lower, Block.recast, Statement.lower_eq_recast s, Block.lower_eq_recast rest]

theorem lowerCases_eq_recast : ∀ arms : List CaseArm, lowerCases arms = recastCases lowercase arms
  | [] => rfl
  | .mk cond body span :: rest => by
    rw [lowerCases, recastCases, Expr.lower_eq, Block.lower_eq_recast body,
      lowerCases_eq_recast rest]
    rfl

end

theorem Statement.lower_eq : lower = recast lowercase := funext lower_eq_recast

end BasicCheck
