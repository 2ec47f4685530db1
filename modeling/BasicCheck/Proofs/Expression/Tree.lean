import BasicCheck.Expr

/-!
# All expressions of an expression

An expression is put together from others (`Expr.parts`), and these from further ones
(`Expr.within`). The identifiers of an expression are the names that it and the expressions within it
hold themselves (`Expr.mem_idents_iff`).
-/

namespace BasicCheck.Expr

/-- The expressions that an expression is put together from. -/
def parts : Expr → List Expr
  | .variable _ | number _ _ | string _ _ => []
  | binary _ left right _ => [left, right]
  | negate inner _ => [inner]
  | arrayIndex base indexes _ | substring base indexes _ => base :: indexes
  | matrixIndex _ row col _ => row :: col.toList
  | call _ args _ => args
  | conditional cond thenValue elseValue _ => [cond, thenValue, elseValue]
  | property object _ _ => [object]
  | method object _ args _ => object :: args

/-- The names of an expression outside its parts. -/
def names : Expr → List Ident
  | .variable ident => [ident]
  | matrixIndex name _ _ _ => [name]
  | call name _ _ => [name]
  | property _ member _ | method _ member _ _ => [member]
  | number _ _ | string _ _ | binary _ _ _ _ | negate _ _ | arrayIndex _ _ _ | substring _ _ _
  | conditional _ _ _ _ => []

mutual

/-- The expressions within an expression, at every depth. -/
def within : Expr → List Expr
  | .variable _ | number _ _ | string _ _ => []
  | binary _ left right _ => left :: (left.within ++ right :: right.within)
  | negate inner _ => inner :: inner.within
  | arrayIndex base indexes _ | substring base indexes _ =>
    base :: (base.within ++ withinAll indexes)
  | matrixIndex _ row none _ => row :: row.within
  | matrixIndex _ row (some col) _ => row :: (row.within ++ col :: col.within)
  | call _ args _ => withinAll args
  | conditional cond thenValue elseValue _ =>
    cond :: (cond.within ++ thenValue :: (thenValue.within ++ elseValue :: elseValue.within))
  | property object _ _ => object :: object.within
  | method object _ args _ => object :: (object.within ++ withinAll args)

/-- Several expressions and those within them. -/
def withinAll : List Expr → List Expr
  | [] => []
  | e :: rest => e :: (e.within ++ withinAll rest)

end

/-- An expression and all within it. -/
def all (e : Expr) : List Expr := e :: e.within

theorem withinAll_eq_flatMap (es : List Expr) : withinAll es = es.flatMap all := by
  induction es with
  | nil => rfl
  | cons e rest ih => simp [withinAll, ih, all]

/-- What is within an expression is in one of its parts. -/
theorem within_eq (e : Expr) : e.within = e.parts.flatMap all := by
  cases e with
  | matrixIndex name row col span => cases col <;> simp [within, parts, all]
  | _ => simp [within, parts, all, withinAll_eq_flatMap]

theorem mem_all_self (e : Expr) : e ∈ e.all := List.mem_cons_self

/-- What holds of all of an expression holds of itself and of all of its parts. -/
theorem forall_mem_all {P : Expr → Prop} {e : Expr} :
    (∀ x ∈ e.all, P x) ↔ P e ∧ ∀ part ∈ e.parts, ∀ x ∈ part.all, P x := by
  rw [all, List.forall_mem_cons, within_eq]
  exact and_congr_right fun _ => List.forall_mem_flatMap

/-- Induction over expressions by their parts. -/
theorem inductionOnParts {P : Expr → Prop} (h : ∀ e, (∀ part ∈ e.parts, P part) → P e) (e : Expr) :
    P e := by
  induction e using Expr.rec (motive_2 := fun es => ∀ e ∈ es, P e)
    (motive_3 := fun found => ∀ e ∈ found, P e)
  case nil x hx => exact absurd hx List.not_mem_nil
  case cons e rest he hrest x hx => exact List.forall_mem_cons.mpr ⟨he, hrest⟩ x hx
  case none x hx => cases hx
  case some e he x hx =>
    cases hx
    exact he
  all_goals
    apply h
    simp_all [parts]

theorem mem_idents_iff_names {i : Ident} {e : Expr} :
    i ∈ e.idents ↔ i ∈ e.names ∨ ∃ part ∈ e.parts, i ∈ part.idents := by
  cases e with
  | matrixIndex name row col span => cases col <;> simp [idents, names, parts]
  | property object member span => simp [idents, names, parts, or_comm]
  | method object member args span =>
    simp [idents, names, parts, identsOfAll_eq_flatMap, or_left_comm]
  | _ => simp [idents, names, parts, identsOfAll_eq_flatMap]

/-- **The identifiers of an expression** are the names in it, at every depth. -/
theorem mem_idents_iff {i : Ident} {e : Expr} : i ∈ e.idents ↔ ∃ x ∈ e.all, i ∈ x.names := by
  induction e using inductionOnParts with
  | h e ih =>
    rw [mem_idents_iff_names, all, within_eq]
    constructor
    · rintro (hi | ⟨part, hpart, hi⟩)
      · exact ⟨e, List.mem_cons_self, hi⟩
      · obtain ⟨x, hx, hname⟩ := (ih part hpart).mp hi
        exact ⟨x, List.mem_cons_of_mem _ (List.mem_flatMap.mpr ⟨part, hpart, hx⟩), hname⟩
    · rintro ⟨x, hx, hname⟩
      rcases List.mem_cons.mp hx with rfl | hx
      · exact Or.inl hname
      · obtain ⟨part, hpart, hin⟩ := List.mem_flatMap.mp hx
        exact Or.inr ⟨part, hpart, (ih part hpart).mpr ⟨x, hin, hname⟩⟩

end BasicCheck.Expr
