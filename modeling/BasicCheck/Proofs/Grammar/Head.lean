import BasicCheck.Proofs.Expression.Target
import BasicCheck.Proofs.Grammar.Expression

/-!
# The word that a target opens with

A target that opens with a name and is an element of a matrix opens with the name of the matrix: no
bracket and no sign stands in front of it (**`tries_target`**).
-/

namespace BasicCheck.Grammar

open Parse

variable {s u : State} {e : Expr}

/-- If an expression is an element of a matrix, the name of the matrix is the token that comes next. -/
def IsHeaded (s : State) : Expr → Prop
  | .matrixIndex name _ _ _ => IsElement name s s.current
  | _ => True

theorem suffixed_isHeaded (s : State) : Suffixed (IsHeaded s) :=
  ⟨fun _ _ _ _ => trivial, fun _ _ _ => trivial, fun _ _ _ => trivial, fun _ _ _ _ => trivial⟩

theorem isHeaded_setBaseRole (role : Role) (h : IsHeaded s e) :
    IsHeaded s (e.setBaseRole role) := by
  cases e with
  | matrixIndex => exact h
  | _ => trivial

section Layer

variable {primary : Parser Expr}

theorem isHeaded_of_named (h : named primary s = (.ok e, u)) : IsHeaded s e := by
  obtain ⟨token, s', hadvance, h⟩ := of_run_bind h
  have htoken : s.advance.1 = token := Except.ok.inj (congrArg Prod.fst hadvance)
  obtain rfl : s.advance.2 = s' := congrArg Prod.snd hadvance
  rw [State.advance_fst] at htoken
  subst htoken
  obtain ⟨called, _, hsees, h⟩ := of_run_bind h
  cases hsees
  split at h
  · obtain ⟨_, _, hget, h⟩ := of_run_bind (p := MonadState.get) h
    cases hget
    rw [State.symbols_advance] at h
    split at h
    · rename_i hmatrix
      refine (?_ : Yields _ (IsHeaded s)) h
      exact Yields.behind fun _ => Yields.behind fun _ => Yields.behind fun _ =>
        Yields.pure ⟨rfl, rfl, hmatrix⟩
    · refine (?_ : Yields _ (IsHeaded s)) h
      refine Yields.behind fun known => ?_
      dsimp only
      split
      · exact Yields.behind fun _ => Yields.behind fun _ => Yields.behind fun _ => Yields.pure trivial
      · exact Yields.behind fun _ => Yields.behind fun _ => Yields.pure trivial
  · refine (?_ : Yields _ (IsHeaded s)) h
    refine Yields.behind fun known => ?_
    dsimp only
    split
    · exact Yields.pure trivial
    · exact Yields.behind fun _ => Yields.pure trivial

theorem yields_keywordOperand_isHeaded (s : State) (word : Keyword) :
    Yields (keywordOperand primary word) (IsHeaded s) := by
  refine Yields.behind fun token => Yields.behind fun isFunction => ?_
  split
  · exact Yields.behind fun _ => Yields.behind fun _ => Yields.behind fun _ => Yields.behind fun _ =>
      Yields.pure trivial
  · split
    · refine Yields.behind fun _ => Yields.behind fun cond => Yields.behind fun _ => ?_
      refine Yields.behind fun thenValue => Yields.behind fun _ => ?_
      exact Yields.behind fun elseValue => Yields.behind fun _ => Yields.pure trivial
    · split
      · exact Yields.behind fun _ => Yields.behind fun _ => Yields.pure trivial
      · exact Yields.behind fun _ => Yields.throw _

/-- An operand that opens with a name is headed by it. -/
theorem isHeaded_of_primaryLayer (hk : s.current.kind.IsName)
    (h : primaryLayer primary s = (.ok e, u)) : IsHeaded s e := by
  have hsuffixes {base : Expr} (hbase : IsHeaded s base) :
      Yields (suffixes primary base) (IsHeaded s) :=
    yields_suffixes (suffixed_isHeaded s) hbase
  obtain ⟨token, s', hcurrent, h⟩ := of_run_bind h
  cases hcurrent
  rcases hk with hk | hk | hk
  · rw [hk] at h
    obtain ⟨base, s', hbase, h⟩ := of_run_bind h
    exact hsuffixes (isHeaded_of_named hbase) h
  · rw [hk] at h
    refine (Yields.behind fun _ => Yields.behind fun _ => ?_ : Yields _ _) h
    exact yields_suffixes (suffixed_isHeaded s) trivial
  · cases hword : s.current.kind with
    | keyword word =>
      rw [hword] at h
      have hoperand : Yields (keywordOperand primary word) (IsHeaded s) :=
        yields_keywordOperand_isHeaded s word
      exact (hoperand.bind fun base hbase => hsuffixes hbase) h
    | _ =>
      rw [hword] at hk
      cases hk

end Layer

/-- **A target that opens with a name** is headed by it. -/
theorem isHeaded_of_target (hk : s.current.kind.IsName) (h : target s = (.ok e, u)) :
    IsHeaded s e := by
  obtain ⟨read, hread, hcases⟩ := target_cases h
  have hheaded : IsHeaded s read := by
    obtain ⟨_, _, hget, hlayer⟩ := of_run_bind (p := MonadState.get) hread
    cases hget
    exact isHeaded_of_primaryLayer hk hlayer
  rcases hcases with ⟨-, rfl⟩ | ⟨-, -, rfl⟩
  · exact hheaded
  · exact isHeaded_setBaseRole _ hheaded

theorem tries_target (hk : s.current.kind.IsName) :
    Tries s target fun e u => Derives e s u ∧ IsHeaded s e := by
  intro hs
  obtain ⟨honward, howes⟩ := derives_target s hs
  refine ⟨honward, ?_⟩
  rcases hrun : target.run s with ⟨r, u⟩
  rw [hrun] at howes
  cases r with
  | ok e => exact ⟨howes, isHeaded_of_target hk hrun⟩
  | error fault => exact howes

end BasicCheck.Grammar
