import BasicCheck.Proofs.Grammar.Resolved

/-!
# Declared classes exclude each other

A name can be that of an equate or of a variable. What a declaration makes of it is for good: an equate
never shares its name with a parameter, a common variable or a matrix, each of these was named by an
identifier, and an `equ`, a common variable or a matrix whose name is taken when it has been read to its
end is refused with an error at the name, and leaves the symbols as they are
(**`Procedure.classes_apart`**).

Names may be taken late: what stands between a name and its declaration is read first, and may bring a
variable of that name into being.
-/

namespace BasicCheck

namespace Parse

/-! ## 1. What is read in front of a declaration -/

/-- An `equ` up to where its name is declared. -/
def equateFront : Parser (Token × Expr) := do
  let token ← expectVariable
  discard <| expect (.keyword .TO)
  return (token, ← expression)

/-- A variable of a common block up to where its name is declared. -/
def commonFront : Parser (Token × Option (Expr × Option Expr)) := do
  let token ← expectVariable
  let size ← if ← sees .leftParen then some <$> rowAndColumn primary token.span else pure none
  return (token, size)

/-- A matrix up to where its name is declared. -/
def dimensionFront : Parser (Token × Expr × Option Expr) := do
  let token ← expectVariable
  return (token, ← rowAndColumn primary token.span)

theorem equateAction_eq : equateAction = equateFront >>= fun (token, value) => do
    declareAs .equate token (·.declareEquate token value)
    return .equate ⟨token.text, .assignment, token.span⟩ value := by
  simp only [equateAction, equateFront, bind_assoc, pure_bind]

theorem commonItem_eq : commonItem = commonFront >>= fun (token, size) => do
    declareAs .commonVariable token (·.declareCommonVariable token size)
    let name : Ident := ⟨token.text, .assignment, token.span⟩
    return ⟨name, size.map fun (rows, cols) => ⟨name, rows, cols⟩⟩ := by
  simp only [commonItem, commonFront, bind_assoc, pure_bind]
  refine bind_congr fun token => bind_congr fun sized => ?_
  cases sized
  · rfl
  · simp only [if_pos, bind_assoc, pure_bind]

theorem dimension_eq : dimension = dimensionFront >>= fun (token, rows, cols) => do
    declareAs .matrix token (·.declareMatrix token rows cols)
    return ⟨⟨token.text, .assignment, token.span⟩, rows, cols⟩ := by
  simp only [dimension, dimensionFront, bind_assoc, pure_bind]

/-! ## 2. Names that are taken -/

/-- A name cannot be declared: it belongs to the system, or an equate or a variable has it. -/
def Taken (symbols : SymbolTable) (t : Token) : Prop :=
  t.kind = .systemVariable ∨ symbols.contains .equate t.text = true ∨
    (symbols.lookup? .variable t.text).isSome

instance (symbols : SymbolTable) (t : Token) : Decidable (Taken symbols t) :=
  inferInstanceAs (Decidable (_ ∨ _ ∨ _))

/-- Nothing but an error at a token tells two states apart. -/
def Refused (t : Token) (s u : State) : Prop :=
  ∃ d : Diagnostic, d.isError = true ∧ d.span = t.span ∧
    u = { s with diagnostics := s.diagnostics.push d }

/-- What is taken is in conflict with any declaration. -/
theorem Taken.exists_conflict {symbols : SymbolTable} {t : Token} (h : Taken symbols t)
    (wanted : Declared) : ∃ cause, conflict? symbols t wanted = some cause := by
  refine Option.ne_none_iff_exists'.mp fun hnone => ?_
  obtain ⟨hsystem, hequate, hvariable⟩ := Grammar.of_conflict?_eq_none hnone
  rcases h with hkind | hthere | hthere
  · exact hsystem hkind
  · rw [hequate] at hthere
    cases hthere
  · rw [hvariable] at hthere
    cases hthere

/-- **A name that is taken is refused**, whatever it is to be declared as. -/
theorem Taken.refused {s : State} {t : Token} (h : Taken s.symbols t) (wanted : Declared)
    (f : SymbolTable → Bool × SymbolTable) : Refused t s (declareAs wanted t f s).2 := by
  obtain ⟨cause, hcause⟩ := h.exists_conflict wanted
  refine ⟨.ofFault ⟨cause, t.span⟩, ?_, rfl, by rw [Grammar.declareAs_of_conflict hcause]; rfl⟩
  rw [Diagnostic.isError, Diagnostic.ofFault, Grammar.severity_of_conflict? hcause]
  rfl

/-- What is read in front of a declaration of a name that is taken is given as it would be without it. -/
theorem Taken.run {α β : Type} {front : Parser α} {s u : State} {found : α} {t : Token}
    (h : Taken u.symbols t) (hfront : front.run s = (.ok found, u)) (wanted : Declared)
    (f : SymbolTable → Bool × SymbolTable) {rest : α → Parser β} {result : β}
    (hrest : rest found = do
      declareAs wanted t f
      return result) :
    ∃ v, Refused t u v ∧ (front >>= rest).run s = (.ok result, v) := by
  refine ⟨_, h.refused wanted f, ?_⟩
  rw [ExceptT.run_bind, step_bind hfront]
  dsimp only
  rw [hrest]
  rfl

end Parse

namespace Procedure

open Parse Grammar

variable {source : String} {file : Nat}

/-! ## 3. Texts -/

/-- **Declared classes exclude each other.** No equate has the name of a parameter, a common variable
    or a matrix; equates, common variables and matrices were named by identifiers, so never by a
    variable of the system; and where an `equ`, a common variable or a matrix is read to its end and its
    name is taken by then, it is refused: an error at the name is all that comes of it. -/
theorem classes_apart (source : String) (file : Nat) :
    (∀ a ∈ (ofText source file).symbols.symbols, ∀ b ∈ (ofText source file).symbols.symbols,
      a.kind = .equate → b.kind = .variable →
        b.scope? = some .parameter ∨ b.scope? = some .common ∨ b.isMatrix →
          Text.fold a.name ≠ Text.fold b.name) ∧
    (∀ b ∈ (ofText source file).symbols.symbols,
      b.kind = .equate ∨ b.scope? = some .common ∨ b.isMatrix →
        b.token ∈ (Lexed.ofText source file).primary ∧ b.token.kind = .ident) ∧
    (∀ (s u : State) (t : Token) (value : Expr), equateFront.run s = (.ok (t, value), u) →
      Taken u.symbols t → ∃ v, Refused t u v ∧
        equateAction.run s = (.ok (.equate ⟨t.text, .assignment, t.span⟩ value), v)) ∧
    (∀ (s u : State) (t : Token) (size : Option (Expr × Option Expr)),
      commonFront.run s = (.ok (t, size), u) → Taken u.symbols t → ∃ v, Refused t u v ∧
        commonItem.run s = (.ok ⟨⟨t.text, .assignment, t.span⟩,
          size.map fun (rows, cols) => ⟨⟨t.text, .assignment, t.span⟩, rows, cols⟩⟩, v)) ∧
    ∀ (s u : State) (t : Token) (rows : Expr) (cols : Option Expr),
      dimensionFront.run s = (.ok (t, rows, cols), u) → Taken u.symbols t → ∃ v, Refused t u v ∧
        dimension.run s = (.ok ⟨⟨t.text, .assignment, t.span⟩, rows, cols⟩, v) := by
  -- the symbols are those of a whole reading, whose stems say where each of them was bound
  obtain ⟨v, hv⟩ := exists_reading source file
  obtain ⟨read, htokens, hstems⟩ := hv.exists_stems
  have hposition {b : Symbol} (hb : b ∈ (ofText source file).symbols.symbols) :
      ∃ n : Nat, (ofText source file).symbols.symbols[n]? = some b :=
    Array.mem_iff_getElem?.mp hb
  refine ⟨fun a ha b hb hequate hvariable hclass => ?_, fun b hb hclass => ?_, ?_, ?_, ?_⟩
  · obtain ⟨i, hi⟩ := hposition ha
    obtain ⟨j, hj⟩ := hposition hb
    refine hstems.exclusive SymbolTable.exclusive_empty hi hj hequate hvariable ?_
    rcases hclass with hscope | hscope | hmatrix
    · exact Symbol.isBound_of_scope? hscope (Or.inl rfl)
    · exact Symbol.isBound_of_scope? hscope (Or.inr rfl)
    · exact Symbol.isBound_of_isMatrix hmatrix
  · obtain ⟨n, hn⟩ := hposition hb
    have hbound := hstems.bound hn (Nat.zero_le n) <| by
      rcases hclass with hequate | hscope | hmatrix
      · exact Symbol.isBound_of_kind hequate
      · exact Symbol.isBound_of_scope? hscope (Or.inr rfl)
      · exact Symbol.isBound_of_isMatrix hmatrix
    rw [htokens]
    exact ⟨List.mem_append_left _ hbound.1, hbound.2.1⟩
  · -- in the three declarations the name is declared last, and a name that is taken is refused
    intro s u t value hfront htaken
    rw [equateAction_eq]
    exact htaken.run hfront .equate _ rfl
  · intro s u t size hfront htaken
    rw [commonItem_eq]
    exact htaken.run hfront .commonVariable _ rfl
  · intro s u t rows cols hfront htaken
    rw [dimension_eq]
    exact htaken.run hfront .matrix _ rfl

/-- An equate and a matrix. -/
def boundText : String := "equ x to 5\ndim m(2)\n"

/-- The state in front of `m to 7`, where `m` is a matrix. -/
def retakenState : State :=
  { opening "m to 7\n" 0 with symbols := (ofText boundText 0).symbols }

/-- An equate and a matrix have two names, and an equate with the name of the matrix is refused. -/
theorem classes_apart_matrix :
    (∃ a ∈ (ofText boundText 0).symbols.symbols, ∃ b ∈ (ofText boundText 0).symbols.symbols,
      a.kind = .equate ∧ b.isMatrix ∧ Text.fold a.name ≠ Text.fold b.name) ∧
    ∃ (t : Token) (value : Expr) (u v : State), equateFront.run retakenState = (.ok (t, value), u) ∧
      Taken u.symbols t ∧ Refused t u v ∧
      equateAction.run retakenState = (.ok (.equate ⟨t.text, .assignment, t.span⟩ value), v) := by
  obtain ⟨happart, -, hequate, -⟩ := classes_apart boundText 0
  refine ⟨?_, ?_⟩
  · have hfound : (ofText boundText 0).symbols.symbols.any (fun a =>
        a.kind == .equate && (ofText boundText 0).symbols.symbols.any fun b =>
          b.kind == .variable && b.isMatrix) = true := by decide +kernel
    obtain ⟨a, ha, hin⟩ := Array.any_eq_true'.mp hfound
    obtain ⟨hkind, hin⟩ := Bool.and_eq_true_iff.mp hin
    obtain ⟨b, hb, hmatrix⟩ := Array.any_eq_true'.mp hin
    obtain ⟨hvariable, hmatrix⟩ := Bool.and_eq_true_iff.mp hmatrix
    refine ⟨a, ha, b, hb, eq_of_beq hkind, hmatrix, ?_⟩
    exact happart a ha b hb (eq_of_beq hkind) (eq_of_beq hvariable) (Or.inr (Or.inr hmatrix))
  · have hread : (match equateFront.run retakenState with
        | (.ok (t, _), u) => decide (Taken u.symbols t)
        | (.error _, _) => false) = true := by decide +kernel
    split at hread
    · rename_i t value u hrun
      have htaken := of_decide_eq_true hread
      obtain ⟨v, hrefused, hall⟩ := hequate _ u t value hrun htaken
      exact ⟨t, value, u, v, hrun, htaken, hrefused, hall⟩
    · cases hread

end Procedure

end BasicCheck
