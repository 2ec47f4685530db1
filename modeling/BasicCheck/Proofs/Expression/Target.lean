import BasicCheck.Proofs.Parse.Expression

/-!
# What a target does to its base identifier

What parsers give where they succeed is told by a judgement that forgets the states (`Yields`), with
one rule for each way in which the grammar puts parsers together. The grammar of operands gives
expressions whose base identifier is a reference, and it puts indexes behind names and calls only
(`Expr.IsRead`, **`yields_primary`**). So the role of the base identifier of a target is settled by
its last suffix alone (**`role_of_target`**): a member leaves a reference, everything else makes an
assignment, a part of a text also where it is taken from a member of an object.
-/

namespace BasicCheck

/-! ## 1. Ways to the base identifier -/

namespace Expr

/-- Whether the way from an expression to its base identifier passes through a member of an object. -/
def throughMember : Expr → Bool
  | property _ _ _ | method _ _ _ _ => true
  | arrayIndex base _ _ | substring base _ _ => base.throughMember
  | _ => false

/-- A part of a text. -/
def isSubstring : Expr → Bool
  | substring _ _ _ => true
  | _ => false

/-- An expression as an operand is read: its base identifier is a reference, and nothing stands behind
    a member of an object but members and parts of texts. -/
structure IsRead (e : Expr) : Prop where
  role : ∀ i, e.baseIdent? = some i → i.role = .reference
  shape : e.throughMember → e.isMember ∨ e.isSubstring

/-- What names nothing that could be written to. -/
theorem IsRead.of_baseless {e : Expr} (hbase : e.baseIdent? = none)
    (hway : e.throughMember = false) : e.IsRead := by
  refine ⟨fun i hi => ?_, fun h => ?_⟩
  · rw [hbase] at hi
    cases hi
  · rw [hway] at h
    cases h

theorem IsRead.variable (name : String) (span : Span) :
    (Expr.variable ⟨name, .reference, span⟩).IsRead := by
  refine ⟨fun i hi => ?_, nofun⟩
  cases hi
  rfl

theorem IsRead.matrixIndex (name : String) (at_ : Span) (row : Expr) (col : Option Expr)
    (span : Span) : (Expr.matrixIndex ⟨name, .reference, at_⟩ row col span).IsRead := by
  refine ⟨fun i hi => ?_, nofun⟩
  cases hi
  rfl

/-- An index list stands behind a name or a call, which no member comes before. -/
theorem IsRead.arrayIndex {base : Expr} (h : base.IsRead) (hindexable : base.isIndexable)
    (indexes : List Expr) (span : Span) : (Expr.arrayIndex base indexes span).IsRead := by
  refine ⟨h.role, fun hway => ?_⟩
  cases base with
  | «variable» | matrixIndex | call => cases hway
  | _ => cases hindexable

theorem IsRead.substring {base : Expr} (h : base.IsRead) (indexes : List Expr) (span : Span) :
    (Expr.substring base indexes span).IsRead :=
  ⟨h.role, fun _ => .inr rfl⟩

theorem IsRead.property {object : Expr} (h : object.IsRead) (member : Ident) (span : Span) :
    (Expr.property object member span).IsRead :=
  ⟨h.role, fun _ => .inl rfl⟩

theorem IsRead.method {object : Expr} (h : object.IsRead) (member : Ident) (args : List Expr)
    (span : Span) : (Expr.method object member args span).IsRead :=
  ⟨h.role, fun _ => .inl rfl⟩

/-- **The base identifier is the first identifier** of an expression, and another role for it leaves
    the others as they are. -/
theorem idents_of_baseIdent? {e : Expr} {i : Ident} (hi : e.baseIdent? = some i) :
    ∃ others, e.idents = i :: others ∧
      ∀ role, (e.setBaseRole role).idents = { i with role } :: others := by
  fun_induction baseIdent? e with
  | case1 ident =>
    cases hi
    exact ⟨[], rfl, fun _ => rfl⟩
  | case2 name row col span =>
    cases hi
    cases col with
    | none => exact ⟨row.idents, rfl, fun _ => rfl⟩
    | some col => exact ⟨row.idents ++ col.idents, rfl, fun _ => rfl⟩
  | case3 base indexes span ih | case4 base indexes span ih =>
    obtain ⟨others, hidents, hset⟩ := ih hi
    refine ⟨others ++ identsOfAll indexes, by rw [idents, hidents, List.cons_append], fun role => ?_⟩
    rw [setBaseRole, idents, hset, List.cons_append]
  | case5 object member span ih =>
    obtain ⟨others, hidents, hset⟩ := ih hi
    refine ⟨others ++ [member], by rw [idents, hidents, List.cons_append], fun role => ?_⟩
    rw [setBaseRole, idents, hset, List.cons_append]
  | case6 object member args span ih =>
    obtain ⟨others, hidents, hset⟩ := ih hi
    refine ⟨others ++ member :: identsOfAll args, by rw [idents, hidents, List.cons_append],
      fun role => ?_⟩
    rw [setBaseRole, idents, hset, List.cons_append]
  | case7 => cases hi

/-- Another role leaves the way to the base identifier as it is. -/
theorem isSubstring_setBaseRole (role : Role) (e : Expr) :
    (e.setBaseRole role).isSubstring = e.isSubstring := by
  cases e <;> rfl

theorem throughMember_setBaseRole (role : Role) (e : Expr) :
    (e.setBaseRole role).throughMember = e.throughMember := by
  fun_induction setBaseRole role e <;> simp_all [throughMember]

theorem throughMember_of_isMember {e : Expr} (h : e.isMember) : e.throughMember := by
  cases e with
  | property | method => rfl
  | _ => cases h

theorem not_isSubstring_of_isMember {e : Expr} (h : e.isMember) : ¬ e.isSubstring := by
  cases e with
  | property | method => exact Bool.false_ne_true
  | _ => cases h

end Expr

namespace Parse

variable {α β : Type}

/-! ## 2. What parsers give -/

/-- A sequence of parsers succeeds only if both do. -/
theorem of_run_bind {p : Parser α} {f : α → Parser β} {s v : State} {b : β}
    (h : (p >>= f) s = (.ok b, v)) : ∃ a u, p s = (.ok a, u) ∧ f a u = (.ok b, v) := by
  rcases hr : p s with ⟨r, u⟩
  cases r with
  | ok a => exact ⟨a, u, rfl, (run_bind hr).symm.trans h⟩
  | error fault =>
    have hfails : (p >>= f) s = (.error fault, u) := by
      show ExceptT.bindCont f (p s).1 (p s).2 = _
      rw [hr]
      rfl
    rw [hfails] at h
    cases h

/-- Whatever a parser gives satisfies `Q`. -/
def Yields (p : Parser α) (Q : α → Prop) : Prop :=
  ∀ ⦃s : State⦄ ⦃a : α⦄ ⦃u : State⦄, p s = (.ok a, u) → Q a

/-- What a turn of a loop ends with: the invariant if the loop goes on, else what the loop gives. -/
def Turn.Yields (I : α → Prop) (Q : β → Prop) : Turn α β → Prop
  | .again a => I a
  | .done b => Q b

namespace Yields

variable {p : Parser α} {f : α → Parser β} {P : α → Prop} {Q : β → Prop}

theorem pure {b : β} (h : Q b) : Yields (Pure.pure b) Q := by
  intro s a u hrun
  cases hrun
  exact h

theorem throw (fault : Fault) : Yields (throw fault) Q := by
  intro s a u hrun
  cases hrun

theorem bind (hp : Yields p P) (hf : ∀ a, P a → Yields (f a) Q) : Yields (p >>= f) Q := by
  intro s b v hrun
  obtain ⟨a, u, hfirst, hrest⟩ := of_run_bind hrun
  exact hf a (hp hfirst) hrest

/-- A parser in front of another one, whatever it gives. -/
theorem behind (hf : ∀ a, Yields (f a) Q) : Yields (p >>= f) Q :=
  bind (P := fun _ => True) (fun _ _ _ _ => trivial) fun a _ => hf a

/-- Nothing is given behind a parser that always fails. -/
theorem fails (hp : Yields p fun _ => False) : Yields (p >>= f) Q := hp.bind fun _ h => h.elim

/-- **A loop gives what its last turn gives**; one that is given up fails. -/
theorem tryLoop {body : α → Parser (Turn α β)} {I : α → Prop} {a : α} (hstart : I a)
    (hbody : ∀ a, I a → Yields (body a) (Turn.Yields I Q)) : Yields (Parse.tryLoop body a) Q := by
  -- on the turns that are left; without one the loop is given up, and there is no result to speak of
  have hturns (n : Nat) : ∀ a, I a → Yields (turns body n a) Q := by
    induction n with
    | zero =>
      intro a _ s b u hrun
      cases hrun
    | succ n ih =>
      intro a ha s b v hrun
      rcases hr : body a s with ⟨r, u⟩
      cases r with
      | ok turn =>
        have hturn := hbody a ha hr
        cases turn with
        | again a' =>
          rw [turns_again hr] at hrun
          exact ih a' hturn hrun
        | done b' =>
          rw [turns_done hr] at hrun
          cases hrun
          exact hturn
      | error fault =>
        have hfails : turns body (n + 1) a s = (.error fault, u) := by
          refine (step_bind (a := Turn.done (.error fault)) (u := u) ?_).trans rfl
          exact (step_bind hr).trans rfl
        rw [hfails] at hrun
        cases hrun
  intro s b u hrun
  exact hturns _ a hstart (tryLoop_eq.symm.trans hrun)

end Yields

/-! ## 3. The grammar of operands -/

/-- A parser gives expressions as operands are read. -/
def ReadsOnly (p : Parser Expr) : Prop := Yields p Expr.IsRead

theorem readsOnly_chain {operand : Parser Expr} (ho : ReadsOnly operand)
    (isOperator : Kind → Bool) : ReadsOnly (chain operand isOperator) := by
  refine ho.bind fun first hfirst => Yields.tryLoop hfirst fun left hleft => ?_
  refine Yields.behind fun kind => ?_
  split
  · exact Yields.behind fun op => Yields.behind fun right =>
      Yields.pure (Expr.IsRead.of_baseless rfl rfl)
  · exact Yields.pure hleft

section Levels

variable {primary : Parser Expr}

theorem readsOnly_expressionOver (hp : ReadsOnly primary) : ReadsOnly (expressionOver primary) :=
  readsOnly_chain (readsOnly_chain (readsOnly_chain (readsOnly_chain (readsOnly_chain
    (readsOnly_chain hp _) _) _) _) _) _

/-- What holds of an operand holds of it with one more suffix. -/
structure Suffixed (P : Expr → Prop) : Prop where
  arrayIndex : ∀ {base : Expr}, P base → base.isIndexable → ∀ indexes span,
    P (.arrayIndex base indexes span)
  substring : ∀ {base : Expr}, P base → ∀ indexes span, P (.substring base indexes span)
  property : ∀ {object : Expr}, P object → ∀ member span, P (.property object member span)
  method : ∀ {object : Expr}, P object → ∀ member args span, P (.method object member args span)

theorem suffixed_isRead : Suffixed Expr.IsRead := ⟨.arrayIndex, .substring, .property, .method⟩

section Suffixes

variable {P : Expr → Prop} (hP : Suffixed P)

include hP

theorem yields_substringOf {base : Expr} (h : P base) : Yields (substringOf primary base) P := by
  refine Yields.behind fun _ => Yields.behind fun indexes => Yields.behind fun _ => ?_
  refine Yields.behind fun span => ?_
  dsimp only
  split
  · exact Yields.behind fun _ => Yields.pure (hP.substring h indexes span)
  · exact Yields.pure (hP.substring h indexes span)

theorem yields_memberOf {object : Expr} (h : P object) : Yields (memberOf primary object) P := by
  refine Yields.behind fun _ => Yields.behind fun token => ?_
  dsimp only
  split
  · refine Yields.behind fun called => ?_
    split
    · exact Yields.behind fun args => Yields.behind fun span => Yields.pure (hP.method h _ args span)
    · exact Yields.behind fun span => Yields.pure (hP.property h _ span)
  · exact Yields.fails (p := throw _) (Yields.throw _)

/-- **Suffixes** keep what an operand is. -/
theorem yields_suffixes {base : Expr} (h : P base) : Yields (suffixes primary base) P := by
  refine Yields.tryLoop h fun e he => Yields.behind fun kind => ?_
  split
  · split
    · rename_i hindexable
      refine Yields.behind fun found => ?_
      cases found with
      | none => exact Yields.pure he
      | some indexes =>
        exact Yields.behind fun span => Yields.pure (hP.arrayIndex he hindexable indexes span)
    · exact Yields.pure he
  · exact (yields_substringOf hP he).bind fun e' he' => Yields.pure he'
  · exact (yields_memberOf hP he).bind fun e' he' => Yields.pure he'
  · exact Yields.pure he

end Suffixes

theorem yields_callOf (name : Ident) : Yields (callOf primary name) Expr.IsRead :=
  Yields.behind fun _ => Yields.behind fun _ => Yields.pure (.of_baseless rfl rfl)

theorem yields_named : Yields (named primary) Expr.IsRead := by
  refine Yields.behind fun token => Yields.behind fun called => ?_
  split
  · refine Yields.behind fun s => ?_
    split
    · refine Yields.behind fun _ => Yields.behind fun found => ?_
      exact Yields.behind fun span => Yields.pure (.matrixIndex token.text token.span _ _ span)
    · refine Yields.behind fun known => ?_
      dsimp only
      split
      · exact Yields.behind fun _ => yields_callOf _
      · exact yields_callOf _
  · refine Yields.behind fun known => ?_
    dsimp only
    split
    · exact Yields.pure (.variable token.text token.span)
    · exact Yields.behind fun _ => Yields.pure (.variable token.text token.span)

theorem yields_keywordOperand (word : Keyword) :
    Yields (keywordOperand primary word) Expr.IsRead := by
  refine Yields.behind fun token => Yields.behind fun isFunction => ?_
  split
  · exact Yields.behind fun _ => Yields.behind fun _ => yields_callOf _
  · split
    · refine Yields.behind fun _ => Yields.behind fun cond => Yields.behind fun _ => ?_
      refine Yields.behind fun thenValue => Yields.behind fun _ => ?_
      exact Yields.behind fun elseValue => Yields.behind fun _ =>
        Yields.pure (.of_baseless rfl rfl)
    · split
      · exact Yields.behind fun _ => Yields.behind fun _ =>
          Yields.pure (.variable token.text token.span)
      · exact Yields.behind fun _ => Yields.throw _

/-- **One layer of operands** over operands that are as they are read. -/
theorem readsOnly_primaryLayer (hp : ReadsOnly primary) : ReadsOnly (primaryLayer primary) := by
  refine Yields.behind fun token => ?_
  split
  · exact Yields.behind fun _ => yields_suffixes suffixed_isRead (.of_baseless rfl rfl)
  · exact Yields.behind fun _ => yields_suffixes suffixed_isRead (.of_baseless rfl rfl)
  · exact Yields.behind fun _ => yields_suffixes suffixed_isRead (.of_baseless rfl rfl)
  · refine Yields.behind fun _ => (readsOnly_expressionOver hp).bind fun inner hinner => ?_
    exact Yields.behind fun _ => yields_suffixes suffixed_isRead hinner
  · exact Yields.behind fun _ => Yields.behind fun inner => Yields.pure (.of_baseless rfl rfl)
  · exact Yields.behind fun _ => hp
  · refine Yields.behind fun _ => Yields.behind fun called => ?_
    split
    · exact (yields_callOf _).bind fun base hbase => yields_suffixes suffixed_isRead hbase
    · exact Yields.behind fun _ => Yields.throw _
  · exact Yields.behind fun _ => Yields.behind fun _ =>
      yields_suffixes suffixed_isRead (.variable token.text token.span)
  · exact yields_named.bind fun base hbase => yields_suffixes suffixed_isRead hbase
  · exact (yields_keywordOperand _).bind fun base hbase => yields_suffixes suffixed_isRead hbase
  · exact Yields.throw _

end Levels

/-- **An operand** has a reference for its base identifier. -/
theorem yields_primary : Yields primary Expr.IsRead :=
  Yields.behind (p := MonadState.get) fun s =>
    of_layers ReadsOnly primaryLayer (Yields.throw _) (fun _ => readsOnly_primaryLayer) (s.size + 1)

/-! ## 4. Targets -/

variable {s u : State} {e : Expr}

/-- A target is an operand: a member as it stands, else with a base identifier that is marked. -/
theorem target_cases (h : target s = (.ok e, u)) : ∃ read, primary s = (.ok read, u) ∧
    (read.isMember ∧ e = read ∨
      read.isMember = false ∧ read.baseIdent?.isSome ∧ e = read.setBaseRole .assignment) := by
  obtain ⟨token, s', hcurrent, h⟩ := of_run_bind h
  cases hcurrent
  obtain ⟨read, v, hread, h⟩ := of_run_bind h
  refine ⟨read, ?_⟩
  split at h
  · rename_i hmember
    cases h
    exact ⟨hread, .inl ⟨hmember, rfl⟩⟩
  · rename_i hmember
    split at h
    · rename_i hbase
      cases h
      exact ⟨hread, .inr ⟨Bool.eq_false_iff.mpr hmember, hbase, rfl⟩⟩
    · cases h

/-- **The role of the base identifier of a target.** It is a reference if the way to it passes through
    a member of an object, unless the last suffix is a part of a text, and an assignment otherwise. The
    other identifiers have the roles that they were read with. -/
theorem role_of_target (h : target s = (.ok e, u)) : ∃ read, primary s = (.ok read, u) ∧
    (∀ i, e.baseIdent? = some i →
      i.role = if e.throughMember ∧ ¬ e.isSubstring then .reference else .assignment) ∧
    (e = read ∨ ∃ i others, read.baseIdent? = some i ∧ read.idents = i :: others ∧
      e.baseIdent? = some { i with role := .assignment } ∧
      e.idents = { i with role := .assignment } :: others) := by
  obtain ⟨read, hread, ⟨hmember, rfl⟩ | ⟨hmember, hbase, rfl⟩⟩ := target_cases h
  · refine ⟨e, hread, fun i hi => ?_, .inl rfl⟩
    rw [if_pos ⟨Expr.throughMember_of_isMember hmember, Expr.not_isSubstring_of_isMember hmember⟩]
    exact (yields_primary hread).role i hi
  · obtain ⟨i, hi⟩ := Option.isSome_iff_exists.mp hbase
    obtain ⟨others, hidents, hset⟩ := Expr.idents_of_baseIdent? hi
    have hbase' : (read.setBaseRole .assignment).baseIdent? =
        some { i with role := .assignment } := by
      rw [Expr.baseIdent?_setBaseRole, hi, Option.map_some]
    refine ⟨read, hread, fun j hj => ?_, .inr ⟨i, others, hi, hidents, hbase', hset _⟩⟩
    cases hbase'.symm.trans hj
    rw [if_neg]
    rw [Expr.throughMember_setBaseRole, Expr.isSubstring_setBaseRole]
    rintro ⟨hway, hpart⟩
    rcases (yields_primary hread).shape hway with hread' | hread'
    · rw [hmember] at hread'
      cases hread'
    · exact hpart hread'

/-- A target that can be looked at has been read. -/
theorem exists_target {g : Expr → α} {a : α} (h : (target s).1.toOption.map g = some a) :
    ∃ e u, target s = (.ok e, u) ∧ g e = a := by
  rcases hrun : target s with ⟨r, u⟩
  rw [hrun] at h
  cases r with
  | error fault => cases h
  | ok e => exact ⟨e, u, rfl, Option.some.inj h⟩

/-- In `a[1]->b = 3` the object is referred to, although a part of it is taken first. -/
theorem role_of_target_memberOfPart :
    ∃ e u i, target (.initial (Lexed.ofText "a[1]->b = 3\n" 0).primary) = (.ok e, u) ∧
      e.throughMember ∧ e.baseIdent? = some i ∧ i.role = .reference := by
  obtain ⟨e, u, hrun, hlooks⟩ : ∃ e u,
      target (.initial (Lexed.ofText "a[1]->b = 3\n" 0).primary) = (.ok e, u) ∧
        (e.baseIdent?.isSome, e.throughMember, e.isSubstring) = (true, true, false) :=
    exists_target (by decide +kernel)
  have hbase : e.baseIdent?.isSome = true := congrArg (·.1) hlooks
  have hway : e.throughMember = true := congrArg (·.2.1) hlooks
  have hpart : e.isSubstring = false := congrArg (·.2.2) hlooks
  obtain ⟨i, hi⟩ := Option.isSome_iff_exists.mp hbase
  obtain ⟨-, -, hrole, -⟩ := role_of_target hrun
  refine ⟨e, u, i, hrun, hway, hi, (hrole i hi).trans (if_pos ⟨hway, ?_⟩)⟩
  rw [hpart]
  exact Bool.false_ne_true

/-- Not every member on the way leaves a reference: in `a->b[1] = 3` the object is marked as
    assigned. -/
theorem exists_member_assigned : ¬ ∀ (s : State) (e : Expr) (u : State) (i : Ident),
    target s = (.ok e, u) → e.baseIdent? = some i →
      i.role = if e.throughMember then .reference else .assignment := by
  intro hall
  obtain ⟨e, u, hrun, hlooks⟩ : ∃ e u,
      target (.initial (Lexed.ofText "a->b[1] = 3\n" 0).primary) = (.ok e, u) ∧
        (e.baseIdent?.map Ident.role, e.throughMember) = (some .assignment, true) :=
    exists_target (by decide +kernel)
  have hbase : e.baseIdent?.map Ident.role = some .assignment := congrArg (·.1) hlooks
  have hway : e.throughMember = true := congrArg (·.2) hlooks
  obtain ⟨i, hi, hassigned⟩ := Option.map_eq_some_iff.mp hbase
  have hrole := hall _ e u i hrun hi
  rw [if_pos hway, hassigned] at hrole
  cases hrole

end Parse

end BasicCheck
