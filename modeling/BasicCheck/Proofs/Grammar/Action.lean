import BasicCheck.Proofs.Grammar.Head
import BasicCheck.Proofs.Grammar.Naming
import BasicCheck.Statement.Parts

/-!
# What reading an action comes to

Each action holds expressions that were read for it and names that stand where words were read
(`Has`), and what more can be told of it (`Told`): its lists are not empty, and as long as there is no
error a condition of a loop stands within a loop and `mat` names a matrix. All actions are told by
**`continues_actionAfter?`** and `told_assignmentOrCall`.
-/

namespace BasicCheck

namespace Action

/-- The lists that a jump or a declaration is about hold something. -/
def Filled : Action → Prop
  | onJump _ _ labels => labels ≠ []
  | declare _ names => names ≠ []
  | common _ items => items ≠ []
  | dim matrices => matrices ≠ []
  | _ => True

/-- Actions of which nothing more is told than what they hold. -/
def isPlain : Action → Bool
  | onJump _ _ _ | declare _ _ | common _ _ | dim _ | loopCondition _ _ | mat _ _ | label _
  | subroutineCall _ _ | matrixAssignment _ _ _ _ | empty => false
  | _ => true

end Action

/-- An assignment to an element of a matrix. -/
def Action.isElementAssignment : Action → Bool
  | matrixAssignment _ _ _ _ => true
  | _ => false

namespace Grammar

open Parse

variable {α : Type} {o s u v : State} {es : List Expr} {is : List Ident}

/-! ## 1. What has been read -/

/-- Expressions and names that have been read since a state. -/
structure Has (o : State) (es : List Expr) (is : List Ident) (s : State) : Prop where
  onward : Onward o s
  expressions : ∀ e ∈ es, Held e o s
  names : ∀ i ∈ is, Placed i o s

namespace Has

theorem past (h : Has o es is s) : Past o s := h.onward

theorem of_onward (h : Onward o s) : Has o [] [] s :=
  ⟨h, List.forall_mem_nil _, List.forall_mem_nil _⟩

theorem start (s : State) : Has s [] [] s := .of_onward (.refl s)

theorem before (h : Has o es is s) (g : Onward s u) : Has o es is u :=
  ⟨h.onward.trans g, fun e he => (h.expressions e he).before g,
    fun i hi => (h.names i hi).before g⟩

theorem after (h : Onward o s) (g : Has s es is u) : Has o es is u :=
  ⟨h.trans g.onward, fun e he => (g.expressions e he).after h,
    fun i hi => (g.names i hi).after h.toPast⟩

theorem append {es' : List Expr} {is' : List Ident} (h : Has o es is s) (g : Has s es' is' u) :
    Has o (es ++ es') (is ++ is') u where
  onward := h.onward.trans g.onward
  expressions := List.forall_mem_append.mpr
    ⟨(h.before g.onward).expressions, (after h.onward g).expressions⟩
  names := List.forall_mem_append.mpr ⟨(h.before g.onward).names, (after h.onward g).names⟩

theorem of_subset {es' : List Expr} {is' : List Ident} (h : Has o es is s) (hes : es' ⊆ es)
    (his : is' ⊆ is) : Has o es' is' s :=
  ⟨h.onward, fun e he => h.expressions e (hes he), fun i hi => h.names i (his hi)⟩

/-- Something is consumed for whatever is read. -/
theorem consumes (h : Has s es is u) (hne : es ≠ [] ∨ is ≠ []) (hs : s.Regular) : Consumes s u := by
  rcases hne with hne | hne
  · obtain ⟨e, he⟩ := List.exists_mem_of_ne_nil _ hne
    exact (h.expressions e he).consumes hs
  · obtain ⟨i, hi⟩ := List.exists_mem_of_ne_nil _ hne
    exact (h.names i hi).stands.consumes hs

/-- What several things hold together. -/
theorem flatMap {as : List α} {expressions : α → List Expr} {names : α → List Ident}
    (honward : Onward o s) (h : ∀ a ∈ as, Has o (expressions a) (names a) s) :
    Has o (as.flatMap expressions) (as.flatMap names) s := by
  refine ⟨honward, fun e he => ?_, fun i hi => ?_⟩
  · obtain ⟨a, ha, hin⟩ := List.mem_flatMap.mp he
    exact (h a ha).expressions e hin
  · obtain ⟨a, ha, hin⟩ := List.mem_flatMap.mp hi
    exact (h a ha).names i hin

/-- A name behind what has been read. -/
theorem name {i : Ident} (h : Onward s u) (hi : Placed i s u) : Has s [] [i] u :=
  ⟨h, List.forall_mem_nil _, List.forall_mem_singleton.mpr hi⟩

/-- A name is declared behind which expressions have been read. -/
theorem declared {t : Token} {meaning : Meaning} (hes : ∀ e ∈ es, Held e o u) (ht : Opens o t s)
    (honward : Onward o u) (hdeclares : Declares t meaning s u) (role : Role) :
    Has o es [⟨t.text, role, t.span⟩] u :=
  ⟨honward, hes, List.forall_mem_singleton.mpr (hdeclares.name ht role)⟩

end Has

theorem lasting_has : Lasting (Has o es is) := fun hpast h => h.before hpast

/-- A parser gives what holds expressions and names that it has read. -/
def Takes (p : Parser α) (expressions : α → List Expr) (names : α → List Ident) : Prop :=
  ∀ s, Tries s p fun a u => Has s (expressions a) (names a) u

section Takes

variable {p : Parser α} {expressions : α → List Expr} {names : α → List Ident}

/-- What has been read before is still known. -/
theorem Takes.behind (hp : Takes p expressions names) (h : Has o es is s) :
    Tries s p fun a u => Has o (es ++ expressions a) (is ++ names a) u :=
  (hp s).mono fun _ _ _ g => h.append g

theorem Parses.takes {p : Parser Expr} (hp : Parses p) : Takes p (fun e => [e]) fun _ => [] :=
  fun s => (hp s).mono fun _ _ hpast he =>
    ⟨hpast, List.forall_mem_singleton.mpr he.held, List.forall_mem_nil _⟩

/-- An expression is read behind what is known. -/
theorem Parses.behind {p : Parser Expr} (hp : Parses p) (h : Has o es is s) :
    Tries s p fun e u => Has o (es ++ [e]) is u :=
  (hp.takes.behind h).mono fun _ _ _ g => by rwa [List.append_nil] at g

/-- Items between commas hold what each of them holds. -/
theorem takes_commaList (hp : Takes p expressions names) :
    Tries s (commaList p) fun as u => as ≠ [] ∧ Has s (as.flatMap expressions) (as.flatMap names) u :=
  (tries_commaList hp fun before inner behind => .after before (inner.before behind)).mono
    fun _ _ hpast h => ⟨h.1, .flatMap hpast h.2⟩

/-- Names between commas. -/
theorem takes_nameList {p : Parser Ident} (hp : Takes p (fun _ => []) fun i => [i]) :
    Tries s (commaList p) fun is u => is ≠ [] ∧ Has s [] is u :=
  (takes_commaList hp).mono fun is u _ h => by
    rw [List.flatMap_singleton'] at h
    exact ⟨h.1, h.2.of_subset (List.nil_subset _) (List.Subset.refl is)⟩

end Takes

/-- A step of which nothing need be known keeps what has been read. -/
theorem Goes.has {p : Step α} {Q : α → State → Prop} (hp : Goes s p Q) (h : Has o es is s) :
    Goes s p fun _ u => Has o es is u :=
  hp.keeps lasting_has h

theorem Tries.has {p : Parser α} {Q : α → State → Prop} (hp : Tries s p Q) (h : Has o es is s) :
    Tries s p fun _ u => Has o es is u :=
  hp.keeps lasting_has h

/-! ## 2. What is told of an action -/

/-- What is told of an action that was read between two states. -/
structure Told (a : Action) (s u : State) : Prop where
  has : Has s a.expressions a.names u
  filled : a.Filled
  /-- A condition of a loop stands within one. -/
  placed : ∀ test cond, a = .loopCondition test cond → u.Clean → 0 < s.loopDepth
  /-- All elements at once are those of a matrix. -/
  matrix : ∀ name value, a = .mat name value → u.Clean → s.symbols.Whole →
    u.symbols.isMatrix name.name
  /-- No half of a token is left behind an action that needs no separator. -/
  whole : ∀ span, (Statement.action a span).isSeparatorExempt → u.split = none
  /-- What is called by its name alone is no matrix where it is called. -/
  called : ∀ name args, a = .subroutineCall name args → Called name s u
  /-- What an element is assigned of comes next, and is a matrix there. -/
  element : ∀ name row col value, a = .matrixAssignment name row col value →
    IsElement name s s.current

/-- What is told of an action behind its keyword. -/
structure Continues (a : Action) (s u : State) : Prop where
  keyword : a.isElementAssignment = false
  told : Told a s u

theorem Continues.after {a : Action} (h : Onward o s) (g : Continues a s u) : Told a o u where
  has := .after h g.told.has
  filled := g.told.filled
  placed test cond ha hu := by
    rw [← h.depth]
    exact g.told.placed test cond ha hu
  matrix name value ha hu ho := g.told.matrix name value ha hu (h.symbols ho).1
  whole := g.told.whole
  called name args ha := .after h (g.told.called name args ha)
  element name row col value ha := by
    have hkeyword := g.keyword
    rw [ha] at hkeyword
    cases hkeyword

/-- Of most actions no more is told than what they hold. -/
theorem Told.plain {a : Action} (hplain : a.isPlain) (h : Has s a.expressions a.names u) :
    Told a s u where
  has := h
  filled := by cases a <;> trivial
  placed := by
    rintro test cond rfl
    cases hplain
  matrix := by
    rintro name value rfl
    cases hplain
  whole span hexempt := by
    cases a with
    | label _ | empty => cases hplain
    | _ => cases hexempt
  called := by
    rintro name args rfl
    cases hplain
  element := by
    rintro name row col value rfl
    cases hplain

theorem Continues.plain {a : Action} (hplain : a.isPlain) (h : Has s a.expressions a.names u) :
    Continues a s u := by
  refine ⟨?_, .plain hplain h⟩
  cases a with
  | matrixAssignment => cases hplain
  | _ => rfl

attribute [local simp] Action.names Action.expressions

/-! ## 3. Names -/

theorem tries_expectOnOrTo : Tries s expectOnOrTo fun _ _ => True := by
  refine Tries.after (goes_consume _) fun _ u1 _ _ => ?_
  split
  · exact Tries.pure trivial
  · refine Tries.after (goes_consume _) fun _ u2 _ _ => ?_
    split
    · exact Tries.pure trivial
    · exact tries_failHere rfl

theorem takes_labelIdent : Takes labelIdent (fun _ => []) fun i => [i] := by
  intro s
  refine tries_expectIdent.bind fun t u1 h1 ht => ?_
  refine Tries.after (goes_noteLabel t) fun _ u2 h2 _ => Tries.pure (.name (h1.trans h2) ?_)
  exact .of_opens (ht.2.before h2) _ rfl

/-- Arguments are read behind what is known. -/
theorem takes_arguments : Takes arguments (fun args => args) fun _ => [] :=
  fun _ => tries_arguments.mono fun _ _ honward h =>
    ⟨honward, fun e he => (h e he).held, List.forall_mem_nil _⟩

/-! ## 4. Assignments and calls -/

/-- A label, which comes next. -/
theorem told_labelAction (hk : s.current.kind = .ident) :
    Tries s labelAction fun a u => Told a s u ∧ Consumes s u := by
  have hword : s.current.kind.IsWord := by
    rw [hk]
    decide
  refine Tries.regular fun hs => Tries.after (goes_word hword) fun t u1 h1 hread => ?_
  obtain ⟨rfl, hopens⟩ := hread
  refine tries_skip.bind fun _ u2 h2 hcolon => ?_
  have htold {v : State} (hv : Onward u2 v) (hwhole : v.split = none) :
      Told (.label ⟨s.current.text, .label, s.current.span⟩) s v ∧ Consumes s v := by
    have hall := hopens.before (h2.trans hv).toPast
    have hname : Has s [] [⟨s.current.text, .label, s.current.span⟩] v :=
      .name (h1.trans (h2.trans hv)) (.of_opens hall _ rfl)
    exact ⟨⟨hname, trivial, nofun, nofun, fun _ _ => hwhole, nofun, nofun⟩, hall.consumes hs⟩
  have hwhole : u2.split = none := hcolon ▸ u1.split_advance
  have hdeclare : Goes u2 (trySymbols (·.declareLabel s.current)) fun _ u => Stays u2 u :=
    goes_trySymbols (SymbolTable.advances_declareLabel _ _)
  refine Tries.after hdeclare fun done u3 h3 hstays => ?_
  dsimp only
  split
  · exact Tries.pure (htold h3 (hstays.split.trans hwhole))
  · refine Tries.after (goes_report _ _) fun _ u4 h4 hreport => Tries.pure ?_
    exact htold (h3.trans h4) ((hreport.1.split.trans hstays.split).trans hwhole)

/-- The call of a routine, the name of which comes next and is not that of a matrix. -/
theorem told_subroutineCall (hk : s.current.kind = .ident)
    (hmatrix : s.symbols.isMatrix s.current.text = false) :
    Tries s subroutineCall fun a u => Told a s u ∧ Consumes s u := by
  have hword : s.current.kind.IsWord := by
    rw [hk]
    decide
  refine Tries.regular fun hs => Tries.after goes_advance fun t u1 h1 hread => ?_
  obtain ⟨rfl, rfl⟩ := hread
  have hcalled : Called ⟨s.current.text, .functionName, s.current.span⟩ s s.advance.2 :=
    .of_next hword ⟨rfl, rfl, fun _ => ⟨rfl, hmatrix⟩⟩
  have hcall {u : State} (hu : Onward s.advance.2 u) : Tries u (do
      return Action.subroutineCall ⟨s.current.text, .functionName, s.current.span⟩ (← arguments))
      fun a v => Told a s v ∧ Consumes s v := by
    have hname : Has s [] [⟨s.current.text, .functionName, s.current.span⟩] u :=
      .name (h1.trans hu) (.of_opens ⟨rfl, hword, hu.toPast⟩ _ rfl)
    refine (takes_arguments.behind hname).bind fun args v hv h => Tries.pure ⟨?_, ?_⟩
    · refine ⟨by simpa using h, trivial, nofun, nofun, nofun, fun name args ha => ?_, nofun⟩
      cases ha
      exact hcalled.before (hu.trans hv)
    · exact h.consumes (Or.inr (List.cons_ne_nil _ _)) hs
  refine Tries.after (goes_noteIfKnown .subroutine _) fun known u2 h2 _ => ?_
  dsimp only
  split
  · exact hcall h2
  · refine Tries.after (goes_noteIfKnown .function _) fun known u3 h3 _ => ?_
    split
    · exact hcall (h2.trans h3)
    · exact Tries.after (goes_report _ _) fun _ u4 h4 _ => hcall ((h2.trans h3).trans h4)

theorem told_assignment (hk : s.current.kind.IsName) :
    Tries s assignment fun a u => Told a s u ∧ Consumes s u := by
  refine Tries.regular fun hs => (tries_target hk).bind fun left u1 h1 htarget => ?_
  obtain ⟨hleft, hheaded⟩ := htarget
  -- the target is read in any case, so something is consumed whatever comes behind it
  have hconsumes {v : State} (hv : Onward u1 v) : Consumes s v := (hleft.consumes hs).before hv
  refine Tries.look (looks_atStatementEnd u1) ?_
  split
  · have hhas : Has s [left] [] u1 :=
      ⟨h1, List.forall_mem_singleton.mpr hleft.held, List.forall_mem_nil _⟩
    exact Tries.pure ⟨.plain rfl hhas, hconsumes (.refl u1)⟩
  · refine Tries.look (currentKind_eq u1) ?_
    split
    · exact tries_failHere rfl
    · refine tries_skip.bind fun _ u2 h2 _ => ?_
      refine (derives_expression u2).bind fun value u3 h3 hvalue => ?_
      have hbehind := h2.trans h3
      have hall := h1.trans hbehind
      have hvalue' : Held value s u3 := (hvalue.after (h1.trans h2)).held
      split
      · -- an element of a matrix is assigned to by its parts
        obtain ⟨hname, hrow, hcol⟩ := (hleft.before hbehind).parts_matrixIndex
        refine Tries.pure ⟨⟨⟨hall, ?_, ?_⟩, trivial, nofun, nofun, nofun, nofun, ?_⟩,
          hconsumes hbehind⟩
        · refine List.forall_mem_cons.mpr ⟨hrow.held, List.forall_mem_append.mpr ⟨fun e he => ?_, ?_⟩⟩
          · exact (hcol e (Option.mem_toList.mp he)).held
          · exact List.forall_mem_singleton.mpr hvalue'
        · exact List.forall_mem_singleton.mpr (.of_names hname.toNames)
        · intro name row col value ha
          cases ha
          exact hheaded
      · have hhas : Has s [left, value] [] u3 := by
          refine ⟨hall, List.forall_mem_cons.mpr ⟨(hleft.before hbehind).held, ?_⟩,
            List.forall_mem_nil _⟩
          exact List.forall_mem_singleton.mpr hvalue'
        exact Tries.pure ⟨.plain rfl hhas, hconsumes hbehind⟩

/-- **An assignment or a call** is told of. -/
theorem told_assignmentOrCall (hk : s.current.kind.IsName) :
    Tries s assignmentOrCall fun a u => Told a s u ∧ Consumes s u := by
  refine Tries.get (Tries.look (nextKind_eq s) ?_)
  split
  · rename_i hcall
    simp only [Bool.and_eq_true, Bool.not_eq_true'] at hcall
    exact told_subroutineCall (eq_of_beq hcall.1.1) hcall.2
  · exact told_assignment hk

theorem continues_callAction : Tries s callAction fun a u => Continues a s u := by
  have hargs {name : Ident} (indirect : Bool) {u : State} (h : Has s [] [name] u) : Tries u (do
      let args ← if ← sees .leftParen then arguments else pure []
      return Action.call name args indirect) fun a v => Continues a s v := by
    refine Tries.look (sees_eq u .leftParen) ?_
    dsimp only
    split
    · refine (takes_arguments.behind h).bind fun args v _ h => Tries.pure (.plain rfl ?_)
      simpa using h
    · exact Tries.given (Tries.pure (.plain rfl (by simpa using h)))
  refine Tries.regular fun hs => Tries.after (goes_consume .atSign) fun indirect u1 h1 hread => ?_
  dsimp only
  split
  · rename_i hindirect
    have hled : Led u1 := by
      rcases hread with ⟨-, hk, rfl⟩ | ⟨hno, -⟩
      · exact led_advance hs (by rw [hk]; rfl)
      · rw [hno] at hindirect
        cases hindirect
    refine (names_variableIdent .reference hled).bind fun name u2 h2 hname => hargs indirect ?_
    exact .name (h1.trans h2) (.after h1.toPast (.of_names hname))
  · refine tries_expectIdent.bind fun t u2 h2 ht => ?_
    refine Tries.after (goes_noteCalled t) fun _ u3 h3 _ => ?_
    refine Tries.given (hargs indirect (.after h1 (.name (h2.trans h3) ?_)))
    exact .of_opens (ht.2.before h3) _ rfl

/-! ## 5. Control flow -/

/-- A condition of a loop is misplaced only with an error. -/
theorem continues_loopCondition (keyword : Token) (test : LoopTest) :
    Tries s (loopCondition keyword test) fun a u => Continues a s u := by
  have hcond {u : State} (h : Has s [] [] u) (hplaced : u.Clean → 0 < s.loopDepth) : Tries u (do
      let cond ← expression
      discard (liftM (consume (.keyword .DO)) : Parser Bool)
      return Action.loopCondition test cond) fun a v => Continues a s v := by
    refine (derives_expression.behind h).bind fun cond v1 h1 hread => ?_
    refine ((tries_consumed _).has hread).bind fun _ v2 h2 hall => Tries.pure ?_
    refine ⟨rfl, by simpa using hall, trivial, fun _ _ _ hclean => ?_, nofun, nofun, nofun, nofun⟩
    exact hplaced ((h1.trans h2).clean hclean)
  refine Tries.get ?_
  dsimp only
  split
  · refine Tries.after (goes_report _ _) fun _ u1 h1 hreport => hcond ((Has.start s).before h1) ?_
    exact fun hclean => absurd hclean (hreport.2 rfl)
  · rename_i hdepth
    exact hcond (.start s) fun _ => Nat.pos_of_ne_zero hdepth

theorem continues_onJump : Tries s onJump fun a u => Continues a s u := by
  refine (derives_expression.behind (.start s)).bind fun selector u1 _ h1 => ?_
  have hjump (jump : Jump) : Tries u1 (do
      discard (liftM advance : Parser Token)
      return Action.onJump jump selector (← commaList labelIdent)) fun a u => Continues a s u := by
    refine (tries_skip.has h1).bind fun _ u2 _ h2 => ?_
    refine (takes_nameList takes_labelIdent).bind fun labels u3 _ hlabels => Tries.pure ?_
    have hall := h2.append hlabels.2
    exact ⟨rfl, by simpa using hall, hlabels.1, nofun, nofun, nofun, nofun, nofun⟩
  refine Tries.look (currentKind_eq u1) ?_
  dsimp only
  split
  · exact Tries.given (hjump .goto)
  · exact Tries.given (hjump .gosub)
  · exact Tries.fails (p := failHere _) rfl rfl

theorem takes_optionalExpression :
    Takes optionalExpression (fun e => e.toList) fun _ => [] := by
  intro s
  refine Tries.look (looks_atStatementEnd s) ?_
  split
  · exact Tries.pure (.start s)
  · exact (derives_expression.behind (.start s)).bind fun e u _ h => Tries.pure h

theorem takes_expressionAfter? (word : Keyword) :
    Takes (expressionAfter? word) (fun e => e.toList) fun _ => [] := by
  intro s
  refine Tries.after ((goes_consume _).has (.start s)) fun found u1 _ h1 => ?_
  split
  · exact (derives_expression.behind h1).bind fun e u _ h => Tries.pure h
  · exact Tries.pure h1

/-! ## 6. Declarations -/

theorem takes_declaredRoutine (routine : Routine) :
    Takes (declaredRoutine routine) (fun _ => []) fun i => [i] := by
  intro s
  refine Tries.look (current_eq s) ?_
  dsimp only
  split
  · rename_i hkind
    have hword := (Kind.isName_of_mayNameMember hkind).isWord
    refine (tries_skipWord hword).bind fun _ u1 h1 hopens => ?_
    have hdeclared {declare : SymbolTable → Bool × SymbolTable} {cause : Cause}
        (hdeclare : u1.symbols.Advances u1.last.toList (declare u1.symbols).2) : Tries u1 (do
          unless ← trySymbols declare do report cause s.current.span
          return (⟨s.current.text, .functionName, s.current.span⟩ : Ident))
          fun i u => Has s [] [i] u := by
      refine Tries.after (goes_trySymbols hdeclare) fun done u2 h2 _ => ?_
      dsimp only
      split
      · exact Tries.pure (.name (h1.trans h2) (.of_opens (hopens.before h2) _ rfl))
      · refine Tries.after (goes_report _ _) fun _ u3 h3 _ => Tries.pure ?_
        have hbehind := h2.trans h3
        exact .name (h1.trans hbehind) (.of_opens (hopens.before hbehind) _ rfl)
    cases routine with
    | function => exact hdeclared (SymbolTable.advances_declare _ _ rfl nofun)
    | subroutine => exact hdeclared (SymbolTable.advances_declare _ _ rfl nofun)
  · exact Tries.fails (p := throw _) rfl rfl

theorem continues_declareAction : Tries s declareAction fun a u => Continues a s u := by
  have hnames (routine : Routine) : Tries s (do
      discard (liftM advance : Parser Token)
      return Action.declare routine (← commaList (declaredRoutine routine)))
      fun a u => Continues a s u := by
    refine (tries_skip.has (.start s)).bind fun _ u1 _ h1 => ?_
    refine (takes_nameList (takes_declaredRoutine routine)).bind fun names u2 _ hnames =>
      Tries.pure ?_
    have hall := h1.append hnames.2
    exact ⟨rfl, by simpa using hall, hnames.1, nofun, nofun, nofun, nofun, nofun⟩
  refine Tries.look (currentKind_eq s) ?_
  dsimp only
  split
  · exact Tries.given (hnames .function)
  · exact Tries.given (hnames .subroutine)
  · exact Tries.fails (p := failHere _) rfl rfl

theorem continues_equateAction : Tries s equateAction fun a u => Continues a s u := by
  refine Tries.of_since (tries_expectVariable.since fun t u1 h1 ht => ?_)
  refine ((tries_expected _).has (.of_onward h1)).since fun _ u2 h2 hread => ?_
  refine (derives_expression.behind hread).since fun value u3 h3 hvalue => ?_
  have hopens := ht.opens.before (h2.trans h3).toPast
  have hdeclare := since_declareAs .equate (f := (·.declareEquate t value)) (fun _ => rfl)
    (Or.inr rfl) ⟨ht.kind, hopens⟩
  refine TriesWith.after (lasting_since s) hdeclare fun _ u4 h4 _ hdeclares =>
    Tries.pure (.plain rfl (.declared (fun e he => ?_) hopens h4.2 hdeclares .assignment))
  refine hdeclares.held (hvalue.expressions e he) fun b hmatrix hmeaning => ?_
  rw [Symbol.isMatrix, hmeaning] at hmatrix
  cases hmatrix

theorem takes_commonBlockName? :
    Takes commonBlockName? (fun _ => []) fun name => name.toList := by
  intro s
  refine Tries.after (goes_consume .slash) fun found u1 h1 _ => ?_
  split
  · refine tries_expectIdent.bind fun t u2 h2 ht => ?_
    have hread : Has s [] [⟨t.text, .label, t.span⟩] u2 :=
      .after h1 (.name h2 (.of_opens ht.2 _ rfl))
    refine ((tries_expected _).has hread).bind fun _ u3 _ h3 => ?_
    have hdeclare := goes_trySymbols (s := u3) (f := (·.declareCommonBlock t))
      (SymbolTable.advances_declare _ t rfl nofun)
    refine Tries.after (hdeclare.has h3) fun done u4 _ h4 => ?_
    dsimp only
    split
    · exact Tries.pure h4
    · exact Tries.after ((goes_report _ _).has h4) fun _ _ _ h5 => Tries.pure h5
  · exact Tries.pure ((Has.start s).before h1)

theorem tries_size (start : Span) : Tries s (rowAndColumn primary start) fun found u =>
    ∀ e ∈ found.1 :: found.2.toList, Derives e s u :=
  (tries_rowAndColumn derives_primary start).mono fun _ _ _ h =>
    List.forall_mem_cons.mpr ⟨h.1, fun e he => h.2 e (Option.mem_toList.mp he)⟩

theorem takes_dimension : Takes dimension Dimension.expressions fun d => [d.name] := by
  intro s
  refine Tries.of_since (tries_expectVariable.since fun t u1 h1 ht => ?_)
  refine (tries_size t.span).since fun found u2 h2 hread => ?_
  obtain ⟨rows, cols⟩ := found
  have hopens := ht.opens.before h2.toPast
  have hdeclare := since_declareAs .matrix (f := (·.declareMatrix t rows cols)) (fun _ => rfl)
    (Or.inl rfl) ⟨ht.kind, hopens⟩
  refine TriesWith.after (lasting_since s) hdeclare fun _ u3 h3 _ hdeclares => Tries.pure ?_
  refine .declared (fun e he => ?_) hopens h3.2 hdeclares .assignment
  exact hdeclares.dimension h1 ht.last (hread e he) he

/-- The expressions of a common variable. -/
def expressionsOfItem (item : CommonItem) : List Expr :=
  item.size.toList.flatMap Dimension.expressions

theorem takes_commonItem : Takes commonItem expressionsOfItem fun item => [item.name] := by
  intro s
  refine Tries.of_since (tries_expectVariable.since fun t u1 h1 ht => ?_)
  have hdeclared (size : Option (Expr × Option Expr)) {u : State} (hu : Onward u1 u)
      (h : ∀ found ∈ size, ∀ e ∈ found.1 :: found.2.toList, Derives e u1 u) :
      TriesWith (Since s) u (do
        declareAs .commonVariable t (·.declareCommonVariable t size)
        let name : Ident := ⟨t.text, .assignment, t.span⟩
        return (⟨name, size.map fun found => ⟨name, found.1, found.2⟩⟩ : CommonItem))
        fun item v => Has s (expressionsOfItem item) [item.name] v := by
    have hopens := ht.opens.before hu.toPast
    have hdeclare := since_declareAs .commonVariable (f := (·.declareCommonVariable t size))
      (fun _ => rfl) (Or.inl rfl) ⟨ht.kind, hopens⟩
    refine TriesWith.after (lasting_since s) hdeclare fun _ v hv _ hdeclares => Tries.pure ?_
    refine .declared (fun e he => ?_) hopens hv.2 hdeclares .assignment
    cases size with
    | none => exact absurd he List.not_mem_nil
    | some found =>
      have hin : e ∈ found.1 :: found.2.toList := by
        simpa [expressionsOfItem, Dimension.expressions] using he
      exact hdeclares.dimension h1 ht.last (h found rfl e hin) hin
  refine TriesWith.look (sees_eq u1 .leftParen) ?_
  dsimp only
  split
  · have hsize : Tries u1 (some <$> rowAndColumn primary t.span) fun size u =>
        ∀ found ∈ size, ∀ e ∈ found.1 :: found.2.toList, Derives e u1 u := by
      refine Tries.map ((tries_size t.span).mono fun found u _ h found' hfound => ?_)
      obtain rfl := Option.some.inj hfound
      exact h
    exact hsize.since fun size u2 h2 hread => hdeclared size h2 hread
  · exact .given (hdeclared none (.refl u1) nofun)

theorem continues_commonAction : Tries s commonAction fun a u => Continues a s u := by
  refine (takes_commonBlockName? s).bind fun block u1 _ h1 => ?_
  refine (takes_commaList takes_commonItem).bind fun items u2 _ hitems => Tries.pure ?_
  have hall : Has s (Action.common block items).expressions _ u2 := h1.append hitems.2
  exact ⟨rfl, by simpa [List.map_eq_flatMap] using hall, hitems.1, nofun, nofun, nofun, nofun, nofun⟩

theorem continues_dim : Tries s (.dim <$> commaList dimension) fun a u => Continues a s u := by
  refine Tries.map ((takes_commaList takes_dimension).mono fun ds u _ h => ?_)
  exact ⟨rfl, by simpa [List.map_eq_flatMap] using h.2, h.1, nofun, nofun, nofun, nofun, nofun⟩

/-- What is not a matrix is assigned as one only with an error. -/
theorem continues_matAction (hled : Led s) : Tries s matAction fun a u => Continues a s u := by
  refine (names_variableIdent .assignment hled).bind fun name u1 h1 hname => ?_
  -- by then the name is a matrix or there is an error, and what is read is the same
  have hvalue {u : State} (hu : Onward u1 u)
      (hmatrix : u.Clean → s.symbols.Whole → u.symbols.isMatrix name.name) : Tries u (do
      discard (expect .equal)
      if ← consume (.keyword .MAT) then
        return Action.mat name (.variable (← variableIdent .reference))
      else return .mat name (← expression)) fun a v => Continues a s v := by
    have htold {value : Expr} {v : State} (hv : Onward u v) (h : Derives value u v) :
        Continues (.mat name value) s v := by
      have hbehind := hu.trans hv
      refine ⟨rfl, ⟨h1.trans hbehind, ?_, ?_⟩, trivial, nofun, fun _ _ ha hclean hs => ?_, nofun,
        nofun, nofun⟩
      · exact List.forall_mem_singleton.mpr (h.after (h1.trans hu)).held
      · exact List.forall_mem_singleton.mpr ((Placed.of_names hname).before hbehind)
      · cases ha
        have hwhole := ((h1.trans hu).symbols hs).1
        exact hv.symbols.isMatrix hwhole (hmatrix (hv.clean hclean) hs)
    refine (tries_expected .equal).bind fun _ v1 hv1 _ => Tries.regular fun hv1' => ?_
    refine Tries.after (goes_consume _) fun found v2 hv2 hfound => ?_
    split
    · rename_i hyes
      have hled' : Led v2 := by
        rcases hfound with ⟨-, hk, rfl⟩ | ⟨hno, -⟩
        · exact led_advance hv1' (by rw [hk]; rfl)
        · rw [hno] at hyes
          cases hyes
      refine (names_variableIdent .reference hled').bind fun i v3 hv3 hi => Tries.pure ?_
      have hfront := hv1.trans hv2
      exact htold (hfront.trans hv3) (.after hfront (.variable hi))
    · refine (derives_expression v2).bind fun e v3 hv3 he => Tries.pure ?_
      have hfront := hv1.trans hv2
      exact htold (hfront.trans hv3) (he.after hfront)
  refine Tries.get ?_
  dsimp only
  split
  · rename_i hmatrix
    exact hvalue (.refl u1) fun _ _ => hmatrix
  · refine Tries.after (goes_report _ _) fun _ u2 h2 hreport => hvalue h2 ?_
    exact fun hclean => absurd hclean (hreport.2 rfl)

theorem told_insertAction : Tries s insertAction fun a u => Told a s u ∧ Consumes s u := by
  refine Tries.regular fun hs => tries_skip.bind fun _ u1 h1 _ => ?_
  refine tries_expectIdent.bind fun t u2 h2 ht => ?_
  have hread : Has s [] [⟨t.text, .insertName, t.span⟩] u2 :=
    .after h1 (.name h2 (.of_opens ht.2 _ rfl))
  have htold {v : State} (h : Has s [] [⟨t.text, .insertName, t.span⟩] v) :
      Told (.insert ⟨t.text, .insertName, t.span⟩) s v ∧ Consumes s v :=
    ⟨.plain rfl h, h.consumes (Or.inr (List.cons_ne_nil _ _)) hs⟩
  have hdeclare := goes_trySymbols (s := u2) (f := (·.declareInsert t))
    (SymbolTable.advances_declare _ t rfl nofun)
  refine Tries.after (hdeclare.has hread) fun done u3 _ h3 => ?_
  dsimp only
  split
  · exact Tries.pure (htold h3)
  · exact Tries.after ((goes_report _ _).has h3) fun _ u4 _ h4 => Tries.pure (htold h4)

/-! ## 7. Dynamic arrays and files -/

theorem continues_swapAction : Tries s swapAction fun a u => Continues a s u := by
  refine (derives_expression.behind (.start s)).bind fun old u1 _ h => ?_
  refine ((tries_expected _).has h).bind fun _ u2 _ h => ?_
  refine (derives_expression.behind h).bind fun new u3 _ h => ?_
  refine ((tries_expected _).has h).bind fun _ u4 _ h => ?_
  refine (derives_target.behind h).bind fun left u5 _ h => Tries.pure (.plain rfl ?_)
  simpa using h

theorem continues_convertAction : Tries s convertAction fun a u => Continues a s u := by
  refine (derives_expression.behind (.start s)).bind fun source u1 _ h => ?_
  refine ((tries_expected _).has h).bind fun _ u2 _ h => ?_
  refine (derives_expression.behind h).bind fun result u3 _ h => ?_
  refine ((tries_expected _).has h).bind fun _ u4 _ h => ?_
  refine (derives_target.behind h).bind fun left u5 _ h => Tries.pure (.plain rfl ?_)
  simpa using h

theorem continues_transferAction : Tries s transferAction fun a u => Continues a s u := by
  refine (derives_primary.behind (.start s)).bind fun source u1 _ h => ?_
  refine ((tries_expected _).has h).bind fun _ u2 _ h => ?_
  refine (derives_target.behind h).bind fun left u3 _ h => Tries.pure (.plain rfl ?_)
  simpa using h

theorem continues_removeAction : Tries s removeAction fun a u => Continues a s u := by
  refine (derives_target.behind (.start s)).bind fun left u1 _ h => ?_
  refine ((tries_expected _).has h).bind fun _ u2 _ h => ?_
  refine (derives_expression.behind h).bind fun source u3 _ h => ?_
  refine ((tries_expected _).has h).bind fun _ u4 _ h => ?_
  refine (derives_target.behind h).bind fun position u5 _ h => ?_
  refine ((tries_expected _).has h).bind fun _ u6 _ h => ?_
  refine (derives_target.behind h).bind fun flag u7 _ h => Tries.pure (.plain rfl ?_)
  simpa using h

theorem continues_matParseAction : Tries s matParseAction fun a u => Continues a s u := by
  refine (derives_expression.behind (.start s)).bind fun source u1 _ h => ?_
  refine (tries_led rfl).bind fun _ u2 h2 hled => ?_
  refine (names_variableIdent .assignment hled).bind fun name u3 h3 hname => ?_
  have h := (h.before h2).append (.name h3 (.of_names hname))
  refine ((takes_expressionAfter? .USING).behind h).bind fun delimiter u4 _ h =>
    Tries.pure (.plain rfl ?_)
  simpa using h

theorem continues_osWriteAction : Tries s osWriteAction fun a u => Continues a s u := by
  refine (derives_expression.behind (.start s)).bind fun value u1 _ h => ?_
  refine (tries_expectOnOrTo.has h).bind fun _ u2 _ h => ?_
  refine (derives_expression.behind h).bind fun path u3 _ h => Tries.pure (.plain rfl ?_)
  simpa using h

theorem continues_osBReadAction : Tries s osBReadAction fun a u => Continues a s u := by
  refine (derives_target.behind (.start s)).bind fun left u1 _ h => ?_
  refine ((tries_expected _).has h).bind fun _ u2 _ h => ?_
  refine (derives_expression.behind h).bind fun handle u3 _ h => ?_
  refine ((tries_expected _).has h).bind fun _ u4 _ h => ?_
  refine (derives_expression.behind h).bind fun position u5 _ h => ?_
  refine ((tries_expected _).has h).bind fun _ u6 _ h => ?_
  refine (derives_expression.behind h).bind fun length u7 _ h => Tries.pure (.plain rfl ?_)
  simpa using h

theorem continues_osBWriteAction : Tries s osBWriteAction fun a u => Continues a s u := by
  refine (derives_expression.behind (.start s)).bind fun value u1 _ h => ?_
  refine (tries_expectOnOrTo.has h).bind fun _ u2 _ h => ?_
  refine (derives_expression.behind h).bind fun handle u3 _ h => ?_
  refine ((tries_expected _).has h).bind fun _ u4 _ h => ?_
  refine (derives_expression.behind h).bind fun position u5 _ h => Tries.pure (.plain rfl ?_)
  simpa using h

/-! ## 8. The keywords of actions -/

/-- An action made of one part. -/
theorem continues_of {p : Parser α} {expressions : α → List Expr} {names : α → List Ident}
    (hp : Takes p expressions names) {f : α → Action} (hplain : ∀ a, (f a).isPlain)
    (hexpressions : ∀ a, (f a).expressions = expressions a)
    (hnames : ∀ a, (f a).names = names a) : Tries s (f <$> p) fun a u => Continues a s u := by
  refine Tries.map ((hp s).mono fun a u _ h => .plain (hplain a) ?_)
  rwa [hexpressions, hnames]

/-- An action that is only a keyword. -/
theorem continues_pure {a : Action} (hplain : a.isPlain) (hexpressions : a.expressions = [])
    (hnames : a.names = []) : Tries s (pure a) fun a u => Continues a s u := by
  refine Tries.pure (.plain hplain ?_)
  rw [hexpressions, hnames]
  exact .start s

/-- **Every action behind its keyword** is told of. -/
theorem continues_actionAfter? {keyword : Token} {word : Keyword} {p : Parser Action}
    (hled : (Kind.keyword word).namesVariable → Led s) (hp : actionAfter? keyword word = some p) :
    Tries s p fun a u => Continues a s u := by
  have hone {f : Expr → Action} (hplain : ∀ a, (f a).isPlain)
      (hexpressions : ∀ a, (f a).expressions = [a]) (hnames : ∀ a, (f a).names = []) :
      Tries s (f <$> expression) fun a u => Continues a s u :=
    continues_of derives_expression.takes hplain hexpressions hnames
  -- one case for each word, in the order in which they are told apart
  unfold actionAfter? at hp
  split at hp <;> cases hp
  · exact continues_loopCondition keyword .whileHolds
  · exact continues_loopCondition keyword .untilHolds
  · exact continues_of takes_labelIdent (fun _ => rfl) (fun _ => rfl) fun _ => rfl
  · exact continues_of takes_labelIdent (fun _ => rfl) (fun _ => rfl) fun _ => rfl
  · exact continues_onJump
  · exact continues_of takes_optionalExpression (fun _ => rfl) (fun _ => rfl) fun _ => rfl
  · exact continues_callAction
  · exact continues_declareAction
  · exact continues_equateAction
  · exact continues_commonAction
  · exact continues_dim
  · exact continues_matAction (hled rfl)
  · exact hone (fun _ => rfl) (fun _ => rfl) fun _ => rfl
  · exact continues_of takes_optionalExpression (fun _ => rfl) (fun _ => rfl) fun _ => rfl
  · exact continues_swapAction
  · exact continues_convertAction
  · exact continues_transferAction
  · exact continues_removeAction
  · exact continues_matParseAction
  · exact continues_osWriteAction
  · exact continues_osBReadAction
  · exact continues_osBWriteAction
  · exact hone (fun _ => rfl) (fun _ => rfl) fun _ => rfl
  · exact hone (fun _ => rfl) (fun _ => rfl) fun _ => rfl
  · exact hone (fun _ => rfl) (fun _ => rfl) fun _ => rfl
  all_goals exact continues_pure rfl rfl rfl

end Grammar

end BasicCheck
