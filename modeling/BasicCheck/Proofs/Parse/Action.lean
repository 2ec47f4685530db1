import Mathlib.Data.List.Perm.Basic
import BasicCheck.Parse.Action
import BasicCheck.Proofs.Parse.Expression
import BasicCheck.Proofs.Statement.Tree

/-!
# Runs through actions

Every action goes on with the run in which it stands, names only what it has read and refers to the
labels that it jumps to (`Says`). Actions that open with no keyword name at least one thing. The rules
are those of the grammar, one for each form; forms that read nothing but expressions share one
(`Acts`). One action is more than that: a label is declared where it stands (**`tries_labelAction`**).
-/

namespace BasicCheck

/-- The identifiers of an action: its names, then those of its expressions. -/
def Action.idents (a : Action) : List Ident := a.names ++ a.expressions.flatMap Expr.idents

namespace Parse

/-- An action names only what a run has read, and the run has referred to the labels that it jumps
    to. If there is no error, it is the label that the run declares. -/
structure Acted (a : Action) (more : List Event) : Prop where
  names : Names a.idents more
  jumps : ∀ i ∈ a.jumps, Notes ⟨.label, i.folded⟩ more
  label : Clean more → a.label?.toList = declaredBy more

/-- An action that is no label names only what a run has read, and the run has referred to the labels
    that it jumps to. -/
structure Says (a : Action) (more : List Event) : Prop where
  names : Names a.idents more
  jumps : ∀ i ∈ a.jumps, Notes ⟨.label, i.folded⟩ more
  label : a.label? = none

theorem Says.acted {a : Action} {more : List Event} (h : Says a more)
    (hmore : declaredBy more = []) : Acted a more :=
  ⟨h.names, h.jumps, fun _ => by rw [h.label, hmore]; rfl⟩

theorem Says.of_names {a : Action} {more : List Event} (h : Names a.idents more)
    (hjumps : a.jumps = []) (hlabel : a.label? = none) : Says a more :=
  ⟨h, by rw [hjumps]; exact List.forall_mem_nil _, hlabel⟩

theorem Says.behind {a : Action} {more : List Event} (h : Says a more) (trace : List Event) :
    Says a (trace ++ more) :=
  ⟨h.names.behind trace, fun i hi => (h.jumps i hi).behind trace, h.label⟩

/-- A parser of actions that say no more than what it reads. -/
def Acts (p : Parser Action) : Prop := Gives .plain p Says

variable {o s : State} {trace : List Event} {level : Level} {h : At o trace s}

attribute [local simp] Expr.idents Action.idents Action.names Action.expressions

/-! ## 1. Names -/

theorem tries_expectOnOrTo : h.Tries level expectOnOrTo fun _ _ => True := by
  refine At.Tries.after (leads_consume _) fun _ m1 u1 k1 _ => ?_
  split
  · exact At.Tries.pure trivial
  · refine At.Tries.after (leads_consume _) fun _ m2 u2 k2 _ => ?_
    split
    · exact At.Tries.pure trivial
    · exact tries_failHere rfl

theorem tries_expectVariable :
    h.Tries level expectVariable fun t more => more = [.reads t] ∧ t.kind.IsName := by
  refine At.Tries.look (currentKind_eq s) ?_
  split
  · rename_i hk
    exact At.Tries.step (leads_advance_of_isName (Or.inl hk))
  · rename_i hk
    exact At.Tries.step (leads_advance_of_isName (Or.inr (Or.inl hk)))
  · exact tries_failHere rfl

theorem tries_variableIdent (role : Role) :
    h.Tries level (variableIdent role) fun i more => Names [i] more := by
  refine tries_expectVariable.bind ?_
  rintro t _ u1 k1 ⟨rfl, hname⟩
  refine At.Tries.after (leads_noteVariable (k1.newest hname)) fun _ m2 u2 k2 _ => At.Tries.pure ?_
  simpa using (Names.read t t.text role).before m2

theorem tries_labelIdent : h.Tries level labelIdent fun i more =>
    Names [i] more ∧ Notes ⟨.label, i.folded⟩ more := by
  refine tries_expectIdent.bind ?_
  rintro t _ u1 k1 ⟨rfl, hname⟩
  refine At.Tries.after (leads_noteLabel (k1.newest hname)) fun _ m2 u2 k2 hnoted =>
    At.Tries.pure ⟨?_, ?_⟩
  · simpa using (Names.read t t.text .label).before m2
  · rw [List.append_nil]
    exact hnoted.behind _

/-! ## 2. Assignments and calls -/

/-- **A label, which comes next, is declared** unless that is an error. -/
theorem tries_labelAction (hk : s.current.kind = .ident) :
    h.Tries .statement labelAction fun a more => Acted a more ∧ a.idents ≠ [] := by
  refine At.Tries.after (leads_advance_of_isName (Or.inl hk)) ?_
  rintro t _ u1 k1 ⟨rfl, hname⟩
  have hcolon : k1.Leads .statement advance fun _ more =>
      (∀ e ∈ more, e.IsQuiet) ∧ declaredBy more = [] :=
    leads_advance.plain.mono fun _ _ hq => ⟨hq.1.2, hq.2⟩
  refine (At.Tries.step hcolon).dropped.bind fun _ m2 u2 k2 hm2 => ?_
  have hnew := (k1.newest hname).after k1 k2 hm2.1
  refine At.Tries.after (leads_declareLabel hnew) fun done m3 u3 k3 hdeclared => ?_
  have hnames := Names.read t t.text .label
  dsimp only
  split
  · rename_i hdone
    refine At.Tries.pure ⟨⟨?_, List.forall_mem_nil _, fun _ => ?_⟩, List.cons_ne_nil _ _⟩
    · simpa using hnames.before (m2 ++ m3)
    · rw [if_pos hdone] at hdeclared
      simp [hm2.2, hdeclared, Action.label?]
  · refine At.Tries.after (leads_report _ _) fun _ m4 u4 k4 hreport => At.Tries.pure
      ⟨⟨?_, List.forall_mem_nil _, fun hclean => ?_⟩, List.cons_ne_nil _ _⟩
    · simpa using hnames.before (m2 ++ (m3 ++ m4))
    · refine absurd hclean (not_clean (f := ⟨.duplicateDefinition "Label" t.text, t.span⟩) rfl ?_)
      simp [hreport]

/-- The arguments of a call by name alone. -/
theorem tries_callWith (name : Ident) :
    h.Tries .plain (do return Action.subroutineCall name (← arguments)) fun a more =>
      ∀ before, Names [name] before → Says a (before ++ more) ∧ a.idents ≠ [] := by
  refine (gives_arguments .plain h).bind fun args m1 u1 k1 hargs => ?_
  refine At.Tries.pure fun before hb => ⟨.of_names ?_ rfl rfl, nofun⟩
  simpa using hb.append hargs

/-- The call of a routine whose name comes next. -/
theorem tries_subroutineCall (hk : s.current.kind = .ident) :
    h.Tries .plain subroutineCall fun a more => Says a more ∧ a.idents ≠ [] := by
  refine At.Tries.after (leads_advance_of_isName (Or.inl hk)) ?_
  rintro t _ u1 k1 ⟨rfl, hname⟩
  have hnew := k1.newest hname
  have hnames := Names.read t t.text .functionName
  refine At.Tries.after (leads_noteIfKnown .subroutine hnew) fun known m2 u2 k2 hunknown => ?_
  dsimp only
  split
  · refine (tries_callWith _).mono fun a m3 ha => ?_
    rw [← List.append_assoc]
    exact ha _ (hnames.before m2)
  · rename_i hknown
    have hnew' := hnew.after k1 k2 (isQuiet_of_unknown hunknown hknown)
    refine At.Tries.after (leads_noteIfKnown .function hnew') fun known m3 u3 k3 _ => ?_
    split
    · refine (tries_callWith _).mono fun a m4 ha => ?_
      rw [← List.append_assoc, ← List.append_assoc]
      exact ha _ ((hnames.before m2).before m3)
    · refine At.Tries.after (leads_report _ _) fun _ m4 u4 k4 _ => ?_
      refine (tries_callWith _).mono fun a m5 ha => ?_
      rw [← List.append_assoc, ← List.append_assoc, ← List.append_assoc]
      exact ha _ (((hnames.before m2).before m3).before m4)

theorem tries_assignment :
    h.Tries .plain assignment fun a more => Says a more ∧ a.idents ≠ [] := by
  refine tries_target.bind fun left m1 u1 k1 hleft => ?_
  obtain ⟨hleft, hne⟩ := hleft
  refine At.Tries.look (looks_atStatementEnd u1) ?_
  split
  · refine At.Tries.pure ⟨.of_names ?_ rfl rfl, ?_⟩
    · simpa using hleft
    · simpa using hne
  · refine At.Tries.look (currentKind_eq u1) ?_
    split
    · exact tries_failHere rfl
    · refine (At.Tries.step leads_advance').dropped.bind fun _ m2 u2 k2 _ => ?_
      refine (reads_expression .plain k2).bind fun value m3 u3 k3 hvalue => ?_
      have hall := hleft.append (hvalue.behind m2)
      split
      · rename_i name row col span _ _
        refine At.Tries.pure ⟨.of_names ?_ rfl rfl, List.cons_ne_nil _ _⟩
        cases col <;>
          simpa using hall
      · refine At.Tries.pure ⟨.of_names ?_ rfl rfl, ?_⟩
        · simpa using hall
        · simp [hne]

theorem tries_assignmentOrCall :
    h.Tries .plain assignmentOrCall fun a more => Says a more ∧ a.idents ≠ [] := by
  refine At.Tries.get (At.Tries.look (nextKind_eq s) ?_)
  split
  · rename_i hcall
    refine tries_subroutineCall ?_
    simp only [Bool.and_eq_true] at hcall
    exact eq_of_beq hcall.1.1
  · exact tries_assignment

/-- The arguments of a call of a given routine, if there are any. -/
theorem tries_argumentsIf (name : Ident) (indirect : Bool) :
    h.Tries .plain (do
      let args ← if ← sees .leftParen then arguments else pure []
      return Action.call name args indirect) fun a more =>
      ∀ before, Names [name] before → Says a (before ++ more) := by
  refine At.Tries.look (sees_eq s .leftParen) ?_
  dsimp only
  split
  · refine (gives_arguments .plain h).bind fun args m1 u1 k1 hargs => ?_
    refine At.Tries.pure fun before hb => .of_names ?_ rfl rfl
    simpa using hb.append hargs
  · refine At.Tries.given (At.Tries.pure fun before hb => .of_names ?_ rfl rfl)
    simpa using hb

theorem acts_callAction : Acts callAction := by
  intro o trace s h
  refine At.Tries.after (leads_consume .atSign) fun indirect m1 u1 k1 _ => ?_
  dsimp only
  split
  · refine (tries_variableIdent .reference).bind fun name m2 u2 k2 hname => ?_
    exact (tries_argumentsIf name indirect).mono fun a m3 ha => (ha m2 hname).behind m1
  · refine tries_expectIdent.bind ?_
    rintro t _ u2 k2 ⟨rfl, hname⟩
    refine At.Tries.after (leads_noteCalled (k2.newest hname)) fun _ m3 u3 k3 _ => ?_
    have hnames := Names.read t t.text .functionName
    refine At.Tries.given ((tries_argumentsIf _ indirect).mono fun a m4 ha => ?_)
    rw [← List.append_assoc [Event.reads t]]
    exact (ha _ (hnames.before m3)).behind m1

/-! ## 3. Control flow -/

theorem acts_loopCondition (keyword : Token) (test : LoopTest) :
    Acts (loopCondition keyword test) := by
  intro o trace s h
  have hcond : Acts (do
      let cond ← expression
      discard (liftM (consume (.keyword .DO)) : Parser Bool)
      return .loopCondition test cond) := by
    intro o trace s h
    refine (reads_expression .plain h).bind fun cond m1 u1 k1 hcond => ?_
    refine (At.Tries.step (leads_consume _)).dropped.bind fun _ m2 u2 k2 _ =>
      At.Tries.pure (.of_names ?_ rfl rfl)
    simpa using hcond.before m2
  refine At.Tries.get ?_
  dsimp only
  split
  · refine At.Tries.after (leads_report _ _) fun _ m1 u1 k1 _ => ?_
    exact (hcond k1).mono fun a m2 ha => ha.behind m1
  · exact hcond h

theorem acts_onJump : Acts onJump := by
  intro o trace s h
  refine (reads_expression .plain h).bind fun selector m1 u1 k1 hselector => ?_
  have hjump (jump : Jump) : Gives .plain (do
      discard (liftM advance : Parser Token)
      return Action.onJump jump selector (← commaList labelIdent)) fun a more =>
      Says a (m1 ++ more) := by
    intro o trace s h
    refine (At.Tries.step leads_advance').dropped.bind fun _ m2 u2 k2 _ => ?_
    refine (tries_items (fun i => lasting_notes ⟨.label, i.folded⟩) fun _ _ _ k =>
      tries_labelIdent (h := k)).bind fun labels m3 u3 k3 hlabels => At.Tries.pure ⟨?_, ?_, rfl⟩
    · have hall := (hselector.append (hlabels.2.1.behind m2)).perm List.perm_append_comm
      simpa using hall
    · intro i hi
      exact (((hlabels.2.2 i hi).before []).behind m2).behind m1
  refine At.Tries.look (currentKind_eq u1) ?_
  dsimp only
  split
  · exact At.Tries.given (hjump .goto k1)
  · exact At.Tries.given (hjump .gosub k1)
  · exact (tries_failHere rfl (Q := fun _ _ => False)).fails

theorem tries_optionalExpression :
    h.Tries .plain optionalExpression fun e more =>
      Names (e.toList.flatMap Expr.idents) more := by
  refine At.Tries.look (looks_atStatementEnd s) ?_
  split
  · exact At.Tries.pure Names.nil
  · refine (reads_expression .plain h).bind fun e m1 u1 k1 he => At.Tries.pure ?_
    simpa using he

theorem tries_expressionAfter? (word : Keyword) :
    h.Tries .plain (expressionAfter? word) fun e more =>
      Names (e.toList.flatMap Expr.idents) more := by
  refine At.Tries.after (leads_consume _) fun found m1 u1 k1 _ => ?_
  split
  · refine (reads_expression .plain k1).bind fun e m2 u2 k2 he => At.Tries.pure ?_
    simpa using he.behind m1
  · exact At.Tries.pure Names.nil

/-! ## 4. Declarations -/

theorem leads_declareAs (wanted : Declared) {token : Token}
    {declare : SymbolTable → Bool × SymbolTable} (hdeclare : Introduces declare token)
    (hun : Unnoted trace s token) :
    h.Leads level (declareAs wanted token declare) fun _ _ => True := by
  refine At.Leads.look (p := MonadState.get) rfl ?_
  split
  · exact (leads_report _ _).mono fun _ _ _ => trivial
  · exact (leads_trySymbols hdeclare hun).dropped

theorem tries_declaredRoutine (routine : Routine) :
    h.Tries level (declaredRoutine routine) fun i more => Names [i] more := by
  refine At.Tries.look (current_eq s) ?_
  dsimp only
  split
  · rename_i hk
    have hkind := Kind.isName_of_mayNameMember hk
    refine (tries_skip hkind.isWord).bind ?_
    rintro _ _ u1 k1 rfl
    have hname := Names.read s.current s.current.text .functionName
    have hdeclared {declare : SymbolTable → Bool × SymbolTable} {cause : Cause}
        (hdeclare : Introduces declare s.current) :
        k1.Tries level (do
          unless ← trySymbols declare do report cause s.current.span
          return (⟨s.current.text, .functionName, s.current.span⟩ : Ident)) fun i later =>
          Names [i] ([Event.reads s.current] ++ later) := by
      refine At.Tries.after (leads_trySymbols hdeclare (k1.newest hkind).unnoted)
        fun _ m2 u2 k2 _ => ?_
      dsimp only
      split
      · exact At.Tries.pure (by simpa using hname.before m2)
      · refine At.Tries.after (leads_report _ _) fun _ m3 u3 k3 _ => At.Tries.pure ?_
        simpa using hname.before (m2 ++ m3)
    cases routine with
    | function => exact hdeclared fun t => ⟨.function, rfl, rfl⟩
    | subroutine => exact hdeclared fun t => ⟨.subroutine, rfl, rfl⟩
  · exact (At.Tries.throw rfl).fails

theorem acts_declareAction : Acts declareAction := by
  intro o trace s h
  have hnames (routine : Routine) : Acts (do
      discard (liftM advance : Parser Token)
      return .declare routine (← commaList (declaredRoutine routine))) := by
    intro o trace s h
    refine (At.Tries.step leads_advance').dropped.bind fun _ m1 u1 k1 _ => ?_
    have hitem : Gives .plain (declaredRoutine routine) fun i more => Names [i] more :=
      fun _ _ _ k => tries_declaredRoutine (h := k) routine
    refine (tries_commaList hitem).bind fun names m2 u2 k2 hnames =>
      At.Tries.pure (.of_names ?_ rfl rfl)
    simpa using hnames.2.behind m1
  refine At.Tries.look (currentKind_eq s) ?_
  dsimp only
  split
  · exact At.Tries.given (hnames .function h)
  · exact At.Tries.given (hnames .subroutine h)
  · exact (tries_failHere rfl (Q := fun _ _ => False)).fails

theorem acts_equateAction : Acts equateAction := by
  intro o trace s h
  refine tries_expectVariable.bind ?_
  rintro t _ u1 k1 ⟨rfl, hname⟩
  -- the name is noted behind its value, which may note names itself
  refine ((gives_expect .plain (.keyword .TO)).alone k1).dropped.bind fun _ m2 u2 k2 hto => ?_
  refine ((reads_expression .plain).alone k2).bind fun value m3 u3 k3 hvalue => ?_
  have hun := ((k1.newest hname).unnoted.after k1 k2 hto.2).after k2 k3 hvalue.2
  refine At.Tries.after (leads_declareAs .equate (fun _ => ⟨.equate value, rfl, rfl⟩) hun)
    fun _ m4 u4 k4 _ => At.Tries.pure (.of_names ?_ rfl rfl)
  have hall := (Names.read t t.text .assignment).append ((hvalue.1.before m4).behind m2)
  simpa using hall

theorem tries_commonBlockName? :
    h.Tries level commonBlockName? fun name more => Names name.toList more := by
  refine At.Tries.after (leads_consume .slash) fun found m1 u1 k1 _ => ?_
  split
  · refine tries_expectIdent.bind ?_
    rintro t _ u2 k2 ⟨rfl, hname⟩
    refine ((gives_expect level .slash).alone k2).dropped.bind fun _ m3 u3 k3 hslash => ?_
    have hun := (k2.newest hname).unnoted.after k2 k3 hslash.2
    have hnames := Names.read t t.text .label
    refine At.Tries.after (leads_trySymbols (fun _ => ⟨.commonBlock, rfl, rfl⟩) hun)
      fun _ m4 u4 k4 _ => ?_
    dsimp only
    split
    · refine At.Tries.pure ?_
      simpa using (hnames.before (m3 ++ m4)).behind m1
    · refine At.Tries.after (leads_report _ _) fun _ m5 u5 k5 _ => At.Tries.pure ?_
      simpa using (hnames.before (m3 ++ (m4 ++ m5))).behind m1
  · exact At.Tries.pure Names.nil

/-- The identifiers of a matrix and its size. -/
def identsOfDimension (d : Dimension) : List Ident :=
  d.name :: d.expressions.flatMap Expr.idents

/-- The identifiers of a common variable and its size. -/
def identsOfItem (item : CommonItem) : List Ident :=
  item.name :: (item.size.toList.flatMap Dimension.expressions).flatMap Expr.idents

theorem gives_rowAndColumn (level : Level) (start : Span) :
    Gives level (rowAndColumn primary start) fun found more =>
      Names (found.1.idents ++ found.2.toList.flatMap Expr.idents) more :=
  fun _ _ _ h => tries_rowAndColumn (h := h) reads_primary start

theorem tries_dimension :
    h.Tries level dimension fun d more => Names (identsOfDimension d) more := by
  refine tries_expectVariable.bind ?_
  rintro t _ u1 k1 ⟨rfl, hname⟩
  refine ((gives_rowAndColumn level t.span).alone k1).bind fun found m2 u2 k2 hfound => ?_
  obtain ⟨rows, cols⟩ := found
  have hun := (k1.newest hname).unnoted.after k1 k2 hfound.2
  refine At.Tries.after (leads_declareAs .matrix (fun _ => ⟨_, rfl, rfl⟩) hun)
    fun _ m3 u3 k3 _ => At.Tries.pure ?_
  have hall := (Names.read t t.text .assignment).append (hfound.1.before m3)
  cases cols <;> simpa [identsOfDimension, Dimension.expressions] using hall

/-- The identifiers of a row and perhaps a column, if there are any. -/
def identsOfSize (size : Option (Expr × Option Expr)) : List Ident :=
  size.toList.flatMap fun found => found.1.idents ++ found.2.toList.flatMap Expr.idents

/-- A common variable whose name and size have been read. -/
theorem tries_declareItem {t : Token} (hun : Unnoted trace s t)
    (size : Option (Expr × Option Expr)) :
    h.Tries level (do
      declareAs .commonVariable t (·.declareCommonVariable t size)
      let name : Ident := ⟨t.text, .assignment, t.span⟩
      return (⟨name, size.map fun (rows, cols) => ⟨name, rows, cols⟩⟩ : CommonItem))
      fun item more => ∀ before, Names (⟨t.text, .assignment, t.span⟩ :: identsOfSize size) before →
        Names (identsOfItem item) (before ++ more) := by
  refine At.Tries.after (leads_declareAs .commonVariable (fun _ => ⟨_, rfl, rfl⟩) hun)
    fun _ m1 u1 k1 _ => At.Tries.pure fun before hb => ?_
  rcases size with _ | ⟨rows, _ | col⟩ <;>
    simpa [identsOfItem, identsOfSize, Dimension.expressions] using hb.before m1

theorem tries_commonItem :
    h.Tries level commonItem fun item more => Names (identsOfItem item) more := by
  refine tries_expectVariable.bind ?_
  rintro t _ u1 k1 ⟨rfl, hname⟩
  have hun := (k1.newest hname).unnoted
  have hnames := Names.read t t.text .assignment
  refine At.Tries.look (sees_eq u1 .leftParen) ?_
  dsimp only
  split
  · refine At.Tries.bind
      (At.Tries.map (Q := fun size m => Names (identsOfSize size) m ∧ ∃ u, Run u1 m u)
        (((gives_rowAndColumn level t.span).alone k1).mono fun found m hfound => ?_)) ?_
    · simpa [identsOfSize] using hfound
    · intro size m2 u2 k2 hsize
      refine (tries_declareItem (hun.after k1 k2 hsize.2) size).mono fun item m3 hitem => ?_
      simpa using hitem _ (hnames.append hsize.1)
  · refine At.Tries.given ((tries_declareItem hun none).mono fun item m2 hitem => ?_)
    exact hitem _ hnames

theorem acts_commonAction : Acts commonAction := by
  intro o trace s h
  refine tries_commonBlockName?.bind fun block m1 u1 k1 hblock => ?_
  have hitem : Gives .plain commonItem fun item more => Names (identsOfItem item) more :=
    fun _ _ _ k => tries_commonItem (h := k)
  refine (tries_commaList hitem).bind fun items m2 u2 k2 hitems =>
    At.Tries.pure (.of_names ?_ rfl rfl)
  have hperm := (List.map_append_flatMap_perm items CommonItem.name fun item =>
    (item.size.toList.flatMap Dimension.expressions).flatMap Expr.idents).symm
  have hall := hblock.append (hitems.2.perm hperm)
  simpa [List.flatMap_assoc] using hall

theorem acts_dim : Acts (.dim <$> commaList dimension) := by
  intro o trace s h
  have hitem : Gives .plain dimension fun d more => Names (identsOfDimension d) more :=
    fun _ _ _ k => tries_dimension (h := k)
  refine At.Tries.map ((tries_commaList hitem).mono fun ds more hds => .of_names ?_ rfl rfl)
  have hperm := (List.map_append_flatMap_perm ds Dimension.name fun d =>
    d.expressions.flatMap Expr.idents).symm
  simpa [List.flatMap_assoc] using
    hds.2.perm hperm

theorem acts_matAction : Acts matAction := by
  intro o trace s h
  refine (tries_variableIdent .assignment).bind fun name m1 u1 k1 hname => ?_
  have hvalue : Gives .plain (do
      discard (expect .equal)
      if ← consume (.keyword .MAT) then
        return Action.mat name (.variable (← variableIdent .reference))
      else return .mat name (← expression)) fun a more => ∀ before, Names [name] before →
        Says a (before ++ more) := by
    intro o trace s h
    refine (tries_expect .equal).dropped.bind fun _ m2 u2 k2 _ => ?_
    refine At.Tries.after (leads_consume _) fun found m3 u3 k3 _ => ?_
    split
    · refine (tries_variableIdent .reference).bind fun i m4 u4 k4 hi => ?_
      refine At.Tries.pure fun before hb => .of_names ?_ rfl rfl
      have hall := hb.append ((hi.behind m3).behind m2)
      simpa using hall
    · refine (reads_expression .plain k3).bind fun e m4 u4 k4 he => ?_
      refine At.Tries.pure fun before hb => .of_names ?_ rfl rfl
      have hall := hb.append ((he.behind m3).behind m2)
      simpa using hall
  refine At.Tries.get ?_
  dsimp only
  split
  · exact (hvalue k1).mono fun a m ha => ha m1 hname
  · refine At.Tries.after (leads_report _ _) fun _ m2 u2 k2 _ => ?_
    refine (hvalue k2).mono fun a m ha => ?_
    rw [← List.append_assoc]
    exact ha _ (hname.before m2)

theorem tries_insertAction :
    h.Tries .plain insertAction fun a more => Says a more ∧ a.idents ≠ [] := by
  refine (At.Tries.step leads_advance').dropped.bind fun _ m1 u1 k1 _ => ?_
  refine tries_expectIdent.bind ?_
  rintro t _ u2 k2 ⟨rfl, hname⟩
  have hnames := (Names.read t t.text .insertName).behind m1
  refine At.Tries.after
    (leads_trySymbols (fun _ => ⟨.insert, rfl, rfl⟩) (k2.newest hname).unnoted)
    fun _ m3 u3 k3 _ => ?_
  dsimp only
  split
  · refine At.Tries.pure ⟨.of_names ?_ rfl rfl, List.cons_ne_nil _ _⟩
    simpa using hnames.before m3
  · refine At.Tries.after (leads_report _ _) fun _ m4 u4 k4 _ =>
      At.Tries.pure ⟨.of_names ?_ rfl rfl, List.cons_ne_nil _ _⟩
    simpa using hnames.before (m3 ++ m4)

/-! ## 5. Dynamic arrays and files -/

theorem acts_swapAction : Acts swapAction := by
  intro o trace s h
  refine (reads_expression .plain h).bind fun old m1 u1 k1 hold => ?_
  refine (tries_expect _).dropped.bind fun _ m2 u2 k2 _ => ?_
  refine (reads_expression .plain k2).bind fun new m3 u3 k3 hnew => ?_
  refine (tries_expect _).dropped.bind fun _ m4 u4 k4 _ => ?_
  refine tries_target.bind fun left m5 u5 k5 hleft => At.Tries.pure (.of_names ?_ rfl rfl)
  have hall := hold.append ((hnew.append (hleft.1.behind m4)).behind m2)
  simpa using hall

theorem acts_convertAction : Acts convertAction := by
  intro o trace s h
  refine (reads_expression .plain h).bind fun source m1 u1 k1 hsource => ?_
  refine (tries_expect _).dropped.bind fun _ m2 u2 k2 _ => ?_
  refine (reads_expression .plain k2).bind fun result m3 u3 k3 hresult => ?_
  refine (tries_expect _).dropped.bind fun _ m4 u4 k4 _ => ?_
  refine tries_target.bind fun left m5 u5 k5 hleft => At.Tries.pure (.of_names ?_ rfl rfl)
  have hall := hsource.append ((hresult.append (hleft.1.behind m4)).behind m2)
  simpa using hall

theorem acts_transferAction : Acts transferAction := by
  intro o trace s h
  refine (reads_primary .plain h).bind fun source m1 u1 k1 hsource => ?_
  refine (tries_expect _).dropped.bind fun _ m2 u2 k2 _ => ?_
  refine tries_target.bind fun left m3 u3 k3 hleft => At.Tries.pure (.of_names ?_ rfl rfl)
  have hall := hsource.append (hleft.1.behind m2)
  simpa using hall

theorem acts_removeAction : Acts removeAction := by
  intro o trace s h
  refine tries_target.bind fun left m1 u1 k1 hleft => ?_
  refine (tries_expect _).dropped.bind fun _ m2 u2 k2 _ => ?_
  refine (reads_expression .plain k2).bind fun source m3 u3 k3 hsource => ?_
  refine (tries_expect _).dropped.bind fun _ m4 u4 k4 _ => ?_
  refine tries_target.bind fun position m5 u5 k5 hposition => ?_
  refine (tries_expect _).dropped.bind fun _ m6 u6 k6 _ => ?_
  refine tries_target.bind fun flag m7 u7 k7 hflag => At.Tries.pure (.of_names ?_ rfl rfl)
  have hlast := hposition.1.append (hflag.1.behind m6)
  have hall := hleft.1.append ((hsource.append (hlast.behind m4)).behind m2)
  simpa using hall

theorem acts_matParseAction : Acts matParseAction := by
  intro o trace s h
  refine (reads_expression .plain h).bind fun source m1 u1 k1 hsource => ?_
  refine (tries_expect _).dropped.bind fun _ m2 u2 k2 _ => ?_
  refine (tries_variableIdent .assignment).bind fun name m3 u3 k3 hname => ?_
  refine (tries_expressionAfter? .USING).bind fun delimiter m4 u4 k4 hdelimiter => ?_
  have hall := hsource.append ((hname.append hdelimiter).behind m2)
  refine At.Tries.pure (.of_names ((by simpa using hall : Names _ _).perm ?_) rfl rfl)
  simp [List.perm_middle]

theorem acts_osWriteAction : Acts osWriteAction := by
  intro o trace s h
  refine (reads_expression .plain h).bind fun value m1 u1 k1 hvalue => ?_
  refine tries_expectOnOrTo.bind fun _ m2 u2 k2 _ => ?_
  refine (reads_expression .plain k2).bind fun path m3 u3 k3 hpath => At.Tries.pure (.of_names ?_ rfl rfl)
  have hall := hvalue.append (hpath.behind m2)
  simpa using hall

theorem acts_osBReadAction : Acts osBReadAction := by
  intro o trace s h
  refine tries_target.bind fun left m1 u1 k1 hleft => ?_
  refine (tries_expect _).dropped.bind fun _ m2 u2 k2 _ => ?_
  refine (reads_expression .plain k2).bind fun handle m3 u3 k3 hhandle => ?_
  refine (tries_expect _).dropped.bind fun _ m4 u4 k4 _ => ?_
  refine (reads_expression .plain k4).bind fun position m5 u5 k5 hposition => ?_
  refine (tries_expect _).dropped.bind fun _ m6 u6 k6 _ => ?_
  refine (reads_expression .plain k6).bind fun length m7 u7 k7 hlength => At.Tries.pure (.of_names ?_ rfl rfl)
  have hlast := hposition.append (hlength.behind m6)
  have hall := hleft.1.append ((hhandle.append (hlast.behind m4)).behind m2)
  simpa using hall

theorem acts_osBWriteAction : Acts osBWriteAction := by
  intro o trace s h
  refine (reads_expression .plain h).bind fun value m1 u1 k1 hvalue => ?_
  refine tries_expectOnOrTo.bind fun _ m2 u2 k2 _ => ?_
  refine (reads_expression .plain k2).bind fun handle m3 u3 k3 hhandle => ?_
  refine (tries_expect _).dropped.bind fun _ m4 u4 k4 _ => ?_
  refine (reads_expression .plain k4).bind fun position m5 u5 k5 hposition => At.Tries.pure (.of_names ?_ rfl rfl)
  have hall := hvalue.append ((hhandle.append (hposition.behind m4)).behind m2)
  simpa using hall

/-! ## 6. The keywords of actions -/

theorem acts_expression {f : Expr → Action} (hf : ∀ e, (f e).idents = e.idents)
    (hjumps : ∀ e, (f e).jumps = []) (hlabel : ∀ e, (f e).label? = none) :
    Acts (f <$> expression) := fun _ _ _ h =>
  At.Tries.map ((reads_expression .plain h).mono fun e _ he =>
    .of_names (by rwa [hf]) (hjumps e) (hlabel e))

theorem acts_optional {f : Option Expr → Action}
    (hf : ∀ e, (f e).idents = e.toList.flatMap Expr.idents) (hjumps : ∀ e, (f e).jumps = [])
    (hlabel : ∀ e, (f e).label? = none) : Acts (f <$> optionalExpression) := fun _ _ _ h =>
  At.Tries.map ((tries_optionalExpression (h := h)).mono fun e _ he =>
    .of_names (by rwa [hf]) (hjumps e) (hlabel e))

theorem acts_jump {f : Ident → Action} (hf : ∀ i, (f i).idents = [i])
    (hjumps : ∀ i, (f i).jumps = [i]) (hlabel : ∀ i, (f i).label? = none) :
    Acts (f <$> labelIdent) := by
  intro o trace s h
  refine At.Tries.map ((tries_labelIdent (h := h)).mono fun i more hi => ⟨?_, ?_, hlabel i⟩)
  · rw [hf]
    exact hi.1
  · rw [hjumps]
    exact List.forall_mem_singleton.mpr hi.2

theorem acts_pure {a : Action} (ha : a.idents = []) (hjumps : a.jumps = [])
    (hlabel : a.label? = none) : Acts (pure a) :=
  fun _ _ _ _ => At.Tries.pure (.of_names (by rw [ha]; exact Names.nil) hjumps hlabel)

/-- **Every action behind its keyword goes on with the run** and names only what it has read. -/
theorem acts_actionAfter? {keyword : Token} {word : Keyword} {p : Parser Action}
    (hp : actionAfter? keyword word = some p) : Acts p := by
  have single (e : Expr) : [e].flatMap Expr.idents = e.idents := List.flatMap_singleton ..
  -- one case for each word, in the order in which they are told apart
  unfold actionAfter? at hp
  split at hp <;> cases hp
  · exact acts_loopCondition keyword .whileHolds
  · exact acts_loopCondition keyword .untilHolds
  · exact acts_jump (fun _ => rfl) (fun _ => rfl) fun _ => rfl
  · exact acts_jump (fun _ => rfl) (fun _ => rfl) fun _ => rfl
  · exact acts_onJump
  · exact acts_optional (fun _ => rfl) (fun _ => rfl) fun _ => rfl
  · exact acts_callAction
  · exact acts_declareAction
  · exact acts_equateAction
  · exact acts_commonAction
  · exact acts_dim
  · exact acts_matAction
  · exact acts_expression single (fun _ => rfl) fun _ => rfl
  · exact acts_optional (fun _ => rfl) (fun _ => rfl) fun _ => rfl
  · exact acts_swapAction
  · exact acts_convertAction
  · exact acts_transferAction
  · exact acts_removeAction
  · exact acts_matParseAction
  · exact acts_osWriteAction
  · exact acts_osBReadAction
  · exact acts_osBWriteAction
  · exact acts_expression single (fun _ => rfl) fun _ => rfl
  · exact acts_expression single (fun _ => rfl) fun _ => rfl
  · exact acts_expression single (fun _ => rfl) fun _ => rfl
  all_goals exact acts_pure rfl rfl rfl

end Parse

end BasicCheck
