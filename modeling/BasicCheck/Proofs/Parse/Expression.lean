import BasicCheck.Proofs.Parse.Steps

/-!
# Runs through expressions

Every part of the grammar of expressions goes on with the run in which it stands, by events that can
be undone, and what it gives names only tokens that it has read (`ReadsExpr`). So an attempt at an
index list that is not closed can be taken back without a trace (**`leads_angleIndexes?`**), however
many attempts there were within it; and the whole grammar of expressions is sound
(**`reads_expression`**).
-/

namespace BasicCheck.Parse

/-- A parser of expressions, which may be used at every level. -/
def ReadsExpr (p : Parser Expr) : Prop :=
  ∀ level, Gives level p fun e more => Names e.idents more

/-- An expression names what another one names and else only what a run has read. -/
def Builds (base e : Expr) (more : List Event) : Prop :=
  ∀ before, Names base.idents before → Names e.idents (before ++ more)

theorem Builds.refl (e : Expr) : Builds e e [] := fun before hb => by rwa [List.append_nil]

theorem Builds.trans {a b c : Expr} {more later : List Event} (h : Builds a b more)
    (k : Builds b c later) : Builds a c (more ++ later) := by
  intro before hb
  rw [← List.append_assoc]
  exact k _ (h before hb)

variable {o s : State} {trace : List Event} {level : Level} {h : At o trace s}

attribute [local simp] Expr.idents

/-! ## 1. The levels of binary operators -/

theorem tries_takeOperator : h.Tries level takeOperator fun _ _ => True := by
  refine At.Tries.after leads_advance' fun token more u k _ => ?_
  split
  · exact At.Tries.pure trivial
  · exact At.Tries.throw rfl

theorem reads_chain {operand : Parser Expr} (ho : ReadsExpr operand) (isOperator : Kind → Bool) :
    ReadsExpr (chain operand isOperator) := by
  intro level o trace s h
  refine (ho level h).bind fun first more u k hfirst => ?_
  refine At.Tries.tryLoop (I := fun e done => Names e.idents (more ++ done)) ?_
    fun left done u' k' hleft => ?_
  · rwa [List.append_nil]
  refine At.Tries.look (currentKind_eq u') ?_
  split
  · refine tries_takeOperator.bind fun op m1 u1 k1 _ => ?_
    refine (ho level k1).bind fun right m2 u2 k2 hright => At.Tries.pure ?_
    simpa [binaryOf] using hleft.append (hright.behind m1)
  · exact At.Tries.pure (by simpa using hleft)

section Levels

variable {primary : Parser Expr} (hp : ReadsExpr primary)

include hp

theorem reads_concatenations : ReadsExpr (concatenations primary) :=
  reads_chain (reads_chain (reads_chain (reads_chain hp _) _) _) _

theorem reads_expressionOver : ReadsExpr (expressionOver primary) :=
  reads_chain (reads_chain (reads_concatenations hp) _) _

/-! ## 2. Lists of expressions -/

theorem gives_argumentsOver (level : Level) :
    Gives level (argumentsOver primary) fun args more => Names (args.flatMap Expr.idents) more := by
  intro o trace s h
  refine (tries_expect .leftParen).dropped.bind fun _ m1 u1 k1 _ => ?_
  refine At.Tries.look (sees_eq u1 .rightParen) ?_
  dsimp only
  split
  · refine At.Tries.given ?_
    exact (tries_expect .rightParen).dropped.bind fun _ m3 u3 k3 _ => At.Tries.pure Names.nil
  · refine (tries_commaList (reads_expressionOver hp level)).bind fun args m2 u2 k2 hargs => ?_
    refine (tries_expect .rightParen).dropped.bind fun _ m3 u3 k3 _ => At.Tries.pure ?_
    simpa using (hargs.2.behind m1).before m3

theorem tries_rowAndColumn (start : Span) :
    h.Tries level (rowAndColumn primary start) fun found more =>
      Names (found.1.idents ++ found.2.toList.flatMap Expr.idents) more := by
  refine (gives_argumentsOver hp level h).bind fun args m1 u1 k1 hargs => ?_
  cases args with
  | nil => exact At.Tries.get (At.Tries.throw rfl)
  | cons row cols =>
    have hfound : Names (row.idents ++ cols.head?.toList.flatMap Expr.idents) m1 := by
      refine Fits.mono hargs (List.Sublist.map _ ?_)
      rw [List.flatMap_cons]
      refine List.Sublist.append_left ?_ _
      cases cols <;> simp
    dsimp only
    split
    · refine At.Tries.look (spanFrom_eq u1 start) ?_
      refine At.Tries.after (leads_report _ _) fun _ m2 u2 k2 _ => At.Tries.pure ?_
      simpa using hfound.before m2
    · exact At.Tries.pure (by simpa using hfound)

/-! ## 3. Index lists -/

omit hp h in
/-- Either a token `>=` is split, or nothing is read. -/
theorem splitGreaterEqual_cases (s : State) :
    (s.current.kind = .greaterEqual ∧ s.current.text = ">=") ∧
        splitGreaterEqual s = (true, { s with
          rest := s.rest.tail, last := some s.current, split := some s.current }) ∨
      splitGreaterEqual s = (false, s) := by
  by_cases hk : s.current.kind = .greaterEqual ∧ s.current.text = ">="
  · exact Or.inl ⟨hk, if_pos hk⟩
  · exact Or.inr (if_neg hk)

omit hp in
theorem leads_splitGreaterEqual : h.Leads level splitGreaterEqual fun _ _ => True := by
  rcases splitGreaterEqual_cases s with ⟨hk, hsplit⟩ | hsame
  · obtain ⟨hnone, hhead⟩ := State.head?_of_isWord h.state_sound (hk.1 ▸ Kind.isWord_greaterEqual)
    exact At.Leads.event (e := .splits s.current) hsplit ⟨hnone, hhead⟩ ⟨trivial, rfl⟩ trivial
  · exact At.Leads.nothing hsame trivial

omit hp in
theorem leads_closeAngle : h.Leads level closeAngle fun _ _ => True := by
  refine (leads_consume .greater).bind fun closed m1 u1 k1 _ => ?_
  split
  · exact At.Leads.pure trivial
  · exact leads_splitGreaterEqual

theorem leads_closedIndexes? :
    h.Leads level (closedIndexes? primary) fun found more =>
      Names ((found.getD []).flatMap Expr.idents) more := by
  refine leads_advance'.dropped.bind fun _ m1 u1 k1 _ => ?_
  refine At.Leads.bind (tries_commaList (h := k1) (reads_concatenations hp level))
    fun items m2 u2 k2 hitems => ?_
  cases items with
  | error fault => exact At.Leads.pure Names.nil
  | ok indexes =>
    refine leads_closeAngle.bind fun closed m3 u3 k3 _ => ?_
    split
    · refine At.Leads.pure ?_
      simpa using (hitems.2.behind m1).before m3
    · exact At.Leads.pure Names.nil

/-- **An attempt at an index list** goes on with the run; if the list is not closed, by nothing but
    the note that an attempt was taken back. -/
theorem leads_angleIndexes? (base : Expr) (hless : s.current.kind = .less) :
    h.Leads level (angleIndexes? primary base) fun found more =>
      Names ((found.getD []).flatMap Expr.idents) more := by
  have hs := h.state_sound
  have hword : s.current.kind.IsWord := by
    rw [hless]
    decide
  have hsplit := (State.head?_of_isWord hs hword).1
  -- a run of its own: what the attempt notes has to be read within it
  have fresh : At s [] s := ⟨hs, .start⟩
  have hclosed : fresh.Leads .plain (closedIndexes? primary) fun found more =>
      Names ((found.getD []).flatMap Expr.idents) more := leads_closedIndexes? hp
  obtain ⟨more, ⟨-, hrun⟩, hplain, hnames⟩ := hclosed
  rw [List.nil_append] at hrun
  refine At.Leads.look (p := MonadState.get) rfl ?_
  rcases hr : closedIndexes? primary s with ⟨found, u⟩
  rw [hr] at hrun hnames
  cases found with
  | some indexes =>
    have hallowed : ∀ e ∈ more, level.Allows e := fun e he => level.allows_of_isPlain (hplain e he)
    refine At.Leads.of_run_bind hr ⟨h.sound, h.run.append hrun⟩ hallowed ?_
    dsimp only
    split
    · refine At.Leads.look (spanFrom_eq u base.span) ?_
      refine (leads_report _ _).bind fun _ m2 u2 k2 _ => At.Leads.pure ?_
      simpa using hnames.before m2
    · exact At.Leads.pure (by simpa using hnames)
  | none =>
    refine At.Leads.of_run (a := none) (u := u.takeBack s.snapshot s.toReading)
      ((step_bind hr).trans rfl)
      ⟨h.sound, h.run.append (hrun.takeBack hs hsplit fun e he => (hplain e he).1)⟩ (fun e he => ?_)
      Names.nil
    refine level.allows_of_isPlain ?_
    rcases List.mem_append.mp he with he | he
    · exact Event.isPlain_of_isGivenUp (List.mem_filter.mp he).2
    · rw [List.mem_singleton.mp he]
      exact ⟨trivial, rfl⟩

omit hp in
/-- Every attempt that gives nothing is noted, with what was known before it and behind it. -/
theorem takenBack_angleIndexes? {base : Expr}
    (hnone : (angleIndexes? primary base s).1 = none) :
    (angleIndexes? primary base s).2.takenBack
      ⟨s.toReading, (angleIndexes? primary base s).2.toReading⟩ := by
  unfold angleIndexes? at hnone ⊢
  rw [step_bind (rfl : (MonadState.get : Step State) s = (s, s))] at hnone ⊢
  rcases hr : closedIndexes? primary s with ⟨found, u⟩
  rw [step_bind hr] at hnone ⊢
  cases found with
  | none => exact Or.inr rfl
  | some indexes =>
    dsimp only at hnone
    split at hnone <;> cases hnone

/-! ## 4. Operands -/

theorem tries_substringOf (base : Expr) :
    h.Tries level (substringOf primary base) (Builds base) := by
  refine (At.Tries.step leads_advance').dropped.bind fun _ m1 u1 k1 _ => ?_
  refine (tries_commaList (h := k1) (reads_expressionOver hp level)).bind fun es m2 u2 k2 hes => ?_
  refine (tries_expect .rightBracket).dropped.bind fun _ m3 u3 k3 _ => ?_
  refine At.Tries.look (spanFrom_eq u3 base.span) ?_
  have hall (before : List Event) (hb : Names base.idents before) (m : List Event) :
      Names (base.idents ++ es.flatMap Expr.idents) (before ++ (m1 ++ (m2 ++ (m3 ++ m)))) :=
    hb.append ((hes.2.before (m3 ++ m)).behind m1)
  dsimp only
  split
  · refine At.Tries.after (leads_report _ _) fun _ m4 u4 k4 _ => At.Tries.pure fun before hb => ?_
    simpa [Expr.identsOfAll_eq_flatMap] using hall before hb m4
  · refine At.Tries.pure fun before hb => ?_
    simpa [Expr.identsOfAll_eq_flatMap] using hall before hb []

theorem tries_memberOf (object : Expr) :
    h.Tries level (memberOf primary object) (Builds object) := by
  refine (At.Tries.step leads_advance').dropped.bind fun _ m1 u1 k1 _ => ?_
  refine At.Tries.after leads_advance fun token m2 u2 k2 htoken => ?_
  dsimp only
  split
  · rename_i hkind
    obtain rfl := htoken.1 (Kind.isName_of_mayNameMember hkind).isWord
    refine At.Tries.look (sees_eq u2 .leftParen) ?_
    split
    · refine (gives_argumentsOver hp level k2).bind fun args m3 u3 k3 hargs => ?_
      refine At.Tries.look (spanFrom_eq u3 object.span) (At.Tries.pure fun before hb => ?_)
      have hmember := Names.read token token.text .functionName
      have hall := hb.append ((hmember.append hargs).behind m1)
      simpa [Expr.identsOfAll_eq_flatMap] using hall
    · refine At.Tries.look (spanFrom_eq u2 object.span) (At.Tries.pure fun before hb => ?_)
      have hmember := Names.read token token.text .functionName
      have hall := hb.append (hmember.behind m1)
      simpa using hall
  · exact (At.Tries.throw rfl).fails

theorem tries_suffixes (base : Expr) : h.Tries level (suffixes primary base) (Builds base) := by
  refine At.Tries.tryLoop (I := Builds base) (Builds.refl base) fun e done u k he => ?_
  refine At.Tries.look (currentKind_eq u) ?_
  split
  · rename_i hless
    split
    · refine At.Tries.after (leads_angleIndexes? hp e hless) fun found m1 u1 k1 hfound => ?_
      cases found with
      | none => exact At.Tries.pure (by simpa using he.trans fun _ hb => hb.before m1)
      | some indexes =>
        refine At.Tries.look (spanFrom_eq u1 e.span) (At.Tries.pure ?_)
        have hindex : Builds e (.arrayIndex e indexes (e.span.join u1.previous.span)) m1 := by
          intro before hb
          simpa [Expr.identsOfAll_eq_flatMap] using hb.append hfound
        simpa using he.trans hindex
    · exact At.Tries.pure (by simpa using he)
  · refine (tries_substringOf hp e).bind fun e' m1 u1 k1 he' => At.Tries.pure ?_
    simpa using he.trans he'
  · refine (tries_memberOf hp e).bind fun e' m1 u1 k1 he' => At.Tries.pure ?_
    simpa using he.trans he'
  · exact At.Tries.pure (by simpa using he)

theorem tries_callOf (name : Ident) :
    h.Tries level (callOf primary name) fun e more =>
      ∀ before, Names [name] before → Names e.idents (before ++ more) := by
  refine (gives_argumentsOver hp level h).bind fun args m1 u1 k1 hargs => ?_
  refine At.Tries.look (spanFrom_eq u1 name.span) (At.Tries.pure fun before hb => ?_)
  simpa [Expr.identsOfAll_eq_flatMap] using hb.append hargs

omit hp in
theorem looks_seesFunctionKeyword : Looks seesFunctionKeyword := by
  refine Looks.bind (fun _ => rfl) fun s => looks_nextKind.bind fun kind => Looks.pure _

/-- A name, which comes next. -/
theorem tries_named (hk : s.current.kind = .ident) :
    h.Tries level (named primary) fun e more => Names e.idents more := by
  refine At.Tries.after (leads_advance_of_isName (Or.inl hk)) ?_
  rintro token _ u1 k1 ⟨rfl, hname⟩
  have hnew := k1.newest hname
  refine At.Tries.look (sees_eq u1 .leftParen) ?_
  split
  · refine At.Tries.get ?_
    split
    · refine At.Tries.after (leads_noteVariable hnew) fun _ m2 u2 k2 _ => ?_
      refine (tries_rowAndColumn hp token.span).bind fun found m3 u3 k3 hfound => ?_
      obtain ⟨row, col⟩ := found
      refine At.Tries.look (spanFrom_eq u3 token.span) (At.Tries.pure ?_)
      have hname := Names.read token token.text .reference
      have hall := hname.append (hfound.behind m2)
      cases col <;> simpa using hall
    · refine At.Tries.after (leads_noteIfKnown .function hnew) fun known m2 u2 k2 _ => ?_
      have hname := Names.read token token.text .functionName
      dsimp only
      split
      · refine At.Tries.after (leads_report _ _) fun _ m3 u3 k3 _ => ?_
        refine (tries_callOf hp _).mono fun e m4 he => ?_
        simpa using he _ (hname.before (m2 ++ m3))
      · refine (tries_callOf hp _).mono fun e m3 he => ?_
        simpa using he _ (hname.before m2)
  · refine At.Tries.after (leads_noteIfKnown .equate hnew) fun known m2 u2 k2 hunknown => ?_
    have hname := Names.read token token.text .reference
    dsimp only
    split
    · exact At.Tries.pure (by simpa using hname.before m2)
    · rename_i hknown
      have hnew' := hnew.after k1 k2 (isQuiet_of_unknown hunknown hknown)
      refine At.Tries.after (leads_noteVariable hnew') fun _ m3 u3 k3 _ => ?_
      exact At.Tries.pure (by simpa using hname.before (m2 ++ m3))

theorem tries_conditional :
    h.Tries level (conditional primary) fun e more => Names e.idents more := by
  refine At.Tries.after leads_advance' fun start m1 u1 k1 _ => ?_
  refine (reads_expressionOver hp level k1).bind fun cond m2 u2 k2 hcond => ?_
  refine (tries_expect (.keyword .THEN)).dropped.bind fun _ m3 u3 k3 _ => ?_
  refine (reads_expressionOver hp level k3).bind fun thenValue m4 u4 k4 hthen => ?_
  refine (tries_expect (.keyword .ELSE)).dropped.bind fun _ m5 u5 k5 _ => ?_
  refine (reads_expressionOver hp level k5).bind fun elseValue m6 u6 k6 helse => ?_
  refine At.Tries.look (spanFrom_eq u6 start.span) (At.Tries.pure ?_)
  have hall := (hcond.behind m1).append ((hthen.behind m3).append (helse.behind m5))
  simpa using hall

/-- An operand that opens with a keyword, which comes next. -/
theorem tries_keywordOperand {word : Keyword} (hk : s.current.kind = .keyword word) :
    h.Tries level (keywordOperand primary word) fun e more => Names e.idents more := by
  have hname : s.current.kind.IsName := by
    rw [hk]
    exact Kind.isName_keyword word
  refine At.Tries.look (current_eq s) (At.Tries.look (looks_seesFunctionKeyword s) ?_)
  split
  · refine (tries_skip hname.isWord).bind ?_
    rintro _ _ u1 k1 rfl
    have hnoted : k1.Leads level (noteIfKnown .function s.current) fun _ _ => True :=
      (leads_noteIfKnown .function (k1.newest hname)).mono fun _ _ _ => trivial
    refine (At.Tries.step hnoted).dropped.bind fun _ m2 u2 k2 _ => ?_
    refine (tries_callOf hp _).mono fun e m3 he => ?_
    have hname := Names.read s.current s.current.text .functionName
    simpa using he _ (hname.before m2)
  · split
    · exact tries_conditional hp
    · split
      · refine (tries_skip hname.isWord).bind ?_
        rintro _ _ u1 k1 rfl
        have hnew := k1.newest hname
        have hrenamed : Newest _ u1 { s.current with kind := .ident } := ⟨hnew.named, hnew.latest⟩
        refine At.Tries.after (leads_noteVariable hrenamed) fun _ m2 u2 k2 _ => At.Tries.pure ?_
        have hname := Names.read s.current s.current.text .reference
        simpa using hname.before m2
      · exact tries_failHere rfl

omit hp in
/-- A literal and its suffixes. -/
theorem tries_literal (hp : ReadsExpr primary) {literal : Expr} (hl : literal.idents = []) :
    h.Tries level (do
      discard (liftM advance : Parser Token)
      suffixes primary literal) fun e more => Names e.idents more := by
  refine (At.Tries.step leads_advance').dropped.bind fun _ m1 u1 k1 _ => ?_
  refine (tries_suffixes hp literal).mono fun e m2 he => he m1 ?_
  rw [hl]
  exact Names.nil

/-- An operand and its suffixes. -/
theorem tries_suffixed {p : Parser Expr} (h1 : h.Tries level p fun e more => Names e.idents more) :
    h.Tries level (p >>= suffixes primary) fun e more => Names e.idents more := by
  refine h1.bind fun base m1 u1 k1 hbase => ?_
  exact (tries_suffixes hp base).mono fun e m2 he => he m1 hbase

/-- **One layer of operands over good operands is good.** -/
theorem reads_primaryLayer : ReadsExpr (primaryLayer primary) := by
  intro level o trace s h
  refine At.Tries.look (current_eq s) ?_
  split
  · exact tries_literal hp rfl
  · exact tries_literal hp rfl
  · exact tries_literal hp rfl
  · refine (At.Tries.step leads_advance').dropped.bind fun _ m1 u1 k1 _ => ?_
    refine (reads_expressionOver hp level k1).bind fun inner m2 u2 k2 hinner => ?_
    refine (tries_expect .rightParen).dropped.bind fun _ m3 u3 k3 _ => ?_
    refine (tries_suffixes hp inner).mono fun e m4 he => ?_
    simpa using (he _ (hinner.before m3)).behind m1
  · refine (At.Tries.step leads_advance').dropped.bind fun _ m1 u1 k1 _ => ?_
    refine (hp level k1).bind fun inner m2 u2 k2 hinner => At.Tries.pure ?_
    simpa using hinner.behind m1
  · refine (At.Tries.step leads_advance').dropped.bind fun _ m1 u1 k1 _ => ?_
    exact (hp level k1).mono fun e m2 he => he.behind m1
  · rename_i hk
    refine (tries_skip (by rw [hk]; decide)).bind ?_
    rintro _ _ u1 k1 rfl
    refine At.Tries.look (sees_eq u1 .leftParen) ?_
    split
    · refine At.Tries.bind (tries_callOf hp _) fun base m2 u2 k2 hbase => ?_
      refine (tries_suffixes hp base).mono fun e m3 he => ?_
      simpa using he _ (hbase _ (Names.read s.current "@" .functionName))
    · exact tries_failHere rfl
  · rename_i hk
    have hsystem : s.current.kind.IsName := Or.inr (Or.inl hk)
    refine (tries_skip hsystem.isWord).bind ?_
    rintro _ _ u1 k1 rfl
    refine At.Tries.after (leads_noteVariable (k1.newest hsystem)) fun _ m2 u2 k2 _ => ?_
    refine (tries_suffixes hp _).mono fun e m3 he => ?_
    have hname := Names.read s.current s.current.text .reference
    simpa using he _ (hname.before m2)
  · rename_i hk
    exact tries_suffixed hp (tries_named hp hk)
  · rename_i hk
    exact tries_suffixed hp (tries_keywordOperand hp hk)
  · exact At.Tries.throw rfl

end Levels

/-! ## 5. The grammar of expressions -/

/-- **An operand goes on with the run** and names only what it has read. -/
theorem reads_primary : ReadsExpr primary := by
  intro level o trace s h
  refine At.Tries.get ?_
  exact of_layers ReadsExpr primaryLayer (fun _ _ _ _ _ => At.Tries.throw rfl)
    (fun p hp => reads_primaryLayer hp) _ level h

/-- **An expression goes on with the run** and names only what it has read. -/
theorem reads_expression : ReadsExpr expression := reads_expressionOver reads_primary

theorem gives_arguments (level : Level) :
    Gives level arguments fun args more => Names (args.flatMap Expr.idents) more :=
  gives_argumentsOver reads_primary level

/-- Another role for the base identifier leaves all identifiers where they are. -/
theorem spans_setBaseRole (role : Role) (e : Expr) :
    (e.setBaseRole role).idents.map Ident.span = e.idents.map Ident.span := by
  fun_induction Expr.setBaseRole role e with
  | case2 name row col span => cases col <;> simp
  | _ => simp_all

/-- The base identifier of an expression is one of its identifiers. -/
theorem mem_idents_of_baseIdent? {e : Expr} {i : Ident} (hi : e.baseIdent? = some i) :
    i ∈ e.idents := by
  fun_induction Expr.baseIdent? e with
  | case2 name row col span => cases col <;> simp_all
  | _ => simp_all

/-- What can be assigned to names something. -/
theorem tries_target : h.Tries level target fun e more =>
    Names e.idents more ∧ e.idents ≠ [] := by
  refine At.Tries.look (current_eq s) ?_
  refine (reads_primary level h).bind fun e m1 u1 k1 he => ?_
  split
  · rename_i hmember
    refine At.Tries.pure ⟨by simpa using he, ?_⟩
    cases e <;> simp [Expr.isMember] at hmember <;> simp
  · split
    · rename_i hbase
      obtain ⟨i, hi⟩ := Option.isSome_iff_exists.mp hbase
      refine At.Tries.pure ⟨?_, fun hnil => ?_⟩
      · unfold Names
        rw [spans_setBaseRole, List.append_nil]
        exact he
      · have hspans := spans_setBaseRole .assignment e
        rw [hnil, List.map_nil] at hspans
        have hmem := List.mem_map_of_mem (f := Ident.span) (mem_idents_of_baseIdent? hi)
        rw [← hspans] at hmem
        exact List.not_mem_nil hmem
    · exact At.Tries.throw rfl

end BasicCheck.Parse
