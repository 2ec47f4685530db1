import BasicCheck.Proofs.Print.Glued

/-!
# Decisions on one line

A decision may stand on one line with both of its arms, `if c then A else B`, and an arm may be a further
decision of that kind (`Fork`). An arm behind `then` ends in front of an `else`; an arm behind `else`
only ends with its line. So a decision is read in front of a line end if no arm behind a `then` is a
decision (`Fork.Writes.reads`), and **in front of an `else` none is** (`Fork.Writes.loses_before_else`). A
line with such an arm is lost as a whole, with one error at the `else` that was not expected
(**`Procedure.ofTokens_fork`**).
-/

namespace BasicCheck

/-! ## 1. Decisions with both arms -/

/-- Decisions with both arms, nested to any depth, over assignments. -/
inductive Fork where
  | assign (name : String) (value : Expr) (hvalue : value.Printable)
  | branch (cond : Expr) (hcond : cond.Printable) (yes no : Fork)

namespace Fork

/-- The statement with blank spans. -/
def statement : Fork → Statement
  | assign name value _ =>
    .action (.assignment (.variable ⟨name, .assignment, .blank⟩) .assign value.eraseSpans) .blank
  | branch cond _ yes no =>
    .decision (.condition cond.eraseSpans) (some [yes.statement]) (some [no.statement]) .blank

/-- Tokens that write it on one line, `v = e` or `if c then A else B`. -/
inductive Writes : Fork → List Token → Prop where
  | assign {name equal : Token} {value : Expr} {hvalue : value.Printable} {ts : List Token}
      (hname : name.kind = .ident) (hequal : equal.kind = .equal) (hspells : Spells value.words ts) :
      Writes (.assign name.text value hvalue) (name :: equal :: ts)
  | branch {word thenWord elseWord : Token} {cond : Expr} {hcond : cond.Printable} {yes no : Fork}
      {cs ys ns : List Token} (hword : word.kind = .keyword .IF) (hspells : Spells cond.words cs)
      (hthen : thenWord.kind = .keyword .THEN) (hyes : Writes yes ys)
      (helse : elseWord.kind = .keyword .ELSE) (hno : Writes no ns) :
      Writes (.branch cond hcond yes no) (word :: (cs ++ thenWord :: (ys ++ elseWord :: ns)))

def IsBranch : Fork → Prop
  | assign _ _ _ => False
  | branch _ _ _ _ => True

/-- Decisions stand in arms behind `else` only. -/
def ElseNested : Fork → Prop
  | assign _ _ _ => True
  | branch _ _ yes no => ¬ yes.IsBranch ∧ no.ElseNested

/-- A statement starts with a name or with `if`. -/
theorem Writes.opens {fork : Fork} {tokens : List Token} (h : fork.Writes tokens) :
    ∃ t more, tokens = t :: more ∧ (t.kind = .ident ∨ t.kind = .keyword .IF) := by
  cases h with
  | assign hname _ _ => exact ⟨_, _, rfl, .inl hname⟩
  | branch hword _ _ _ _ _ => exact ⟨_, _, rfl, .inr hword⟩

end Fork

/-- A word of an expression ends neither a statement nor the text. -/
theorem Word.Spelled.goes_on {w : Word} {t : Token} (h : w.Spelled t) :
    t.kind.isSeparator = false ∧ t.kind ≠ .endOfFile := by
  cases w with
  | op o =>
    have hop : BinOp.ofKind? t.kind = some o := h
    refine ⟨?_, fun hk => by rw [hk] at hop; cases hop⟩
    generalize t.kind = kind at hop
    cases kind <;> first | rfl | cases hop
  | name _ => exact ⟨by rw [h.1]; rfl, by rw [h.1]; nofun⟩
  | number _ => rcases h.1 with hk | hk <;> exact ⟨by rw [hk]; rfl, by rw [hk]; nofun⟩
  | _ => exact ⟨by rw [show t.kind = _ from h]; rfl, by rw [show t.kind = _ from h]; nofun⟩

theorem Spells.goes_on {ws : List Word} {ts : List Token} (h : Spells ws ts) :
    ∀ t ∈ ts, t.kind.isSeparator = false ∧ t.kind ≠ .endOfFile := by
  induction h with
  | nil => nofun
  | cons hw _ ih => exact List.forall_mem_cons.mpr ⟨hw.goes_on, ih⟩
  | closeEqual hkind _ _ ih =>
    exact List.forall_mem_cons.mpr ⟨⟨by rw [hkind]; rfl, by rw [hkind]; nofun⟩, ih⟩

/-- All of it stands on one line. -/
theorem Fork.Writes.goes_on {fork : Fork} {tokens : List Token} (h : fork.Writes tokens) :
    ∀ t ∈ tokens, t.kind.isSeparator = false ∧ t.kind ≠ .endOfFile := by
  have hof {t : Token} {k : Kind} (hk : t.kind = k)
      (hgoes : k.isSeparator = false ∧ k ≠ .endOfFile) :
      t.kind.isSeparator = false ∧ t.kind ≠ .endOfFile := hk ▸ hgoes
  induction h with
  | assign hname hequal hspells =>
    exact List.forall_mem_cons.mpr ⟨hof hname (by decide),
      List.forall_mem_cons.mpr ⟨hof hequal (by decide), hspells.goes_on⟩⟩
  | branch hword hspells hthen _ helse _ ihYes ihNo =>
    simp only [List.forall_mem_cons, List.forall_mem_append]
    exact ⟨hof hword (by decide), hspells.goes_on, hof hthen (by decide), ihYes,
      hof helse (by decide), ihNo⟩

namespace Parse

variable {tail : List Token} {stop : Token} {more : List Token} {p : Parser Statement}
  {st : Statement} {f : Fault} {s u : State}

/-! ## 2. Expressions in front of a word -/

/-- Tokens that come next can be told by the words that they spell. -/
theorem Ahead.spelled {ws : List Word} {ts : List Token} (h : Ahead (ts ++ tail) [] s)
    (hspells : Spells ws ts) : Ahead tail ws s := by
  obtain ⟨⟨ts', hahead, hnil⟩, hdiagnostics, hplain, heof⟩ := h
  cases hnil
  exact ⟨⟨ts, hahead, hspells⟩, hdiagnostics, hplain, heof⟩

theorem Ahead.current_of_tail {t : Token} (h : Ahead (t :: more) [] s) :
    s.current = t := by
  obtain ⟨u, hcurrent, -, -⟩ := h.of_tail
  exact hcurrent

/-- Whatever can be written is read as an expression in front of what cannot go on with it. -/
theorem run_printable {e : Expr} (he : e.Printable) {ts : List Token} (hspells : Spells e.words ts)
    (hstop : Closes 1 stop.kind) (h : Ahead (ts ++ stop :: more) [] s) :
    ∃ e' u, expression s = (.ok e', u) ∧ e'.eraseSpans = e.eraseSpans ∧
      Ahead (stop :: more) [] u := by
  have hahead : Ahead (stop :: more) (e.words ++ []) s := by
    rw [List.append_nil]
    exact h.spelled hspells
  exact reads_printable hstop he [] s hahead nofun

/-! ## 3. Judgements -/

/-- Ahead of some tokens, a parser gives the statement up to spans and stops behind them. -/
def ReadsFork (tail : List Token) (p : Parser Statement) (fork : Fork) (tokens : List Token) : Prop :=
  ∀ s, Ahead (tokens ++ tail) [] s →
    ∃ st u, p s = (.ok st, u) ∧ st.eraseSpans = fork.statement ∧ Ahead tail [] u

/-- Reading has failed at an `else` where a separator was expected. -/
def LostAt {α : Type} (tokens : List Token) (r : Except Fault α × State) : Prop :=
  ∃ t more u, r = (.error ⟨.expectedSeparator t.describe, t.span⟩, u) ∧ t.kind = .keyword .ELSE ∧
    t :: more <:+ tokens ∧ Ahead (t :: more) [] u

/-- Ahead of some tokens, a parser fails at an `else`. -/
def LosesFork (tail : List Token) (p : Parser Statement) (tokens : List Token) : Prop :=
  ∀ s, Ahead (tokens ++ tail) [] s → LostAt (tokens ++ tail) (p s)

theorem LostAt.of_suffix {α β : Type} {ts ts' : List Token} {r : Except Fault α × State}
    {r' : Except Fault β × State} (h : LostAt ts r) (hsuffix : ts <:+ ts')
    (hr : ∀ {f : Fault} {u : State}, r = (.error f, u) → r' = (.error f, u)) : LostAt ts' r' := by
  obtain ⟨t, more, u, hfails, hkind, hmore, hu⟩ := h
  exact ⟨t, more, u, hr hfails, hkind, hmore.trans hsuffix, hu⟩

/-- Every arm is a statement. -/
theorem exempt_of_fork {fork : Fork} (h : st.eraseSpans = fork.statement) :
    st.isEmpty = false ∧ st.isSeparatorExempt = false := by
  rw [← Statement.isEmpty_eraseSpans, ← Statement.isSeparatorExempt_eraseSpans, h]
  cases fork <;> exact ⟨rfl, rfl⟩

/-! ## 4. Arms on one line -/

/-- The kinds in front of which an arm on one line ends. -/
def endsLine (stopsAtElse : Bool) (kind : Kind) : Bool :=
  kind == .newline || kind == .endOfFile || (stopsAtElse && kind == .keyword .ELSE)

section Line

variable {stopsAtElse : Bool} (hgoes : endsLine stopsAtElse s.current.kind = false)

include hgoes

/-- One statement up to where its line ends. -/
theorem run_lineBlock_done (hrun : p s = (.ok st, u)) (hsemicolon : u.current.kind ≠ .semicolon)
    (hends : endsLine stopsAtElse u.current.kind = true) :
    lineBlock p stopsAtElse s = (.ok [st], u) := by
  have hconsume : consume .semicolon u = (false, u) := consume_of_ne hsemicolon
  unfold lineBlock
  rw [tryLoop_eq]
  refine turns_done ?_
  unfold lineTurn
  dsimp only
  rw [run_after (currentKind_eq s), if_neg (by rw [← endsLine, hgoes]; decide), run_bind hrun,
    run_after hconsume, if_neg Bool.false_ne_true, run_after (currentKind_eq u)]
  exact congrFun (if_pos hends) u

/-- Where the line goes on behind a statement, a separator is missing. -/
theorem run_lineBlock_separator (hrun : p s = (.ok st, u)) (hexempt : st.isSeparatorExempt = false)
    (hsemicolon : u.current.kind ≠ .semicolon)
    (hends : endsLine stopsAtElse u.current.kind = false) :
    lineBlock p stopsAtElse s =
      (.error ⟨.expectedSeparator u.current.describe, u.current.span⟩, u) := by
  have hconsume : consume .semicolon u = (false, u) := consume_of_ne hsemicolon
  unfold lineBlock
  rw [tryLoop_eq]
  refine turns_error ?_
  unfold lineTurn
  dsimp only
  rw [run_after (currentKind_eq s), if_neg (by rw [← endsLine, hgoes]; decide), run_bind hrun,
    run_after hconsume, if_neg Bool.false_ne_true, run_after (currentKind_eq u),
    if_neg (by rw [← endsLine, hends]; decide), hexempt, if_neg Bool.false_ne_true]
  rfl

theorem run_lineBlock_error (hrun : p s = (.error f, u)) :
    lineBlock p stopsAtElse s = (.error f, u) := by
  unfold lineBlock
  rw [tryLoop_eq]
  refine turns_error ?_
  unfold lineTurn
  dsimp only
  rw [run_after (currentKind_eq s), if_neg (by rw [← endsLine, hgoes]; decide)]
  exact run_bind_error hrun

end Line

section Arm

variable {fork : Fork} {tokens : List Token} {word : Keyword} (kind : RegionKind) {t : Token}
  (hwrites : fork.Writes tokens) (ht : t.kind = .keyword word)
  (h : Ahead (t :: (tokens ++ tail)) [] s)

include hwrites ht h

/-- An arm on the line of its word is read up to where the line ends. -/
theorem exists_run_armAfter? : ∃ m, Ahead (tokens ++ tail) [] m ∧
    endsLine (kind == .thenArm) m.current.kind = false ∧
    armAfter? p word kind s = (some <$> lineBlock p (kind == .thenArm) : Parser (Option Block)) m := by
  obtain ⟨m, hcurrent, hadvance, hm⟩ := h.of_tail
  obtain ⟨first, others, rfl, hfirst⟩ := hwrites.opens
  have hcurrent' : m.current = first := hm.current_of_tail
  have hkinds : m.current.kind = .ident ∨ m.current.kind = .keyword .IF := hcurrent' ▸ hfirst
  have hline : atLineEnd { m with begun := m.begun + 1 } = (false, { m with begun := m.begun + 1 }) := by
    unfold atLineEnd
    rw [step_bind (currentKind_eq _)]
    have hkinds : State.current { m with begun := m.begun + 1 } = m.current := rfl
    rw [hkinds]
    rcases ‹_ ∨ _› with hk | hk <;> rw [hk] <;> rfl
  have harm : arm p kind t.span m = lineBlock p (kind == .thenArm) { m with begun := m.begun + 1 } := by
    unfold arm
    rw [run_after (show begin m = ((), { m with begun := m.begun + 1 }) from rfl), run_after hline,
      if_neg Bool.false_ne_true]
  refine ⟨{ m with begun := m.begun + 1 }, ⟨hm.tokens, hm.diagnostics, hm.plain, hm.eof⟩, ?_, ?_⟩
  · show endsLine _ m.current.kind = false
    rcases hkinds with hk | hk <;> rw [hk] <;> cases kind <;> rfl
  · unfold armAfter?
    rw [run_after (sees_eq s (.keyword word)), hcurrent, ht, beq_self_eq_true, if_pos rfl,
      run_after (p := advance) hadvance, bind_pure_comp]
    cases hrun : lineBlock p (kind == .thenArm) { m with begun := m.begun + 1 } with
    | mk r u =>
      cases r with
      | error f => rw [run_map_error (harm.trans hrun), run_map_error hrun]
      | ok block => rw [run_map (harm.trans hrun), run_map hrun]

omit h in
/-- It is a statement if the line ends behind the statement. -/
theorem run_armAfter?_line (hreads : ReadsFork (stop :: more) p fork tokens)
    (hsemicolon : stop.kind ≠ .semicolon) (hends : endsLine (kind == .thenArm) stop.kind = true)
    (h : Ahead (t :: (tokens ++ stop :: more)) [] s) :
    ∃ st u, armAfter? p word kind s = (.ok (some [st]), u) ∧ st.eraseSpans = fork.statement ∧
      Ahead (stop :: more) [] u := by
  obtain ⟨m, hm, hgoes, harm⟩ := exists_run_armAfter? (p := p) kind hwrites ht h
  obtain ⟨st, u, hrun, hsame, hu⟩ := hreads m hm
  rw [← hu.current_of_tail] at hsemicolon hends
  exact ⟨st, u, harm.trans (run_map (run_lineBlock_done hgoes hrun hsemicolon hends)), hsame, hu⟩

omit h in
/-- It is lost if an `else` comes there that does not end it. -/
theorem lostAt_armAfter?_else (hreads : ReadsFork (stop :: more) p fork tokens)
    (hstop : stop.kind = .keyword .ELSE) (hkind : kind ≠ .thenArm)
    (h : Ahead (t :: (tokens ++ stop :: more)) [] s) :
    LostAt (stop :: more) (armAfter? p word kind s) := by
  obtain ⟨m, hm, hgoes, harm⟩ := exists_run_armAfter? (p := p) kind hwrites ht h
  obtain ⟨st, u, hrun, hsame, hu⟩ := hreads m hm
  have hcurrent := hu.current_of_tail
  have hends : endsLine (kind == .thenArm) u.current.kind = false := by
    rw [hcurrent, hstop, beq_eq_false_iff_ne.mpr hkind]
    rfl
  have hsemicolon : u.current.kind ≠ .semicolon := by
    rw [hcurrent, hstop]
    nofun
  have hline := run_lineBlock_separator hgoes hrun (exempt_of_fork hsame).2 hsemicolon hends
  rw [hcurrent] at hline
  exact ⟨stop, more, u, harm.trans (run_map_error hline), hstop, List.suffix_rfl, hu⟩

/-- It is lost if its statement is. -/
theorem lostAt_armAfter? (hloses : LosesFork tail p tokens) :
    LostAt (tokens ++ tail) (armAfter? p word kind s) := by
  obtain ⟨m, hm, hgoes, harm⟩ := exists_run_armAfter? (p := p) kind hwrites ht h
  exact (hloses m hm).of_suffix List.suffix_rfl fun hfails =>
    harm.trans (run_map_error (run_lineBlock_error hgoes hfails))

end Arm

/-! ## 5. Decisions on one line -/

/-- The assignment of an expression is read in front of what cannot go on with it. -/
theorem readsFork_assign {fork : Fork} {tokens : List Token} (hwrites : fork.Writes tokens)
    (hassign : ¬ fork.IsBranch) (hstop : Closes 1 stop.kind) :
    ReadsFork (stop :: more) (statementLayer p) fork tokens := by
  intro s h
  cases hwrites with
  | branch => exact absurd trivial hassign
  | @assign name equal value hvalue ts hname hequal hspells =>
    have hfacing : Facing (ts ++ stop :: more) s.loopDepth [.name name.text, .equal] s :=
      Ahead.facing (show Ahead ([name, equal] ++ _) [] s from h)
        (.cons ⟨hname, rfl⟩ (.cons hequal .nil))
    obtain ⟨nameSpan, value', span, u, hrun, hsame, hu⟩ := run_assignment (p := p)
      (fun w hw => run_printable hvalue hspells hstop (hw.ahead .nil)) hfacing
    refine ⟨_, u, hrun, ?_, hu⟩
    simp only [Statement.eraseSpans, Action.eraseSpans, Expr.eraseSpans, hsame, Fork.statement]

/-- Behind the condition the arms of a decision tell what becomes of it. -/
theorem exists_run_decision {word thenWord : Token} {cond : Expr} {cs : List Token}
    (hcond : cond.Printable) (hword : word.kind = .keyword .IF) (hspells : Spells cond.words cs)
    (hthen : thenWord.kind = .keyword .THEN) (h : Ahead (word :: (cs ++ thenWord :: more)) [] s) :
    ∃ cond' m, cond'.eraseSpans = cond.eraseSpans ∧ Ahead (thenWord :: more) [] m ∧
      (∀ {found u}, arms p false m = (.ok found, u) → ∃ span,
        statementLayer p s = (.ok (.decision (.condition cond') found.1 found.2 span), u)) ∧
      ∀ {f u}, arms p false m = (.error f, u) → statementLayer p s = (.error f, u) := by
  obtain ⟨v, hcurrent, hadvance, hv⟩ := h.of_tail
  have hkind : s.current.kind = .keyword .IF := hcurrent ▸ hword
  obtain ⟨cond', m, hrun, hsame, hm⟩ :=
    run_printable hcond hspells (hthen ▸ closes_keyword .THEN rfl) hv
  have htest : (Decision.condition <$> expression : Parser Decision) v =
      (.ok (.condition cond'), m) := run_map hrun
  refine ⟨cond', m, hsame, hm, fun {found u} harms =>
    ⟨s.current.span.join u.previous.span, ?_⟩, fun {f u} harms => ?_⟩
  · have hdecision : decision p (Decision.condition <$> expression) v =
        (.ok (.decision (.condition cond') found.1 found.2), u) := by
      unfold decision
      rw [run_bind htest]
      exact (run_bind harms).trans rfl
    exact statementLayer_key .IF rfl (fun _ => rfl) hkind hadvance hdecision
  · have hdecision : decision p (Decision.condition <$> expression) v = (.error f, u) := by
      unfold decision
      rw [run_bind htest]
      exact run_bind_error harms
    exact statementLayer_key_error .IF rfl (fun _ => rfl) hkind hadvance hdecision

section Branch

variable {word thenWord elseWord : Token} {cond : Expr} (hcond : cond.Printable) {yes no : Fork}
  {cs ys ns : List Token} (hword : word.kind = .keyword .IF) (hspells : Spells cond.words cs)
  (hthen : thenWord.kind = .keyword .THEN) (hyes : yes.Writes ys)
  (helse : elseWord.kind = .keyword .ELSE) (hno : no.Writes ns)

include hcond hword hspells hthen hyes helse

omit helse in
/-- A decision is lost if its first arm is. -/
theorem losesFork_branch_then (hloses : LosesFork (elseWord :: (ns ++ tail)) p ys) :
    LosesFork tail (statementLayer p) (word :: (cs ++ thenWord :: (ys ++ elseWord :: ns))) := by
  intro s h
  simp only [List.cons_append, List.append_assoc] at h ⊢
  obtain ⟨cond', m, -, hm, -, hfails⟩ := exists_run_decision (p := p) hcond hword hspells hthen h
  have hsuffix : ys ++ elseWord :: (ns ++ tail) <:+
      word :: (cs ++ thenWord :: (ys ++ elseWord :: (ns ++ tail))) :=
    ((List.suffix_cons thenWord _).trans (List.suffix_append cs _)).trans (List.suffix_cons word _)
  refine (lostAt_armAfter? .thenArm hyes hthen hm hloses).of_suffix hsuffix fun hlost => ?_
  refine hfails ?_
  unfold arms
  rw [run_after (current_eq m)]
  exact run_bind_error hlost

/-- If its first arm is read, the second one tells what becomes of it. -/
theorem exists_run_branch (hreads : ReadsFork (elseWord :: (ns ++ tail)) p yes ys)
    (h : Ahead (word :: (cs ++ thenWord :: (ys ++ elseWord :: ns)) ++ tail) [] s) :
    ∃ cond' st m, cond'.eraseSpans = cond.eraseSpans ∧ st.eraseSpans = yes.statement ∧
      Ahead (elseWord :: (ns ++ tail)) [] m ∧
      (∀ {found u}, armAfter? p .ELSE .elseArm m = (.ok found, u) → ∃ span,
        statementLayer p s = (.ok (.decision (.condition cond') (some [st]) found span), u)) ∧
      ∀ {f u}, armAfter? p .ELSE .elseArm m = (.error f, u) → statementLayer p s = (.error f, u) := by
  simp only [List.cons_append, List.append_assoc] at h
  obtain ⟨cond', v, hsame, hv, hdone, hfails⟩ := exists_run_decision (p := p) hcond hword hspells hthen h
  have helseNe : elseWord.kind ≠ .semicolon := by
    rw [helse]
    nofun
  obtain ⟨st, m, harm, hsameArm, hm⟩ := run_armAfter?_line .thenArm hyes hthen hreads
    helseNe (by rw [helse]; rfl) hv
  refine ⟨cond', st, m, hsame, hsameArm, hm, fun {found u} helseArm => ?_,
    fun {f u} helseArm => hfails ?_⟩
  · have hholds : holdsStatement (some [st]) = true := by
      simp [holdsStatement, (exempt_of_fork hsameArm).1]
    have harms : arms p false v = (.ok (some [st], found), u) := by
      unfold arms
      rw [run_after (current_eq v), run_bind harm, run_bind helseArm, hholds]
      rfl
    exact hdone harms
  · unfold arms
    rw [run_after (current_eq v), run_bind harm]
    exact run_bind_error helseArm

include hno

/-- In front of a line end a decision is read if its arms are. -/
theorem readsFork_branch (hstop : stop.kind = .newline)
    (hreads : ReadsFork (elseWord :: (ns ++ stop :: more)) p yes ys)
    (hreads' : ReadsFork (stop :: more) p no ns) :
    ReadsFork (stop :: more) (statementLayer p) (.branch cond hcond yes no)
      (word :: (cs ++ thenWord :: (ys ++ elseWord :: ns))) := by
  intro s h
  obtain ⟨cond', st, m, hsame, hsameYes, hm, hdone, -⟩ :=
    exists_run_branch hcond hword hspells hthen hyes helse hreads h
  obtain ⟨st', u, harm, hsameNo, hu⟩ := run_armAfter?_line .elseArm hno helse hreads'
    (by rw [hstop]; nofun) (by rw [hstop]; rfl) hm
  obtain ⟨span, hrun⟩ := hdone harm
  refine ⟨_, u, hrun, ?_, hu⟩
  simp only [Statement.eraseSpans, Decision.eraseSpans, eraseArmSpans, Block.eraseSpans, hsame,
    hsameYes, hsameNo, Fork.statement]

/-- In front of an `else` a decision is lost if its arms are read: the second one does not end there. -/
theorem losesFork_branch_before_else (hstop : stop.kind = .keyword .ELSE)
    (hreads : ReadsFork (elseWord :: (ns ++ stop :: more)) p yes ys)
    (hreads' : ReadsFork (stop :: more) p no ns) :
    LosesFork (stop :: more) (statementLayer p)
      (word :: (cs ++ thenWord :: (ys ++ elseWord :: ns))) := by
  intro s h
  obtain ⟨cond', st, m, -, -, hm, -, hfails⟩ :=
    exists_run_branch hcond hword hspells hthen hyes helse hreads h
  exact (lostAt_armAfter?_else .elseArm hno helse hreads' hstop nofun hm).of_suffix
    (List.suffix_append _ _) hfails

/-- A decision is lost if its second arm is. -/
theorem losesFork_branch_else (hreads : ReadsFork (elseWord :: (ns ++ tail)) p yes ys)
    (hloses : LosesFork tail p ns) :
    LosesFork tail (statementLayer p) (word :: (cs ++ thenWord :: (ys ++ elseWord :: ns))) := by
  intro s h
  obtain ⟨cond', st, m, -, -, hm, -, hfails⟩ :=
    exists_run_branch hcond hword hspells hthen hyes helse hreads h
  have hsuffix : ns ++ tail <:+ word :: (cs ++ thenWord :: (ys ++ elseWord :: ns)) ++ tail := by
    simp only [List.cons_append, List.append_assoc]
    exact ((((List.suffix_cons elseWord _).trans (List.suffix_append ys _)).trans
      (List.suffix_cons thenWord _)).trans (List.suffix_append cs _)).trans (List.suffix_cons word _)
  exact (lostAt_armAfter? .elseArm hno helse hm hloses).of_suffix hsuffix hfails

end Branch

/-! ## 6. Nesting -/

/-- What every layer reads that is deep enough is read by layers enough. -/
theorem ReadsFork.of_layers {fork : Fork} {tokens : List Token} {n : Nat} (hwrites : fork.Writes tokens)
    (hn : tokens.length ≤ n) (h : ∀ m, tokens.length ≤ m + 1 →
      ReadsFork tail (statementLayer (nestUpTo statementLayer m)) fork tokens) :
    ReadsFork tail (nestUpTo statementLayer n) fork tokens := by
  obtain ⟨t, rest, rfl, -⟩ := hwrites.opens
  cases n with
  | zero => cases hn
  | succ n => exact h n hn

theorem LosesFork.of_layers {fork : Fork} {tokens : List Token} {n : Nat} (hwrites : fork.Writes tokens)
    (hn : tokens.length ≤ n) (h : ∀ m, tokens.length ≤ m + 1 →
      LosesFork tail (statementLayer (nestUpTo statementLayer m)) tokens) :
    LosesFork tail (nestUpTo statementLayer n) tokens := by
  obtain ⟨t, rest, rfl, -⟩ := hwrites.opens
  cases n with
  | zero => cases hn
  | succ n => exact h n hn

end Parse

namespace Fork

open Parse

variable {fork : Fork} {tokens : List Token} {stop : Token} {more : List Token} {n : Nat}

/-- **In front of an `else` no decision is read.** -/
theorem Writes.loses_before_else (h : fork.Writes tokens) (hbranch : fork.IsBranch)
    (hstop : stop.kind = .keyword .ELSE) (hn : tokens.length ≤ n + 1) :
    LosesFork (stop :: more) (statementLayer (nestUpTo statementLayer n)) tokens := by
  induction h generalizing stop more n with
  | assign => exact hbranch.elim
  | @branch word thenWord elseWord cond hcond yes no cs ys ns hword hspells hthen hyes helse hno ihYes
      ihNo =>
    simp only [List.length_cons, List.length_append] at hn
    by_cases hdeep : yes.IsBranch
    · exact losesFork_branch_then hcond hword hspells hthen hyes
        (.of_layers hyes (by omega) fun m hm => ihYes hdeep helse hm)
    have hreads : ReadsFork (elseWord :: (ns ++ stop :: more)) (nestUpTo statementLayer n) yes ys :=
      .of_layers hyes (by omega) fun m hm =>
        readsFork_assign hyes hdeep (helse ▸ closes_keyword .ELSE rfl)
    by_cases hlast : no.IsBranch
    · exact losesFork_branch_else hcond hword hspells hthen hyes helse hno hreads
        (.of_layers hno (by omega) fun m hm => ihNo hlast hstop hm)
    · exact losesFork_branch_before_else hcond hword hspells hthen hyes helse hno hstop hreads
        (.of_layers hno (by omega) fun m hm =>
          readsFork_assign hno hlast (hstop ▸ closes_keyword .ELSE rfl))

/-- In front of a line end decisions are read that stand behind `else` only. -/
theorem Writes.reads (h : fork.Writes tokens) (hnested : fork.ElseNested)
    (hstop : stop.kind = .newline) (hn : tokens.length ≤ n + 1) :
    ReadsFork (stop :: more) (statementLayer (nestUpTo statementLayer n)) fork tokens := by
  induction h generalizing n with
  | assign hname hequal hspells =>
    exact readsFork_assign (.assign hname hequal hspells) id
      (hstop ▸ closes_newline (Nat.le_refl 1))
  | @branch word thenWord elseWord cond hcond yes no cs ys ns hword hspells hthen hyes helse hno ihYes
      ihNo =>
    simp only [List.length_cons, List.length_append] at hn
    exact readsFork_branch hcond hword hspells hthen hyes helse hno hstop
      (.of_layers hyes (by omega) fun m hm =>
        readsFork_assign hyes hnested.1 (helse ▸ closes_keyword .ELSE rfl))
      (.of_layers hno (by omega) fun m hm => ihNo hnested.2 hm)

/-- All others are lost. -/
theorem Writes.loses (h : fork.Writes tokens) (hnested : ¬ fork.ElseNested)
    (hn : tokens.length ≤ n + 1) :
    LosesFork (stop :: more) (statementLayer (nestUpTo statementLayer n)) tokens := by
  induction h generalizing n with
  | assign => exact absurd trivial hnested
  | @branch word thenWord elseWord cond hcond yes no cs ys ns hword hspells hthen hyes helse hno ihYes
      ihNo =>
    simp only [List.length_cons, List.length_append] at hn
    by_cases hdeep : yes.IsBranch
    · exact losesFork_branch_then hcond hword hspells hthen hyes
        (.of_layers hyes (by omega) fun m hm => hyes.loses_before_else hdeep helse hm)
    · have hlast : ¬ no.ElseNested := fun hlast => hnested ⟨hdeep, hlast⟩
      exact losesFork_branch_else hcond hword hspells hthen hyes helse hno
        (.of_layers hyes (by omega) fun m hm =>
          readsFork_assign hyes hdeep (helse ▸ closes_keyword .ELSE rfl))
        (.of_layers hno (by omega) fun m hm => ihNo hlast hm)

end Fork

namespace Parse

variable {tail : List Token} {s u : State}

/-! ## 7. Lines that are lost -/

section Skipping

variable {skipped : Kind → Bool} {ts : List Token} {t : Token} {more : List Token}

theorem turns_skipTurn (hts : ∀ x ∈ ts, skipped x.kind = true) (ht : skipped t.kind = false)
    (h : s.ahead = ts ++ t :: more) (n : Nat) (hn : ts.length < n) :
    ∃ u, loopUpTo (Grammar.skipTurn skipped) id n () s = ((), u) ∧ u.ahead = t :: more ∧
      u.diagnostics = s.diagnostics ∧ u.symbols = s.symbols := by
  induction ts generalizing n s with
  | nil =>
    obtain ⟨n, rfl⟩ := Nat.exists_eq_succ_of_ne_zero (Nat.ne_zero_of_lt hn)
    refine ⟨s, loopUpTo_done ?_, h, rfl, rfl⟩
    unfold Grammar.skipTurn
    rw [step_bind (currentKind_eq s), State.current_eq_headD, h, List.nil_append, List.headD_cons, ht]
    rfl
  | cons x ts ih =>
    obtain ⟨n, rfl⟩ := Nat.exists_eq_succ_of_ne_zero (Nat.ne_zero_of_lt hn)
    obtain ⟨m, hadvance, hmore, hdiagnostics, hsymbols, -⟩ := State.advance_of_ahead h
    obtain ⟨u, hrun, hu, hdiagnosticsU, hsymbolsU⟩ := ih
      (fun x hx => hts x (List.mem_cons_of_mem _ hx)) hmore n (Nat.lt_of_succ_lt_succ hn)
    refine ⟨u, (loopUpTo_again (u := m) ?_).trans hrun, hu, hdiagnosticsU.trans hdiagnostics,
      hsymbolsU.trans hsymbols⟩
    unfold Grammar.skipTurn
    rw [step_bind (currentKind_eq s), State.current_eq_headD, h, List.cons_append, List.headD_cons,
      hts x List.mem_cons_self, if_pos rfl]
    exact step_bind (step_discard (p := advance) hadvance)

/-- Tokens of certain kinds are passed over up to one of another kind. -/
theorem run_skipWhile (hts : ∀ x ∈ ts, skipped x.kind = true) (ht : skipped t.kind = false)
    (h : s.ahead = ts ++ t :: more) :
    ∃ u, skipWhile skipped s = ((), u) ∧ u.ahead = t :: more ∧ u.diagnostics = s.diagnostics ∧
      u.symbols = s.symbols := by
  have hle := s.length_ahead_le_size
  rw [h, List.length_append] at hle
  exact turns_skipTurn hts ht h (s.size + 1) (by omega)

end Skipping

/-- Reading goes on behind the end of the line. -/
theorem run_synchronize {ts : List Token} {newline : Token} {more : List Token}
    (hts : ∀ x ∈ ts, x.kind.isSeparator = false ∧ x.kind ≠ .endOfFile)
    (hnewline : newline.kind = .newline) (h : s.ahead = ts ++ newline :: more) :
    ∃ u, synchronize s = ((), u) ∧ u.ahead = more ∧ u.diagnostics = s.diagnostics ∧
      u.symbols = s.symbols := by
  obtain ⟨m, hskip, hm, hdiagnostics, hsymbols⟩ :
      ∃ m, skipWhile (fun kind => !kind.isSeparator && kind != .endOfFile) s = ((), m) ∧
        m.ahead = newline :: more ∧ m.diagnostics = s.diagnostics ∧ m.symbols = s.symbols :=
    run_skipWhile (fun x hx => by
      rw [(hts x hx).1, Bool.not_false, Bool.true_and, bne_iff_ne]
      exact (hts x hx).2) (by rw [hnewline]; rfl) h
  obtain ⟨u, hadvance, hu, hdiagnosticsU, hsymbolsU, -⟩ := State.advance_of_ahead hm
  have hfile : (m.current.kind == .endOfFile) = false := by
    rw [State.current_eq_headD, hm, List.headD_cons, hnewline]
    rfl
  refine ⟨u, ?_, hu, hdiagnosticsU.trans hdiagnostics, hsymbolsU.trans hsymbols⟩
  unfold synchronize
  rw [step_bind hskip, step_bind (sees_eq m .endOfFile), hfile]
  exact step_discard (p := advance) hadvance

variable {p : Parser Statement} {f : Fault} {newline eof : Token} {ts : List Token}
  (found : Array Statement) {stop : BlockEnd}

/-- What a block reads next where it does not end. -/
theorem blockTurn_eq (hnewline : s.current.kind ≠ .newline) (hfile : s.current.kind ≠ .endOfFile)
    (hend : atBlockEnd stop s = (false, s)) : blockTurn p stop found s = (do
      let more ← recover none do
        let st ← p
        unless st.isSeparatorExempt do expectSeparator
        return some st
      return .again (found ++ more.toArray) : Step (Turn (Array Statement) Block)) s := by
  unfold blockTurn
  rw [step_bind (skipNewlines_eq_self hnewline), step_bind (sees_eq s .endOfFile), step_bind hend,
    beq_eq_false_iff_ne.mpr hfile]
  rfl

/-- A statement is read together with the line end behind it. -/
theorem run_blockTurn_ok {st : Statement} (hnewline : s.current.kind ≠ .newline)
    (hfile : s.current.kind ≠ .endOfFile) (hend : atBlockEnd stop s = (false, s))
    (hrun : p s = (.ok st, u)) (hexempt : st.isSeparatorExempt = false)
    (hline : newline.kind = .newline) (hu : u.ahead = newline :: tail) :
    ∃ v, blockTurn p stop found s = (.again (found ++ #[st]), v) ∧ v.ahead = tail ∧
      v.diagnostics = u.diagnostics ∧ v.symbols = u.symbols := by
  obtain ⟨v, hadvance, hv, hdiagnostics, hsymbols, -⟩ := State.advance_of_ahead hu
  have hseparator : expectSeparator u = (.ok (), v) := by
    unfold expectSeparator
    rw [run_after (currentKind_eq u), State.current_eq_headD, hu, List.headD_cons, hline]
    exact run_discard (run_lift (p := advance) hadvance)
  have hone : (do
      let st ← p
      unless st.isSeparatorExempt do expectSeparator
      return some st : Parser (Option Statement)) s = (.ok (some st), v) := by
    rw [run_bind hrun, hexempt]
    exact run_bind hseparator
  refine ⟨v, ?_, hv, hdiagnostics, hsymbols⟩
  rw [blockTurn_eq found hnewline hfile hend]
  exact (step_bind (recover_of_ok hone)).trans rfl

/-- A fault that is caught is reported before reading goes on. -/
theorem recover_of_error {α : Type} {standIn : α} {q : Parser α} {v : State} (hq : q s = (.error f, u))
    (hsync : synchronize { u with diagnostics := u.diagnostics.push (.ofFault f) } = ((), v)) :
    recover standIn q s =
      (standIn, { v with recoveries := v.recoveries.push (v.recovery ⟨s.rest.tokens, s.begun⟩ f) }) := by
  have hreport : reportFault f u =
      ((), { u with diagnostics := u.diagnostics.push (.ofFault f) }) := rfl
  unfold recover
  rw [step_bind (outset_eq s)]
  refine (step_bind hq).trans ?_
  exact (step_bind hreport).trans ((step_bind hsync).trans rfl)

/-- Where a statement fails, its line is lost, and the fault is reported. -/
theorem run_blockTurn_error (hnewline : s.current.kind ≠ .newline)
    (hfile : s.current.kind ≠ .endOfFile) (hend : atBlockEnd stop s = (false, s))
    (hfails : p s = (.error f, u)) (hts : ∀ x ∈ ts, x.kind.isSeparator = false ∧ x.kind ≠ .endOfFile)
    (hline : newline.kind = .newline) (hu : u.ahead = ts ++ newline :: tail) :
    ∃ v, blockTurn p stop found s = (.again found, v) ∧ v.ahead = tail ∧
      v.diagnostics = u.diagnostics.push (.ofFault f) ∧ v.symbols = u.symbols := by
  obtain ⟨v, hsync, hv, hdiagnostics, hsymbols⟩ :=
    run_synchronize (s := { u with diagnostics := u.diagnostics.push (.ofFault f) }) hts hline hu
  have hone : (do
      let st ← p
      unless st.isSeparatorExempt do expectSeparator
      return some st : Parser (Option Statement)) s = (.error f, u) := run_bind_error hfails
  refine ⟨{ v with recoveries := v.recoveries.push (v.recovery ⟨s.rest.tokens, s.begun⟩ f) }, ?_, hv,
    hdiagnostics, hsymbols⟩
  rw [blockTurn_eq found hnewline hfile hend]
  refine (step_bind (recover_of_error hone hsync)).trans ?_
  exact congrArg (fun found => (Turn.again found, _)) Array.append_empty

/-- A block of the text that has one turn. -/
theorem run_block_turn {found : Array Statement} (hturn : blockTurn p .file #[] s = (.again found, u)) (hu : u.ahead = [eof])
    (heof : eof.kind = .endOfFile) (hsize : 0 < s.size) :
    block p .file s = (found.toList, u) := by
  have hkind : u.current.kind = .endOfFile := by
    rw [State.current_eq_headD, hu]
    exact heof
  have hdone : blockTurn p .file found u = (.done found.toList, u) := by
    unfold blockTurn
    rw [step_bind (skipNewlines_eq_self (by rw [hkind]; nofun)), step_bind (sees_eq u .endOfFile), hkind]
    rfl
  obtain ⟨n, hn⟩ := Nat.exists_eq_succ_of_ne_zero (Nat.ne_of_gt hsize)
  unfold block
  rw [loop_eq, hn, loopUpTo_again hturn, loopUpTo_done hdone]

section Line

variable {fork : Fork} {tokens : List Token} (hwrites : fork.Writes tokens)
  (hline : newline.kind = .newline) (heof : eof.kind = .endOfFile)
  (hs : Ahead (tokens ++ [newline, eof]) [] s)

include hwrites hs

/-- Such a line opens neither with a header nor with the end of a block, and there are layers enough for
    its statement. -/
theorem header_of_writes : header s = (.anonymous, s) ∧ s.current.kind ≠ .newline ∧
    s.current.kind ≠ .endOfFile ∧ tokens.length ≤ s.size := by
  obtain ⟨first, others, hfirst, hopens⟩ := hwrites.opens
  have hcurrent : s.current = first := by
    rw [hfirst] at hs
    exact hs.current_of_tail
  have hkind : s.current.kind = .ident ∨ s.current.kind = .keyword .IF := hcurrent ▸ hopens
  have hne {k : Kind} (hident : Kind.ident ≠ k) (hif : Kind.keyword .IF ≠ k) : s.current.kind ≠ k := by
    rcases hkind with hk | hk <;> rw [hk] <;> assumption
  refine ⟨header_of_opens (hne nofun nofun) (hne nofun nofun) ?_, hne nofun nofun, hne nofun nofun, ?_⟩
  · rcases hkind with hk | hk <;> rw [hk] <;> rfl
  · obtain ⟨ts, hahead, hnil⟩ := hs.tokens
    cases hnil
    have hle := s.length_ahead_le_size
    rw [hahead, List.nil_append, List.length_append] at hle
    omega

include hline heof

/-- A line that is read is the whole block. -/
theorem run_procedure_fork (hnested : fork.ElseNested) :
    ∃ st u, procedure s = ((.anonymous, [st]), u) ∧ st.eraseSpans = fork.statement ∧
      u.diagnostics = #[] := by
  obtain ⟨hheader, hnewline, hfile, hsize⟩ := header_of_writes hwrites hs
  obtain ⟨st, u, hrun, hsame, hu⟩ := hwrites.reads (n := s.size) hnested hline (by omega) s hs
  obtain ⟨⟨ts, hahead, hnil⟩, hdiagnostics, hplain, -⟩ := hu
  cases hnil
  have hstatement : statement s = (.ok st, u) := (nest_eq statementLayer).trans hrun
  obtain ⟨v, hturn, hv, hdiagnosticsV, hsymbolsV⟩ := run_blockTurn_ok #[] hnewline hfile
    (show atBlockEnd .file s = (false, s) from rfl) hstatement (exempt_of_fork hsame).2 hline hahead
  have hblock := run_block_turn hturn hv heof (by
    obtain ⟨first, others, rfl, -⟩ := hwrites.opens
    exact Nat.lt_of_lt_of_le (Nat.succ_pos _) hsize)
  exact ⟨st, v, procedure_of_block hheader hblock (hsymbolsV ▸ hplain), hsame,
    hdiagnosticsV.trans hdiagnostics⟩

/-- A line that is lost leaves nothing but the error at its `else`. -/
theorem run_procedure_fork_lost (hnested : ¬ fork.ElseNested) :
    ∃ t u, procedure s = ((.anonymous, []), u) ∧ t ∈ tokens ∧ t.kind = .keyword .ELSE ∧
      u.diagnostics = #[.ofFault ⟨.expectedSeparator t.describe, t.span⟩] := by
  obtain ⟨hheader, hnewline, hfile, hsize⟩ := header_of_writes hwrites hs
  obtain ⟨t, more, u, hfails, hkind, hsuffix, hu⟩ :=
    hwrites.loses (n := s.size) hnested (by omega) s hs
  obtain ⟨⟨ts, hahead, hnil⟩, hdiagnostics, hplain, -⟩ := hu
  cases hnil
  -- what is lost is an `else`, so it stands on the line and the end of the line behind it
  have hne {x : Token} {k : Kind} (hx : x.kind = k) (hk : k ≠ .keyword .ELSE) : t ≠ x := by
    rintro rfl
    exact hk (hx.symm.trans hkind)
  have hnotMem : t ∉ [newline, eof] := by
    simp only [List.mem_cons, List.not_mem_nil, or_false, not_or]
    exact ⟨hne hline nofun, hne heof nofun⟩
  obtain ⟨before, hbefore⟩ := hsuffix
  obtain ⟨read, ts, htokens, hmore⟩ : ∃ read ts, tokens = read ++ t :: ts ∧
      more = ts ++ [newline, eof] := by
    rcases List.append_eq_append_iff.mp hbefore with ⟨ts, htokens, hmore⟩ | ⟨ts, -, hmore⟩
    · cases ts with
      | nil => exact absurd ((show t :: more = [newline, eof] from hmore) ▸ List.mem_cons_self) hnotMem
      | cons x ts => exact ⟨before, ts, (List.cons.inj hmore).1 ▸ htokens, (List.cons.inj hmore).2⟩
    · exact absurd (hmore ▸ List.mem_append_right _ List.mem_cons_self) hnotMem
  have hgoes : ∀ x ∈ t :: ts, x.kind.isSeparator = false ∧ x.kind ≠ .endOfFile := fun x hx =>
    hwrites.goes_on x (htokens ▸ List.mem_append_right read hx)
  have hstatement : statement s = (.error ⟨.expectedSeparator t.describe, t.span⟩, u) :=
    (nest_eq statementLayer).trans hfails
  obtain ⟨v, hturn, hv, hdiagnosticsV, hsymbolsV⟩ := run_blockTurn_error #[] hnewline hfile
    (show atBlockEnd .file s = (false, s) from rfl) hstatement hgoes hline
    (show u.ahead = t :: ts ++ newline :: [eof] by rw [hahead, hmore]; rfl)
  have hblock := run_block_turn hturn hv heof (by
    obtain ⟨first, others, rfl, -⟩ := hwrites.opens
    exact Nat.lt_of_lt_of_le (Nat.succ_pos _) hsize)
  refine ⟨t, v, procedure_of_block hheader hblock (hsymbolsV ▸ hplain),
    htokens ▸ List.mem_append_right read List.mem_cons_self, hkind, ?_⟩
  rw [hdiagnosticsV, hdiagnostics]
  rfl

end Line

end Parse

/-- **A decision on one line is read back if and only if its decisions stand behind `else`.** For every
    tree of decisions with both arms over assignments, the tokens that write it on one line give the tree,
    up to spans, and no diagnostics if no arm behind a `then` is a decision. Else nothing of the line is
    kept, and there is one error, at an `else` that is taken for the rest of a complete statement. -/
theorem Procedure.ofTokens_fork {fork : Fork} {tokens : List Token} (hwrites : fork.Writes tokens)
    {newline eof : Token} (hline : newline.kind = .newline) (heof : eof.kind = .endOfFile)
    (source : String) (all : List Token) (file : Nat) :
    let found := ofTokens (tokens ++ [newline, eof]) [] source all file
    (fork.ElseNested → Block.eraseSpans found.body = [fork.statement] ∧ found.diagnostics = []) ∧
      (¬ fork.ElseNested → found.body = [] ∧ ∃ t ∈ tokens, t.kind = .keyword .ELSE ∧
        found.diagnostics = [.ofFault ⟨.expectedSeparator t.describe, t.span⟩]) := by
  have hs : Parse.Ahead (tokens ++ [newline, eof]) [] (.opening (tokens ++ [newline, eof]) []) :=
    ⟨⟨[], rfl, .nil⟩, rfl, SymbolTable.means_empty, rfl⟩
  unfold ofTokens
  refine ⟨fun hnested => ?_, fun hnested => ?_⟩
  · obtain ⟨st, u, hrun, hsame, hdiagnostics⟩ := Parse.run_procedure_fork hwrites hline heof hs hnested
    rw [hrun]
    refine ⟨?_, ?_⟩
    · show Block.eraseSpans [st] = _
      rw [Block.eraseSpans, hsame]
      rfl
    · show u.diagnostics.toList.mergeSort _ = []
      rw [hdiagnostics]
      exact List.mergeSort_nil
  · obtain ⟨t, u, hrun, ht, hkind, hdiagnostics⟩ :=
      Parse.run_procedure_fork_lost hwrites hline heof hs hnested
    rw [hrun]
    refine ⟨rfl, t, ht, hkind, ?_⟩
    show u.diagnostics.toList.mergeSort _ = _
    rw [hdiagnostics]
    exact List.mergeSort_singleton _

/-- `if a then x = 1 else if b then y = 2 else z = 3` is read back. -/
theorem Procedure.ofTokens_fork_elseIf :
    let token (kind : Kind) (text : String) : Token := ⟨kind, text, .blank, false⟩
    let tokens : List Token :=
      [token (.keyword .IF) "if", token .ident "a", token (.keyword .THEN) "then",
        token .ident "x", token .equal "=", token .number "1", token (.keyword .ELSE) "else",
        token (.keyword .IF) "if", token .ident "b", token (.keyword .THEN) "then",
        token .ident "y", token .equal "=", token .number "2", token (.keyword .ELSE) "else",
        token .ident "z", token .equal "=", token .number "3"]
    let assign (name text : String) : Statement :=
      .action (.assignment (.variable ⟨name, .assignment, .blank⟩) .assign (.number text .blank)) .blank
    let choose (name : String) (yes no : Statement) : Statement :=
      .decision (.condition (.variable ⟨name, .reference, .blank⟩)) (some [yes]) (some [no]) .blank
    let found := ofTokens (tokens ++ [token .newline "\n", .endAt .blank]) [] "" [] 0
    Block.eraseSpans found.body =
        [choose "a" (assign "x" "1") (choose "b" (assign "y" "2") (assign "z" "3"))] ∧
      found.diagnostics = [] := by
  intro token tokens assign choose found
  let number (text : String) : (Expr.number text .blank).Printable := .number text .blank
  let named (name : String) : (Expr.variable ⟨name, .reference, .blank⟩).Printable := .variable _ rfl
  let fork : Fork := .branch _ (named "a") (.assign "x" _ (number "1"))
    (.branch _ (named "b") (.assign "y" _ (number "2")) (.assign "z" _ (number "3")))
  have hassign (name text : String) : Fork.Writes (.assign name _ (number text))
      [token .ident name, token .equal "=", token .number text] :=
    .assign (show (token .ident name).kind = _ from rfl) rfl (.cons ⟨.inl rfl, rfl⟩ .nil)
  have hnamed (name : String) : Spells (Expr.variable ⟨name, .reference, .blank⟩).words
      [token .ident name] := .cons ⟨rfl, rfl⟩ .nil
  have hwrites : fork.Writes tokens :=
    .branch rfl (hnamed "a") rfl (hassign "x" "1") rfl
      (.branch rfl (hnamed "b") rfl (hassign "y" "2") rfl (hassign "z" "3"))
  exact (ofTokens_fork hwrites rfl rfl "" [] 0).1 ⟨id, id, trivial⟩

/-- A decision behind `then` takes its line with it. -/
theorem Procedure.exists_fork_lost :
    let found := ofText "if a then if b then x = 1 else y = 2 else z = 3\n" 0
    found.body = [] ∧ found.diagnostics ≠ [] := by
  decide +kernel

end BasicCheck
