import BasicCheck.Proofs.Print.Blocks

/-!
# Statements are read as they are written

One rule for each statement of control flow, over any parser that reads the statements within: behind
its first word everything is read up to the end of its last line (`Continues`). By induction on the
statement every layer that is deep enough reads it (`reads_structured`), for statements nest no deeper
than they have marks. So **a procedure gives back the block that it was written from**, with nothing
reported (`Procedure.ofTokens_marks`).
-/

namespace BasicCheck.Parse

variable {tail : List Token} {depth : Nat} {p : Parser Statement} {looping : Bool}
  {rest : List Mark} {s : State}

/-! ## 1. First words -/

/-- In front of some marks, a parser gives a statement up to spans and stops in front of the rest. -/
def Continues (tail : List Token) (depth : Nat) (q : Parser (Span → Statement))
    (ms rest : List Mark) (st : Statement) : Prop :=
  ∀ s, Facing tail depth ms s → ∃ build u, q s = (.ok build, u) ∧
    (∀ span, (build span).eraseSpans = st.eraseSpans) ∧ Facing tail depth rest u

theorem continues_action {q : Parser Action} {ms : List Mark} {form : Action} {span : Span}
    (h : ∀ s, Facing tail depth ms s → ∃ form' u, q s = (.ok form', u) ∧
      form'.eraseSpans = form.eraseSpans ∧ Facing tail depth rest u) :
    Continues tail depth (Statement.action <$> q) ms rest (.action form span) := by
  intro s hs
  obtain ⟨form', u, hrun, hsame, hu⟩ := h s hs
  refine ⟨Statement.action form', u, run_map hrun, fun span' => ?_, hu⟩
  rw [Statement.eraseSpans, Statement.eraseSpans, hsame]

/-- Behind its first word a statement goes on as the word says. -/
theorem run_keywordStatement {word : Keyword} {q : Token → Parser (Span → Statement)} {u : State}
    {t : Token} (hword : word.isContextual = false)
    (hq : ∀ keyword, statementAfter? p keyword word = some (q keyword))
    (hadvance : s.advance = (t, u)) (keyword : Token) :
    keywordStatement p keyword word s = q keyword u := by
  unfold keywordStatement
  rw [run_after (nextKind_eq s), hword, Bool.false_and, if_neg Bool.false_ne_true, hq]
  exact run_bind (run_discard (run_lift (p := advance) hadvance))

/-- A statement that opens with a word is read as the word says. -/
theorem statementLayer_key (word : Keyword) {q : Token → Parser (Span → Statement)}
    {build : Span → Statement} {u v : State} {t : Token} (hword : word.isContextual = false)
    (hq : ∀ keyword, statementAfter? p keyword word = some (q keyword))
    (hkind : s.current.kind = .keyword word) (hadvance : s.advance = (t, u))
    (hrun : q s.current u = (.ok build, v)) :
    statementLayer p s = (.ok (build (s.current.span.join v.previous.span)), v) := by
  have hkeyword := (run_keywordStatement hword hq hadvance s.current).trans hrun
  unfold statementLayer
  rw [run_after (current_eq s), hkind]
  exact (run_bind hkeyword).trans (run_after (spanFrom_eq v s.current.span))

/-- The same in front of marks. -/
theorem run_statementLayer_key (word : Keyword) {ms : List Mark} {st : Statement}
    {q : Token → Parser (Span → Statement)} (hword : word.isContextual = false)
    (hq : ∀ keyword, statementAfter? p keyword word = some (q keyword))
    (hcontinues : ∀ keyword, Continues tail depth (q keyword) ms rest st)
    (h : Facing tail depth (.key word :: ms) s) :
    ∃ st' u, statementLayer p s = (.ok st', u) ∧ st'.eraseSpans = st.eraseSpans ∧
      Facing tail depth rest u := by
  obtain ⟨t, u, hcurrent, hkind, hadvance, hu⟩ := h.sign
  obtain ⟨build, v, hrun, hsame, hv⟩ := hcontinues s.current u hu
  exact ⟨_, v, statementLayer_key word hword hq hkind hadvance hrun, hsame _, hv⟩

/-! ## 2. Actions -/

/-- A variable or a number does not end a statement. -/
theorem run_atStatementEnd_atom {e : Expr} (he : e.Atom)
    (h : Facing tail depth (e.marks ++ rest) s) : atStatementEnd s = (false, s) := by
  have hkind : s.current.kind = .ident ∨ s.current.kind = .number ∨ s.current.kind = .hexNumber := by
    cases he with
    | «variable» hrole =>
      obtain ⟨t, u, hspelled, hcurrent, -, -⟩ := h.next
      exact Or.inl (hcurrent ▸ hspelled.1)
    | number text span =>
      obtain ⟨t, u, hspelled, hcurrent, -, -⟩ := h.next
      exact Or.inr (hcurrent ▸ hspelled.1)
  unfold atStatementEnd
  rw [step_bind (currentKind_eq s)]
  rcases hkind with hkind | hkind | hkind <;> rw [hkind] <;> rfl

theorem reads_null (span : Span) :
    ReadsStatement tail (statementLayer p) looping (.action .null span) :=
  fun _ _ _ _ h => run_statementLayer_key .NULL rfl (fun _ => rfl)
    (fun _ => continues_action fun s hs => ⟨.null, s, rfl, rfl, hs⟩) h

theorem reads_return {value : Option Expr} (span : Span) (hvalue : ∀ e ∈ value, e.Atom) :
    ReadsStatement tail (statementLayer p) looping (.action (.return value) span) := by
  intro depth rest s _ h
  refine run_statementLayer_key .RETURN rfl (fun _ => rfl)
    (fun _ => continues_action fun s hs => ?_) h
  cases value with
  | none =>
    have hnone : optionalExpression s = (.ok none, s) := by
      have hend : atStatementEnd s = (true, s) := by
        unfold atStatementEnd
        rw [step_bind (currentKind_eq s), hs.kind_sign]
        rfl
      unfold optionalExpression
      rw [run_after hend]
      rfl
    exact ⟨.return none, s, run_map hnone, rfl, hs⟩
  | some e =>
    rw [Option.toList_some, List.flatMap_singleton] at hs
    obtain ⟨e', u, hrun, hsame, hu⟩ :=
      run_expression (hvalue e rfl) (closes_newline (Nat.le_refl 1)) hs
    have hsome : optionalExpression s = (.ok (some e'), u) := by
      unfold optionalExpression
      rw [run_after (run_atStatementEnd_atom (hvalue e rfl) hs), if_neg Bool.false_ne_true]
      exact (run_bind hrun).trans rfl
    refine ⟨.return (some e'), u, run_map hsome, ?_, hu⟩
    simp only [Action.eraseSpans, Option.map_some, hsame]

/-- The condition of a loop; one is open. -/
theorem reads_loopCondition {test : LoopTest} {cond : Expr} (span : Span) (hcond : cond.Atom) :
    ReadsStatement tail (statementLayer p) true (.action (.loopCondition test cond) span) := by
  intro depth rest s hdepth h
  have hcontinues (keyword : Token) : Continues tail depth
      (Statement.action <$> loopCondition keyword test) (cond.marks ++ .newline :: rest)
      (.newline :: rest) (.action (.loopCondition test cond) span) := by
    refine continues_action fun s hs => ?_
    obtain ⟨cond', u, hrun, hsame, hu⟩ := run_expression hcond (closes_newline (Nat.le_refl 1)) hs
    have hopen : s.loopDepth ≠ 0 := by
      rw [hs.depth]
      exact Nat.ne_of_gt (hdepth rfl)
    have hdo : u.current.kind ≠ .keyword .DO := by
      rw [hu.kind_sign]
      nofun
    refine ⟨.loopCondition test cond', u, ?_, ?_, hu⟩
    · unfold loopCondition
      rw [run_get, if_neg hopen]
      refine (run_bind hrun).trans ?_
      exact run_bind (run_discard (run_lift (consume_of_ne hdo)))
    · rw [Action.eraseSpans, Action.eraseSpans, hsame]
  cases test with
  | whileHolds => exact run_statementLayer_key .WHILE rfl (fun _ => rfl) hcontinues h
  | untilHolds => exact run_statementLayer_key .UNTIL rfl (fun _ => rfl) hcontinues h

/-- The assignment of a variable, whatever is read behind its sign. -/
theorem run_assignment {name : String} {Q : Expr → State → Prop}
    (hvalue : ∀ s, Facing tail depth rest s → ∃ value u, expression s = (.ok value, u) ∧ Q value u)
    (h : Facing tail depth (.name name :: .equal :: rest) s) :
    ∃ nameSpan value span u, statementLayer p s = (.ok (.action (.assignment
      (.variable ⟨name, .assignment, nameSpan⟩) .assign value) span), u) ∧ Q value u := by
  obtain ⟨t, u, hspelled, hcurrent, -, -⟩ := h.next
  obtain ⟨t', hspelled', hnext⟩ := h.nextKind
  rw [show t'.kind = .equal from hspelled'] at hnext
  obtain ⟨nameSpan, v, htarget, hv⟩ := run_target h
  obtain ⟨t'', w, -, hkind, hadvance, hw⟩ := hv.sign
  obtain ⟨value, x, hrun, hx⟩ := hvalue w hw
  have hend : atStatementEnd v = (false, v) := by
    unfold atStatementEnd
    rw [step_bind (currentKind_eq v), hkind]
    rfl
  have hassignment : assignment s =
      (.ok (.assignment (.variable ⟨name, .assignment, nameSpan⟩) .assign value), x) := by
    unfold assignment
    rw [run_bind htarget, run_after hend]
    refine (run_after (currentKind_eq v)).trans ?_
    rw [hkind]
    refine (run_bind (run_discard (run_lift (p := advance) hadvance))).trans ?_
    exact (run_bind hrun).trans rfl
  have hcall : assignmentOrCall s =
      (.ok (.assignment (.variable ⟨name, .assignment, nameSpan⟩) .assign value), x) := by
    unfold assignmentOrCall
    rw [run_get, run_after hnext]
    have hparen : (Kind.equal == Kind.leftParen) = false := rfl
    rw [hparen, Bool.and_false, Bool.false_and, if_neg Bool.false_ne_true]
    exact hassignment
  refine ⟨nameSpan, value, t.span.join x.previous.span, x, ?_, hx⟩
  unfold statementLayer
  rw [run_after (current_eq s), hcurrent, hspelled.1]
  refine (run_after hnext).trans ?_
  exact (run_bind (run_map hcall)).trans (run_after (spanFrom_eq x t.span))

/-- The assignment of a variable or a number. -/
theorem reads_assignment {name : Ident} {value : Expr} (span : Span)
    (hrole : name.role = .assignment) (hvalue : value.Atom) :
    ReadsStatement tail (statementLayer p) looping
      (.action (.assignment (.variable name) .assign value) span) := by
  intro depth rest s _ h
  have h : Facing tail depth (.name name.name :: .equal :: (value.marks ++ .newline :: rest)) s := by
    simpa only [Statement.marks, Action.marks, Expr.marks, List.cons_append, List.nil_append] using h
  obtain ⟨nameSpan, value', span', u, hrun, hsame, hu⟩ := run_assignment (p := p)
    (fun w hw => run_expression hvalue (closes_newline (Nat.le_refl 1)) hw) h
  refine ⟨_, u, hrun, ?_, hu⟩
  simp only [Statement.eraseSpans, Action.eraseSpans, Expr.eraseSpans, hsame, hrole]

/-! ## 3. Decisions -/

section Nested

variable (htail : ∀ t ∈ tail.head?, t.kind = .endOfFile)

include htail

/-- The arms of a decision, of which one holds a statement. -/
theorem run_arms {thenArm elseArm : Option Block} (hdepth : looping = true → 0 < depth)
    (hsome : ∃ body ∈ thenArm.toList ++ elseArm.toList, body ≠ [])
    (hthen : ∀ body ∈ thenArm, ∀ st ∈ body, st.Structured looping)
    (helse : ∀ body ∈ elseArm, ∀ st ∈ body, st.Structured looping)
    (hthen' : ∀ body ∈ thenArm, ∀ st ∈ body, ReadsStatement tail p looping st)
    (helse' : ∀ body ∈ elseArm, ∀ st ∈ body, ReadsStatement tail p looping st)
    (h : Facing tail depth
      (marksOfArm .THEN thenArm ++ (marksOfArm .ELSE elseArm ++ .newline :: rest)) s) :
    ∃ thenArm' elseArm' u, arms p false s = (.ok (thenArm', elseArm'), u) ∧
      eraseArmSpans thenArm' = eraseArmSpans thenArm ∧
      eraseArmSpans elseArm' = eraseArmSpans elseArm ∧ Facing tail depth (.newline :: rest) u := by
  -- what follows the first arm is not its word, whether there is a second arm or not
  have hbehind : ∃ k more, marksOfArm .ELSE elseArm ++ .newline :: rest = .sign k :: more ∧
      k ≠ .keyword .THEN := by
    cases elseArm with
    | none => exact ⟨.newline, rest, rfl, nofun⟩
    | some body => exact ⟨.keyword .ELSE, _, rfl, nofun⟩
  obtain ⟨k, more, hmore, hk⟩ := hbehind
  rw [hmore] at h
  obtain ⟨thenArm', u, hrunThen, hsameThen, hu⟩ :=
    run_armAfter? htail .THEN .thenArm hk hdepth hthen hthen' h
  rw [← hmore] at hu
  obtain ⟨elseArm', v, hrunElse, hsameElse, hv⟩ :=
    run_armAfter? htail .ELSE .elseArm (k := .newline) nofun hdepth helse helse' hu
  refine ⟨thenArm', elseArm', v, ?_, hsameThen, hsameElse, hv⟩
  have hholds : (holdsStatement thenArm' || holdsStatement elseArm') = true := by
    obtain ⟨body, hbody, hne⟩ := hsome
    rw [Bool.or_eq_true]
    rcases List.mem_append.mp hbody with hbody | hbody
    · exact Or.inl (holdsStatement_of_eraseSpans hsameThen hthen
        ⟨body, Option.mem_toList.mp hbody, hne⟩)
    · exact Or.inr (holdsStatement_of_eraseSpans hsameElse helse
        ⟨body, Option.mem_toList.mp hbody, hne⟩)
  have hthere : (thenArm'.isNone && elseArm'.isNone) = false := by
    cases thenArm' with
    | some body => rfl
    | none =>
      cases elseArm' with
      | some body => rfl
      | none => cases hholds
  unfold arms
  rw [run_after (current_eq s), run_bind hrunThen, run_bind hrunElse, hthere, hholds]
  rfl

theorem reads_decision {cond : Expr} {thenArm elseArm : Option Block} (span : Span)
    (hcond : cond.Atom) (hsome : ∃ body ∈ thenArm.toList ++ elseArm.toList, body ≠ [])
    (hthen : ∀ body ∈ thenArm, ∀ st ∈ body, st.Structured looping)
    (helse : ∀ body ∈ elseArm, ∀ st ∈ body, st.Structured looping)
    (hthen' : ∀ body ∈ thenArm, ∀ st ∈ body, ReadsStatement tail p looping st)
    (helse' : ∀ body ∈ elseArm, ∀ st ∈ body, ReadsStatement tail p looping st) :
    ReadsStatement tail (statementLayer p) looping
      (.decision (.condition cond) thenArm elseArm span) := by
  intro depth rest s hdepth h
  have h : Facing tail depth (.key .IF :: (cond.marks ++ (marksOfArm .THEN thenArm ++
      (marksOfArm .ELSE elseArm ++ .newline :: rest)))) s := by
    simpa only [Statement.marks, Decision.marks, List.cons_append, List.append_assoc] using h
  refine run_statementLayer_key .IF rfl (fun _ => rfl) (fun keyword u hu => ?_) h
  -- the condition ends at the word of whichever arm comes first
  have hbehind : ∃ word more, marksOfArm .THEN thenArm ++
      (marksOfArm .ELSE elseArm ++ .newline :: rest) = .key word :: more ∧
      BinOp.ofKind? (.keyword word) = none := by
    cases thenArm with
    | some body => exact ⟨.THEN, _, rfl, rfl⟩
    | none =>
      cases elseArm with
      | some body => exact ⟨.ELSE, _, rfl, rfl⟩
      | none =>
        obtain ⟨body, hbody, -⟩ := hsome
        cases hbody
  obtain ⟨word, more, hmore, hword⟩ := hbehind
  rw [hmore] at hu
  obtain ⟨cond', v, hrun, hsame, hv⟩ := run_expression hcond (closes_keyword word hword) hu
  rw [← hmore] at hv
  obtain ⟨thenArm', elseArm', w, harms, hsameThen, hsameElse, hw⟩ :=
    run_arms htail hdepth hsome hthen helse hthen' helse' hv
  refine ⟨.decision (.condition cond') thenArm' elseArm', w, ?_, fun span' => ?_, hw⟩
  · have htest : (Decision.condition <$> expression : Parser Decision) u =
        (.ok (.condition cond'), v) := run_map hrun
    show decision p (Decision.condition <$> expression) u = _
    unfold decision
    rw [run_bind htest]
    exact (run_bind harms).trans rfl
  · rw [Statement.eraseSpans, Statement.eraseSpans, Decision.eraseSpans, Decision.eraseSpans, hsame,
      hsameThen, hsameElse]

/-! ## 4. Loops -/

/-- The body of a loop is read with one more loop open. -/
theorem run_loopBody (stop : BlockEnd) {body : Block} {more : List Mark} (hc : stop.Closes more)
    (hbody : ∀ st ∈ body, st.Structured true)
    (hreads : ∀ st ∈ body, ReadsStatement tail p true st)
    (h : Facing tail depth (.newline :: (Block.marks body ++ more)) s) :
    ∃ body' u, loopBody p stop s = (body', u) ∧
      Block.eraseSpans body' = Block.eraseSpans body ∧ Facing tail depth more u := by
  obtain ⟨m, hbegin, hm⟩ := h.begin
  have hinner : Facing tail (depth + 1) (List.replicate 1 .newline ++ (Block.marks body ++ more))
      { m with loopDepth := m.loopDepth + 1 } :=
    ⟨hm.tokens, hm.eof, hm.diagnostics, hm.plain, congrArg (· + 1) hm.depth⟩
  obtain ⟨body', u, hblock, hsame, hu⟩ :=
    run_block htail stop hc (fun _ => Nat.succ_pos depth) hbody hreads 1 hinner
  refine ⟨body', { u with loopDepth := u.loopDepth - 1 }, ?_, hsame,
    ⟨hu.tokens, hu.eof, hu.diagnostics, hu.plain, ?_⟩⟩
  · unfold loopBody
    rw [step_bind hbegin]
    exact (step_bind (p := modify _) (a := PUnit.unit) rfl).trans ((step_bind hblock).trans rfl)
  · show u.loopDepth - 1 = depth
    rw [hu.depth]
    rfl

theorem reads_loop {body : Block} (span : Span) (hbody : ∀ st ∈ body, st.Structured true)
    (hreads : ∀ st ∈ body, ReadsStatement tail p true st) :
    ReadsStatement tail (statementLayer p) looping (.loop body span) := by
  intro depth rest s _ h
  have h : Facing tail depth (.key .LOOP :: .newline :: (Block.marks body ++
      .key .REPEAT :: .newline :: rest)) s := by
    simpa only [Statement.marks, List.cons_append, List.append_assoc, List.nil_append] using h
  refine run_statementLayer_key .LOOP rfl (fun _ => rfl) (fun keyword u hu => ?_) h
  obtain ⟨body', v, hrun, hsame, hv⟩ := run_loopBody htail .loop ⟨_, rfl⟩ hbody hreads hu
  obtain ⟨closing, w, hclose, hw⟩ := run_closeBlock RegionKind.loop.construct keyword.span hv
  obtain ⟨x, hregion, hx⟩ := hw.recordRegion .loop (keyword.span.join w.previous.span)
  refine ⟨Statement.loop body', x, run_lift ?_, fun span' => ?_, hx⟩
  · unfold plainLoop
    rw [step_bind hrun, step_bind (step_discard hclose), step_bind (spanFrom_eq w keyword.span)]
    exact (step_bind hregion).trans rfl
  · rw [Statement.eraseSpans, Statement.eraseSpans, hsame]

omit htail in
/-- The limit of a counting loop ends at its step, or at the end of the line if it has none. -/
theorem run_limitAndStep {limit : Expr} {step : Option Expr} (hlimit : limit.Atom)
    (hstep : ∀ e ∈ step, e.Atom)
    (h : Facing tail depth (limit.marks ++
      ((step.toList.flatMap fun e => .key .STEP :: e.marks) ++ .newline :: rest)) s) :
    ∃ limit' step' u v, expression s = (.ok limit', u) ∧
      expressionAfter? .STEP u = (.ok step', v) ∧ limit'.eraseSpans = limit.eraseSpans ∧
      step'.map Expr.eraseSpans = step.map Expr.eraseSpans ∧ Facing tail depth (.newline :: rest) v := by
  cases step with
  | none =>
    obtain ⟨limit', u, hrun, hsame, hu⟩ := run_expression hlimit (closes_newline (Nat.le_refl 1)) h
    have hno : u.current.kind ≠ .keyword .STEP := by
      rw [hu.kind_sign]
      nofun
    refine ⟨limit', none, u, u, hrun, ?_, hsame, rfl, hu⟩
    unfold expressionAfter?
    rw [run_after (consume_of_ne hno)]
    rfl
  | some e =>
    rw [Option.toList_some, List.flatMap_singleton, List.cons_append] at h
    obtain ⟨limit', u, hrun, hsame, hu⟩ :=
      run_expression hlimit (closes_keyword .STEP rfl) h
    obtain ⟨t, u', -, hkind, hadvance, hu'⟩ := hu.sign
    obtain ⟨e', v, hrunStep, hsameStep, hv⟩ :=
      run_expression (hstep e rfl) (closes_newline (Nat.le_refl 1)) hu'
    refine ⟨limit', some e', u, v, hrun, ?_, hsame, ?_, hv⟩
    · unfold expressionAfter?
      rw [run_after (consume_of_eq hkind hadvance), if_pos rfl]
      exact (run_bind hrunStep).trans rfl
    · rw [Option.map_some, Option.map_some, hsameStep]

omit htail in
/-- The header of a counting loop in front of a line end. -/
theorem run_counter {c : Counter} (start : Span) (hrole : c.name.role = .assignment)
    (hstart : c.start.Atom) (hlimit : c.limit.Atom) (hstep : ∀ e ∈ c.step, e.Atom)
    (h : Facing tail depth (c.marks ++ .newline :: rest) s) :
    ∃ c' u, counter start s = (c', u) ∧ c'.eraseSpans = c.eraseSpans ∧
      c'.name.name = c.name.name ∧ Facing tail depth (.newline :: rest) u := by
  simp only [Counter.marks, List.cons_append, List.append_assoc] at h
  obtain ⟨t, u, ⟨hkind, htext⟩, hcurrent, hadvance, hu⟩ := h.next
  obtain ⟨v, hnote, hv⟩ := hu.noteVariable t
  obtain ⟨t₁, v₁, -, hequal, hadvance₁, hv₁⟩ := hv.sign
  obtain ⟨start', v₂, hrunStart, hsameStart, hv₂⟩ :=
    run_expression hstart (closes_keyword .TO rfl) hv₁
  obtain ⟨t₃, v₃, -, hto, hadvance₃, hv₃⟩ := hv₂.sign
  obtain ⟨limit', step', w, x, hrunLimit, hrunStep, hsameLimit, hsameStep, hx⟩ :=
    run_limitAndStep hlimit hstep hv₃
  have hbounds : bounds v = (.ok (start', limit', step'), x) := by
    unfold bounds
    rw [run_bind (run_discard (expect_of_eq hequal hadvance₁)), run_bind hrunStart,
      run_bind (run_discard (expect_of_eq hto hadvance₃)), run_bind hrunLimit]
    exact (run_bind hrunStep).trans rfl
  have hident : expectIdent s = (.ok t, u) := by
    unfold expectIdent
    rw [run_after (sees_eq s .ident), hcurrent, hkind, beq_self_eq_true, if_pos rfl]
    exact run_lift hadvance
  refine ⟨⟨⟨t.text, .assignment, t.span⟩, start', limit', step'⟩, x, ?_, ?_, htext, hx⟩
  · unfold counter
    refine (step_bind (p := expectIdent.run) hident).trans ?_
    refine (step_bind hnote).trans (recover_of_ok ?_)
    exact (run_bind hbounds).trans rfl
  · simp only [Counter.eraseSpans, Ident.eraseSpan, htext, hrole, hsameStart, hsameLimit, hsameStep]

omit htail in
/-- The variable behind `next`, if it is there, is that of the loop. -/
theorem run_closingName? {name name' : Ident} {closing : Option Ident}
    (hname : name'.name = name.name)
    (hclosing : ∀ i ∈ closing, i.role = .reference ∧ i.folded = name.folded)
    (h : Facing tail depth (closing.toList.map (.name ·.name) ++ .newline :: rest) s) :
    ∃ closing' u, closingName? name' s = (closing', u) ∧
      closing'.map Ident.eraseSpan = closing.map Ident.eraseSpan ∧
      Facing tail depth (.newline :: rest) u := by
  cases closing with
  | none =>
    refine ⟨none, s, ?_, rfl, h⟩
    unfold closingName?
    rw [step_bind (sees_eq s .ident), Facing.kind_sign h]
    rfl
  | some i =>
    obtain ⟨hrole, hfolded⟩ := hclosing i rfl
    obtain ⟨t, u, ⟨hkind, htext⟩, hcurrent, hadvance, hu⟩ := h.next
    obtain ⟨v, hnote, hv⟩ := hu.noteVariable t
    have hsame : (t.folded != name'.folded) = false := by
      rw [bne_eq_false_iff_eq, Token.folded, htext, Ident.folded, hname]
      exact hfolded
    refine ⟨some ⟨t.text, .reference, t.span⟩, v, ?_, ?_, hv⟩
    · unfold closingName?
      rw [step_bind (sees_eq s .ident), hcurrent, hkind, beq_self_eq_true, if_pos rfl,
        step_bind (p := advance) hadvance, step_bind hnote, hsame, Bool.and_false,
        if_neg Bool.false_ne_true]
      rfl
    · rw [Option.map_some, Option.map_some, Ident.eraseSpan, Ident.eraseSpan, htext, hrole]

theorem reads_counted {c : Counter} {body : Block} {closing : Option Ident} (span : Span)
    (hrole : c.name.role = .assignment) (hstart : c.start.Atom) (hlimit : c.limit.Atom)
    (hstep : ∀ e ∈ c.step, e.Atom) (hbody : ∀ st ∈ body, st.Structured true)
    (hclosing : ∀ i ∈ closing, i.role = .reference ∧ i.folded = c.name.folded)
    (hreads : ∀ st ∈ body, ReadsStatement tail p true st) :
    ReadsStatement tail (statementLayer p) looping (.counted c body closing span) := by
  intro depth rest s _ h
  have h : Facing tail depth (.key .FOR :: (c.marks ++ .newline :: (Block.marks body ++
      .key .NEXT :: (closing.toList.map (.name ·.name) ++ .newline :: rest)))) s := by
    simpa only [Statement.marks, List.cons_append, List.append_assoc] using h
  refine run_statementLayer_key .FOR rfl (fun _ => rfl) (fun keyword u hu => ?_) h
  obtain ⟨c', v, hcounter, hsameCounter, hname, hv⟩ :=
    run_counter keyword.span hrole hstart hlimit hstep hu
  obtain ⟨body', w, hrun, hsame, hw⟩ :=
    run_loopBody htail .counted ⟨_, rfl⟩ hbody hreads hv
  obtain ⟨terminator, x, hclose, hx⟩ := run_closeBlock RegionKind.counted.construct keyword.span hw
  obtain ⟨closing', y, hclosed, hsameClosing, hy⟩ := run_closingName? hname hclosing hx
  obtain ⟨z, hregion, hz⟩ := hy.recordRegion .counted (keyword.span.join y.previous.span)
  refine ⟨Statement.counted c' body' closing', z, run_lift ?_, fun span' => ?_, hz⟩
  · unfold countedLoop
    rw [step_bind hcounter, step_bind hrun, step_bind (sees_eq w (.keyword .NEXT)), hw.kind_sign,
      beq_self_eq_true, step_bind (step_discard hclose)]
    refine (step_bind hclosed).trans ?_
    refine (step_bind (spanFrom_eq y keyword.span)).trans ?_
    exact (step_bind hregion).trans rfl
  · rw [Statement.eraseSpans, Statement.eraseSpans, hsameCounter, hsame, hsameClosing]

/-! ## 5. Choices -/

omit htail in
/-- Behind an arm of a choice comes the next one, or the end of the choice. -/
theorem closes_caseArm (arms : List CaseArm) :
    BlockEnd.caseArm.Closes (marksOfCases arms ++ .key .END :: .key .CASE :: rest) := by
  cases arms with
  | nil => exact Or.inr ⟨rest, rfl⟩
  | cons arm arms =>
    obtain ⟨cond, body, span⟩ := arm
    exact Or.inl ⟨_, rfl⟩

/-- One arm of a choice, in front of the rest of the choice. -/
theorem run_caseArm {cond : Expr} {body : Block} {more : List Mark}
    (hc : BlockEnd.caseArm.Closes more) (hcond : cond.Atom) (hdepth : looping = true → 0 < depth)
    (hbody : ∀ st ∈ body, st.Structured looping)
    (hreads : ∀ st ∈ body, ReadsStatement tail p looping st)
    (h : Facing tail depth (.key .CASE :: (cond.marks ++ .newline :: (Block.marks body ++ more))) s) :
    ∃ cond' body' span u, caseArm p s = (.mk cond' body' span, u) ∧
      cond'.eraseSpans = cond.eraseSpans ∧ Block.eraseSpans body' = Block.eraseSpans body ∧
      Facing tail depth more u := by
  obtain ⟨t, u, hcurrent, hkind, hadvance, hu⟩ := h.sign
  obtain ⟨cond', v, hrun, hsame, hv⟩ := run_expression hcond (closes_newline (Nat.le_refl 1)) hu
  obtain ⟨w, hseparator, hw⟩ := run_expectSeparator hv
  obtain ⟨body', x, hblock, hsames, hx⟩ := run_block (p := p) htail .caseArm hc hdepth hbody hreads 0 hw
  obtain ⟨y, hregion, hy⟩ := hx.recordRegion .caseArm (t.span.join x.previous.span)
  have hline : (do
      let cond ← expression
      expectSeparator
      return cond : Parser Expr) u = (.ok cond', w) := by
    rw [run_bind hrun]
    exact (run_bind hseparator).trans rfl
  refine ⟨cond', body', t.span.join x.previous.span, y, ?_, hsame, hsames, hy⟩
  unfold caseArm
  rw [step_bind (p := advance) hadvance, step_bind (recover_of_ok hline), step_bind hblock,
    step_bind (spanFrom_eq x t.span)]
  exact (step_bind hregion).trans rfl

/-- The turns over the arms of a choice, one for each and one for its end. -/
theorem turns_choiceTurn (start : Span) (hdepth : looping = true → 0 < depth) {arms : List CaseArm}
    (hconds : ∀ arm ∈ arms, arm.cond.Atom)
    (hbodies : ∀ arm ∈ arms, ∀ st ∈ arm.body, st.Structured looping)
    (hreads : ∀ arm ∈ arms, ∀ st ∈ arm.body, ReadsStatement tail p looping st)
    (found : Array CaseArm) (n : Nat) (s : State) (hn : arms.length < n)
    (h : Facing tail depth (marksOfCases arms ++ .key .END :: .key .CASE :: rest) s) :
    ∃ arms' u, loopUpTo (choiceTurn p start) Array.toList n found s = (found.toList ++ arms', u) ∧
      eraseCaseSpans arms' = eraseCaseSpans arms ∧ Facing tail depth rest u := by
  -- on the arms: without one the next turn finds the end, otherwise it reads one arm and goes on
  induction arms generalizing found n s with
  | nil =>
    obtain ⟨n, rfl⟩ := Nat.exists_eq_succ_of_ne_zero (Nat.ne_zero_of_lt hn)
    obtain ⟨u, hskip, hu⟩ := run_skipNewlines (fun s hs => by rw [Facing.kind_sign hs]; nofun) 0 h
    obtain ⟨t, v, hcurrent, hkind, hadvance, hv⟩ := hu.sign
    obtain ⟨t', ht', hnext⟩ := hu.nextKind
    obtain ⟨t'', w, -, -, hadvance', hw⟩ := hv.sign
    refine ⟨[], w, ?_, rfl, hw⟩
    rw [List.append_nil]
    refine loopUpTo_done ?_
    unfold choiceTurn
    rw [step_bind hskip, step_bind (sees_eq u (.keyword .CASE)), hkind]
    refine (step_bind (sees_eq u (.keyword .END))).trans ?_
    refine (step_bind hnext).trans ?_
    rw [hkind, show t'.kind = .keyword .CASE from ht', beq_self_eq_true, beq_self_eq_true]
    refine (step_bind (step_discard (p := advance) hadvance)).trans ?_
    exact (step_bind (step_discard (p := advance) hadvance')).trans rfl
  | cons arm arms ih =>
    obtain ⟨cond, body, span⟩ := arm
    obtain ⟨n, rfl⟩ := Nat.exists_eq_succ_of_ne_zero (Nat.ne_zero_of_lt hn)
    have h : Facing tail depth (.key .CASE :: (cond.marks ++ .newline :: (Block.marks body ++
        (marksOfCases arms ++ .key .END :: .key .CASE :: rest)))) s := by
      simpa only [marksOfCases, List.cons_append, List.append_assoc] using h
    obtain ⟨u, hskip, hu⟩ := run_skipNewlines (fun s hs => by rw [Facing.kind_sign hs]; nofun) 0 h
    obtain ⟨cond', body', span', v, harm, hsame, hsames, hv⟩ := run_caseArm htail
      (closes_caseArm arms) (hconds _ List.mem_cons_self) hdepth (hbodies _ List.mem_cons_self)
      (hreads _ List.mem_cons_self) hu
    obtain ⟨arms', w, hrun, hrest, hw⟩ := ih
      (fun arm hm => hconds arm (List.mem_cons_of_mem _ hm))
      (fun arm hm => hbodies arm (List.mem_cons_of_mem _ hm))
      (fun arm hm => hreads arm (List.mem_cons_of_mem _ hm)) (found.push (.mk cond' body' span')) n v
      (Nat.lt_of_succ_lt_succ hn) hv
    refine ⟨.mk cond' body' span' :: arms', w, (loopUpTo_again ?_).trans (hrun.trans ?_), ?_, hw⟩
    · unfold choiceTurn
      rw [step_bind hskip, step_bind (sees_eq u (.keyword .CASE)), hu.kind_sign, beq_self_eq_true,
        if_pos rfl]
      exact (step_bind harm).trans rfl
    · simp
    · rw [eraseCaseSpans, eraseCaseSpans, hsame, hsames, hrest]
      rfl

omit htail in
theorem length_le_length_marksOfCases (arms : List CaseArm) :
    arms.length ≤ (marksOfCases arms).length := by
  induction arms with
  | nil => exact Nat.le_refl 0
  | cons arm arms ih =>
    obtain ⟨cond, body, span⟩ := arm
    simp only [marksOfCases, List.length_cons, List.length_append]
    omega

theorem reads_choice {arms : List CaseArm} (span : Span) (hconds : ∀ arm ∈ arms, arm.cond.Atom)
    (hbodies : ∀ arm ∈ arms, ∀ st ∈ arm.body, st.Structured looping)
    (hreads : ∀ arm ∈ arms, ∀ st ∈ arm.body, ReadsStatement tail p looping st) :
    ReadsStatement tail (statementLayer p) looping (.choice arms span) := by
  intro depth rest s hdepth h
  have h : Facing tail depth (.key .BEGIN :: .key .CASE :: .newline :: (marksOfCases arms ++
      .key .END :: .key .CASE :: .newline :: rest)) s := by
    simpa only [Statement.marks, List.cons_append, List.append_assoc, List.nil_append] using h
  refine run_statementLayer_key .BEGIN rfl (fun _ => rfl) (fun keyword u hu => ?_) h
  obtain ⟨t, v, hcurrent, hkind, hadvance, hv⟩ := hu.sign
  obtain ⟨m, hseparator, hm⟩ := run_expectSeparator hv
  obtain ⟨w, hbegin, hw⟩ := hm.begin
  have hsize := hw.length_le_size
  have hlength := length_le_length_marksOfCases arms
  rw [List.length_append] at hsize
  obtain ⟨arms', x, hrun, hsame, hx⟩ := turns_choiceTurn htail keyword.span hdepth hconds hbodies
    hreads #[] (w.size + 1) w (by omega) hw
  obtain ⟨y, hregion, hy⟩ := hx.recordRegion .choice (keyword.span.join x.previous.span)
  refine ⟨Statement.choice arms', y, ?_, fun span' => ?_, hy⟩
  · have harms : choiceArms p keyword.span w = (arms', x) := hrun
    show choice p keyword.span u = _
    unfold choice
    rw [run_bind (run_discard (expect_of_eq hkind hadvance)), run_bind hseparator,
      run_after hbegin, run_after harms, run_after (spanFrom_eq x keyword.span)]
    exact (run_after hregion).trans rfl
  · rw [Statement.eraseSpans, Statement.eraseSpans, hsame]

end Nested

/-! ## 6. Nesting -/

/-- A statement of a block has fewer marks than the block. -/
theorem length_marks_lt {st : Statement} {body : Block} (h : st ∈ body) :
    st.marks.length < (Block.marks body).length := by
  induction body with
  | nil => cases h
  | cons st' body ih =>
    rw [Block.marks, List.length_append, List.length_cons]
    rcases List.mem_cons.mp h with rfl | h
    · omega
    · have hlt := ih h
      omega

theorem length_marksOfCases_le {arm : CaseArm} {arms : List CaseArm} (h : arm ∈ arms) :
    (Block.marks arm.body).length ≤ (marksOfCases arms).length := by
  induction arms with
  | nil => cases h
  | cons arm' arms ih =>
    obtain ⟨cond, body, span⟩ := arm'
    simp only [marksOfCases, List.length_cons, List.length_append]
    rcases List.mem_cons.mp h with rfl | h
    · simp only [CaseArm.body]
      omega
    · have hle := ih h
      omega

/-- What every layer that is deep enough reads is read by layers enough. -/
theorem ReadsStatement.of_layers {st : Statement} {n : Nat} (h : st.Structured looping)
    (hn : st.marks.length ≤ n) (hlayer : ∀ m, st.marks.length ≤ m + 1 →
      ReadsStatement tail (statementLayer (nestUpTo statementLayer m)) looping st) :
    ReadsStatement tail (nestUpTo statementLayer n) looping st := by
  obtain ⟨m, ms, hmarks, -⟩ := h.opens
  cases n with
  | zero =>
    rw [hmarks] at hn
    cases hn
  | succ n => exact hlayer n hn

/-- **Every layer that is deep enough for the marks of a statement reads it.** -/
theorem reads_structured (htail : ∀ t ∈ tail.head?, t.kind = .endOfFile) {st : Statement}
    (h : st.Structured looping) (n : Nat) (hn : st.marks.length ≤ n + 1) :
    ReadsStatement tail (statementLayer (nestUpTo statementLayer n)) looping st := by
  -- on the statement: each statement within it has fewer marks, so a layer less is deep enough
  induction h generalizing n with
  | assignment span htarget hvalue => exact reads_assignment span htarget hvalue
  | null span => exact reads_null span
  | «return» span hvalue => exact reads_return span hvalue
  | loopCondition span hcond => exact reads_loopCondition span hcond
  | @decision looping cond thenArm elseArm span hcond hsome hthen helse ihThen ihElse =>
    simp only [Statement.marks, List.length_cons, List.length_append] at hn
    have hinner (word : Keyword) {arm : Option Block}
        (hle : (marksOfArm word arm).length ≤ n) : ∀ body ∈ arm, ∀ st ∈ body,
        st.marks.length ≤ n := by
      intro body hbody st hst
      obtain rfl := hbody
      have hlt := length_marks_lt hst
      simp only [marksOfArm, List.length_cons, List.length_append] at hle
      omega
    refine reads_decision htail span hcond hsome hthen helse (fun body hbody st hst => ?_)
      fun body hbody st hst => ?_
    · exact (ReadsStatement.of_layers (hthen body hbody st hst)
        (hinner .THEN (by omega) body hbody st hst) (ihThen body hbody st hst))
    · exact (ReadsStatement.of_layers (helse body hbody st hst)
        (hinner .ELSE (by omega) body hbody st hst) (ihElse body hbody st hst))
  | @counted looping c body closing span hrole hstart hlimit hstep hbody hclosing ih =>
    simp only [Statement.marks, List.length_cons, List.length_append] at hn
    refine reads_counted htail span hrole hstart hlimit hstep hbody hclosing fun st hst => ?_
    have hlt := length_marks_lt hst
    exact ReadsStatement.of_layers (hbody st hst) (by omega) (ih st hst)
  | @loop looping body span hbody ih =>
    simp only [Statement.marks, List.length_cons, List.length_append] at hn
    refine reads_loop htail span hbody fun st hst => ?_
    have hlt := length_marks_lt hst
    exact ReadsStatement.of_layers (hbody st hst) (by omega) (ih st hst)
  | @choice looping arms span hconds hbodies ih =>
    simp only [Statement.marks, List.length_cons, List.length_append] at hn
    refine reads_choice htail span hconds hbodies fun arm harm st hst => ?_
    have hlt := length_marks_lt hst
    have hle := length_marksOfCases_le harm
    exact ReadsStatement.of_layers (hbodies arm harm st hst) (by omega) (ih arm harm st hst)

/-- A statement is read wherever it is written, for the unread tokens allow layers enough. -/
theorem reads_statement (htail : ∀ t ∈ tail.head?, t.kind = .endOfFile) {st : Statement}
    (h : st.Structured looping) : ReadsStatement tail statement looping st := by
  intro depth rest s hdepth hs
  have hsize := hs.length_le_size
  rw [List.length_append] at hsize
  have hrun : statement s = statementLayer (nestUpTo statementLayer s.size) s := nest_eq statementLayer
  rw [hrun]
  exact reads_structured htail h s.size (by omega) depth rest s hdepth hs

/-! ## 7. Procedures -/

/-- There is no header where none of its words comes next. -/
theorem header_of_opens (hnewline : s.current.kind ≠ .newline)
    (hcompile : s.current.kind ≠ .keyword .COMPILE) (hnone : procedureKind? s.current.kind = none) :
    header s = (.anonymous, s) := by
  unfold header
  rw [step_bind (skipNewlines_eq_self hnewline), step_bind (sees_eq s (.keyword .COMPILE)),
    beq_eq_false_iff_ne.mpr hcompile]
  refine (step_bind (currentKind_eq s)).trans ?_
  dsimp only
  rw [hnone]
  rfl

/-- In front of the end or of what opens like a statement there is no header. -/
theorem run_header {ms : List Mark}
    (hkind : ∀ u, Facing tail depth ms u → u.current.kind = .endOfFile ∨ OpensWell ms)
    (h : Facing tail depth ms s) :
    ∃ u, header s = (.anonymous, u) ∧ Facing tail depth ms u := by
  have hne {k : Kind} (hk : k ∈ neverOpens) (hfile : k ≠ .endOfFile) : s.current.kind ≠ k := by
    rcases hkind s h with hend | hopens
    · rw [hend]
      exact hfile.symm
    · exact h.kind_ne_of_opens hopens hk
  have hnone : procedureKind? s.current.kind = none := by
    have hfunction := hne (k := .keyword .FUNCTION) (by decide) nofun
    have hsubroutine := hne (k := .keyword .SUBROUTINE) (by decide) nofun
    have hinsert := hne (k := .keyword .INSERT) (by decide) nofun
    unfold procedureKind?
    split
    · exact absurd ‹_› hfunction
    · exact absurd ‹_› hsubroutine
    · exact absurd ‹_› hinsert
    · rfl
  exact ⟨s, header_of_opens (hne (by decide) nofun) (hne (by decide) nofun) hnone, h⟩

/-- A procedure without a header and without labels is its block. -/
theorem procedure_of_block {body : Block} {u v : State} (hheader : header s = (.anonymous, u))
    (hblock : block statement .file u = (body, v)) (hplain : v.symbols.OnlyVariables) :
    procedure s = ((.anonymous, body), v) := by
  unfold procedure
  rw [step_bind hheader, step_bind hblock]
  refine (step_bind (p := MonadState.get) (a := v) rfl).trans ?_
  rw [hplain.unresolvedLabels]
  rfl

/-- **A procedure gives back the block that it was written from**, without a header and with nothing
    reported. -/
theorem run_procedure (htail : ∀ t ∈ tail.head?, t.kind = .endOfFile) {body : Block}
    (hbody : ∀ st ∈ body, st.Structured false) (h : Facing tail depth (Block.marks body) s) :
    ∃ body' u, procedure s = ((.anonymous, body'), u) ∧
      Block.eraseSpans body' = Block.eraseSpans body ∧ u.diagnostics = #[] := by
  have hkind (u : State) (hu : Facing tail depth (Block.marks body) u) :
      u.current.kind = .endOfFile ∨ OpensWell (Block.marks body) := by
    cases body with
    | nil => exact Or.inl (hu.current_of_nil htail)
    | cons st body => exact Or.inr (OpensWell.append (hbody st List.mem_cons_self).opens _)
  obtain ⟨u, hheader, hu⟩ := run_header hkind h
  have hu : Facing tail depth (List.replicate 0 .newline ++ (Block.marks body ++ [])) u := by
    rw [List.append_nil]
    exact hu
  obtain ⟨body', v, hblock, hsame, hv⟩ := run_block (p := statement) htail .file rfl
    (fun h : false = true => absurd h Bool.false_ne_true) hbody
    (fun st hst => reads_statement htail (hbody st hst)) 0 hu
  exact ⟨body', v, procedure_of_block hheader hblock hv.plain, hsame, hv.diagnostics⟩

end BasicCheck.Parse

namespace BasicCheck

open Parse

/-- **A block that is written as tokens is read back**: a procedure over its tokens has this block as its
    body, up to spans, and no diagnostics, however deep its statements nest. -/
theorem Procedure.ofTokens_marks {body : Block} (hbody : ∀ st ∈ body, st.Structured false)
    {tokens : List Token} (hspelled : List.Forall₂ Mark.Spelled (Block.marks body) tokens)
    {tail : List Token} (htail : ∀ t ∈ tail.head?, t.kind = .endOfFile) (source : String)
    (all : List Token) (file : Nat) :
    Block.eraseSpans (Procedure.ofTokens (tokens ++ tail) [] source all file).body =
        Block.eraseSpans body ∧
      (Procedure.ofTokens (tokens ++ tail) [] source all file).diagnostics = [] := by
  have hfacing : Facing tail 0 (Block.marks body) (.opening (tokens ++ tail) []) :=
    ⟨⟨tokens, rfl, hspelled⟩, rfl, rfl, SymbolTable.means_empty, rfl⟩
  obtain ⟨body', u, hrun, hsame, hdiagnostics⟩ := run_procedure htail hbody hfacing
  unfold Procedure.ofTokens
  rw [hrun]
  refine ⟨hsame, ?_⟩
  show u.diagnostics.toList.mergeSort _ = []
  rw [hdiagnostics]
  exact List.mergeSort_nil

/-- A decision within a case: its `end` closes the arm, the next one the choice. -/
theorem Procedure.ofTokens_marks_endCase :
    let tokens : List Token :=
      [⟨.keyword .BEGIN, "begin", .blank, false⟩, ⟨.keyword .CASE, "case", .blank, false⟩,
        ⟨.newline, "\n", .blank, false⟩, ⟨.keyword .CASE, "case", .blank, false⟩,
        ⟨.number, "1", .blank, false⟩, ⟨.newline, "\n", .blank, false⟩,
        ⟨.keyword .IF, "if", .blank, false⟩, ⟨.ident, "x", .blank, false⟩,
        ⟨.keyword .THEN, "then", .blank, false⟩, ⟨.newline, "\n", .blank, false⟩,
        ⟨.keyword .NULL, "null", .blank, false⟩, ⟨.newline, "\n", .blank, false⟩,
        ⟨.keyword .END, "end", .blank, false⟩, ⟨.newline, "\n", .blank, false⟩,
        ⟨.keyword .END, "end", .blank, false⟩, ⟨.keyword .CASE, "case", .blank, false⟩,
        ⟨.newline, "\n", .blank, false⟩]
    let found := Procedure.ofTokens (tokens ++ [.endAt .blank]) [] "" [] 0
    Block.eraseSpans found.body =
        [.choice [.mk (.number "1" .blank)
          [.decision (.condition (.variable ⟨"x", .reference, .blank⟩))
            (some [.action .null .blank]) none .blank] .blank] .blank] ∧
      found.diagnostics = [] := by
  intro tokens found
  have hnull : ∀ st ∈ [Statement.action .null .blank], st.Structured false := by
    intro st hst
    rw [List.mem_singleton.mp hst]
    exact .null .blank
  have hdecision : ∀ st ∈ [Statement.decision (.condition (.variable ⟨"x", .reference, .blank⟩))
      (some [.action .null .blank]) none .blank], st.Structured false := by
    intro st hst
    rw [List.mem_singleton.mp hst]
    refine .decision .blank (.variable rfl) ⟨_, List.mem_singleton_self _, List.cons_ne_nil _ _⟩ ?_
      nofun
    intro arm harm
    obtain rfl := Option.mem_some_iff.mp harm
    exact hnull
  have hchoice : ∀ st ∈ [Statement.choice [.mk (.number "1" .blank)
      [.decision (.condition (.variable ⟨"x", .reference, .blank⟩)) (some [.action .null .blank]) none
        .blank] .blank] .blank], st.Structured false := by
    intro st hst
    rw [List.mem_singleton.mp hst]
    refine .choice .blank (fun arm harm => ?_) fun arm harm => ?_
    · rw [List.mem_singleton.mp harm]
      exact .number "1" .blank
    · rw [List.mem_singleton.mp harm]
      exact hdecision
  have hspelled : List.Forall₂ Mark.Spelled (Block.marks [.choice [.mk (.number "1" .blank)
      [.decision (.condition (.variable ⟨"x", .reference, .blank⟩)) (some [.action .null .blank]) none
        .blank] .blank] .blank]) tokens :=
    .cons rfl (.cons rfl (.cons rfl (.cons rfl (.cons ⟨.inl rfl, rfl⟩ (.cons rfl (.cons rfl
      (.cons ⟨rfl, rfl⟩ (.cons rfl (.cons rfl (.cons rfl (.cons rfl (.cons rfl (.cons rfl (.cons rfl
        (.cons rfl (.cons rfl .nil))))))))))))))))
  have htail : ∀ t ∈ [Token.endAt .blank].head?, t.kind = .endOfFile := by
    intro t ht
    obtain rfl := Option.mem_some_iff.mp ht
    rfl
  exact Procedure.ofTokens_marks hchoice hspelled htail "" [] 0

end BasicCheck
