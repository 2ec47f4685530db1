import BasicCheck.Proofs.Print.Operands

/-!
# Expressions are read as they are written

An expression is written on its level (`Expr.words`), and where that is lower than the one that is asked
for, in parentheses. By induction on the expression it is read on every level, as the first operand of a
chain and in front of suffixes (`Readable`); operands nest no deeper than they have words, so what is
left unread always allows one more layer (`Enough`). The parser then gives every expression back, with
nothing reported (`expression_words`).
-/

namespace BasicCheck.Parse

variable {tail : List Token} {primary : Parser Expr}

/-! ## 1. The starts of operands -/

theorem comes_number (text : String) (span : Span) :
    Comes tail 9 (primaryLayer primary) (suffixTurn primary) [.number text] (.number text span) := by
  refine comes_suffixes fun rest s hahead hstop => ?_
  obtain ⟨t, u, ⟨hkind, htext⟩, hcurrent, hadvance, hrest⟩ := hahead.next nofun
  refine ⟨.number t.text t.span, u, ?_, ?_, hrest⟩
  · unfold primaryLayer
    rw [run_after (current_eq s), hcurrent]
    rcases hkind with hkind | hkind <;> rw [hkind] <;>
      exact run_bind (run_discard (run_lift (p := advance) hadvance))
  · rw [Expr.eraseSpans, Expr.eraseSpans, htext]

/-- Something in parentheses. -/
theorem comes_paren {ws : List Word} {e : Expr}
    (h : Reads tail 1 (expressionOver primary) ws e) :
    Comes tail 9 (primaryLayer primary) (suffixTurn primary) (.leftParen :: (ws ++ [.rightParen]))
      e := by
  refine comes_suffixes fun rest s hahead hstop => ?_
  simp only [List.cons_append, List.append_assoc, List.nil_append] at hahead
  obtain ⟨t, u, hcurrent, hkind, hadvance, hinner⟩ := hahead.next_kind nofun fun _ ht => ht
  obtain ⟨e', v, hrun, hsame, hmore⟩ := h _ u hinner fun w hw => by
    cases hw
    trivial
  obtain ⟨t', x, hcurrent', hkind', hadvance', hrest⟩ := hmore.next_kind nofun fun _ ht => ht
  refine ⟨e', x, ?_, hsame, hrest⟩
  unfold primaryLayer
  rw [run_after (current_eq s), hcurrent, hkind]
  dsimp only
  rw [run_bind (run_discard (run_lift (p := advance) hadvance)), run_bind hrun]
  exact run_bind (run_discard (expect_of_eq (hcurrent' ▸ hkind') hadvance'))

/-- A call of an intrinsic function. -/
theorem comes_call {name : Ident} {args : List Expr} (span : Span)
    (hrole : name.role = .functionName) (hname : Builtin.isIntrinsic name.name = true)
    (hprintable : ∀ e ∈ args, e.Printable)
    (hargs : ∀ e ∈ args, Reads tail 1 (expressionOver primary) (bracketed 1 e e.words) e) :
    Comes tail 9 (primaryLayer primary) (suffixTurn primary)
      (.name name.name :: .leftParen :: (commas (wordsOfAll 1 args) ++ [.rightParen]))
      (.call name args span) := by
  refine comes_suffixes fun rest s hahead hstop => ?_
  simp only [List.cons_append, List.append_assoc, List.nil_append] at hahead
  obtain ⟨t, u, ⟨hkind, htext⟩, hcurrent, hadvance, hinner⟩ := hahead.next nofun
  obtain ⟨known, v, hnote, hnoted⟩ := hinner.noteIfKnown .function t
  obtain ⟨args', x, hrun, hsame, hrest⟩ := run_argumentsOver hprintable hargs hnoted
  obtain ⟨t', y, hcurrent', hkind', -, -⟩ := hinner.next_kind nofun fun _ ht => ht
  refine ⟨.call ⟨t.text, .functionName, t.span⟩ args' (t.span.join x.previous.span), x, ?_, ?_, hrest⟩
  · have hnamed : named primary s = (.ok (.call ⟨t.text, .functionName, t.span⟩ args'
        (t.span.join x.previous.span)), x) := by
      unfold named
      rw [run_after (p := advance) hadvance, run_after (sees_eq u .leftParen), hcurrent', hkind',
        beq_self_eq_true, if_pos rfl,
        run_get, hinner.plain.isMatrix, if_neg Bool.false_ne_true, run_after hnote, htext, hname,
        Bool.not_true, Bool.and_false, if_neg Bool.false_ne_true]
      exact (run_bind hrun).trans (run_after (spanFrom_eq x t.span))
    unfold primaryLayer
    rw [run_after (current_eq s), hcurrent, hkind]
    exact run_bind hnamed
  · simp only [Expr.eraseSpans, Expr.eraseAllSpans_eq_map, hsame, htext, hrole]

/-- A variable; no parenthesis follows. -/
theorem comes_variable {behind : Token} {more : List Token} (hbehind : Closes 1 behind.kind)
    {ident : Ident} (hrole : ident.role = .reference) :
    Comes (behind :: more) 9 (primaryLayer primary) (suffixTurn primary) [.name ident.name]
      (.variable ident) := by
  refine comes_suffixes fun rest s hahead hstop => ?_
  obtain ⟨t, u, ⟨hkind, htext⟩, hcurrent, hadvance, hnext⟩ := hahead.next nofun
  have hcloses := hnext.closes hbehind hstop (by decide)
  obtain ⟨known, v, hnote, hnoted⟩ := hnext.noteIfKnown .equate t
  have hnamed : ∃ x, named primary s = (.ok (.variable ⟨t.text, .reference, t.span⟩), x) ∧
      Ahead (behind :: more) rest x := by
    unfold named
    rw [run_after (p := advance) hadvance, run_after (sees_eq u .leftParen),
      beq_eq_false_iff_ne.mpr hcloses.paren, if_neg Bool.false_ne_true, run_after hnote]
    cases known with
    | true => exact ⟨v, rfl, hnoted⟩
    | false =>
      obtain ⟨x, hvariable, hrest⟩ := hnoted.noteVariable t
      exact ⟨x, run_after hvariable, hrest⟩
  obtain ⟨x, hrun, hrest⟩ := hnamed
  refine ⟨.variable ⟨t.text, .reference, t.span⟩, x, ?_, ?_, hrest⟩
  · unfold primaryLayer
    rw [run_after (current_eq s), hcurrent, hkind]
    exact run_bind hrun
  · simp only [Expr.eraseSpans, htext, hrole]

/-- A negation; its operand takes all suffixes. -/
theorem reads_negate {ws : List Word} {e : Expr} (span : Span) (h : Reads tail 7 primary ws e) :
    Reads tail 7 (primaryLayer primary) (.negative :: ws) (.negate e span) := by
  intro rest s hahead hstop
  obtain ⟨t, u, hcurrent, hkind, hadvance, hinner⟩ := hahead.next_kind nofun fun _ ht => ht
  obtain ⟨e', v, hrun, hsame, hrest⟩ := h rest u hinner hstop
  refine ⟨.negate e' (t.span.join e'.span), v, ?_, ?_, hrest⟩
  · unfold primaryLayer
    rw [run_after (current_eq s), hcurrent, hkind]
    dsimp only
    rw [run_bind (run_discard (run_lift (p := advance) hadvance)), run_bind hrun]
    rfl
  · rw [Expr.eraseSpans, Expr.eraseSpans, hsame]

/-! ## 2. Nesting -/

/-- Ahead of up to a given number of words, an operand may be nested deep enough. -/
def Enough (tail : List Token) (primary : Parser Expr) (n : Nat) : Prop :=
  ∀ (ws rest : List Word) (s : State), ws.length ≤ n → Ahead tail (ws ++ rest) s →
    ∃ m, ws.length ≤ m ∧ primary s = nestUpTo primaryLayer m s

theorem Enough.mono {n n' : Nat} (h : Enough tail primary n) (hle : n' ≤ n) :
    Enough tail primary n' :=
  fun ws rest s hws hahead => h ws rest s (Nat.le_trans hws hle) hahead

theorem enough_nestUpTo (n : Nat) : Enough tail (nestUpTo primaryLayer n) n :=
  fun _ _ _ hws _ => ⟨n, hws, rfl⟩

theorem enough_primary (n : Nat) : Enough tail Parse.primary n := by
  intro ws rest s _ hahead
  refine ⟨s.size + 1, ?_, nest_eq primaryLayer⟩
  have hsize := hahead.length_le_size
  rw [List.length_append] at hsize
  omega

/-- What every layer that is deep enough reads, an operand reads. -/
theorem reads_of_layers {ws : List Word} {e : Expr} (hsome : ws ≠ [])
    (henough : Enough tail primary ws.length) (h : ∀ m, ws.length ≤ m + 1 →
      Reads tail 7 (primaryLayer (nestUpTo primaryLayer m)) ws e) : Reads tail 7 primary ws e := by
  intro rest s hahead hstop
  obtain ⟨m, hm, hrun⟩ := henough ws rest s (Nat.le_refl _) hahead
  obtain ⟨m, rfl⟩ := Nat.exists_eq_succ_of_ne_zero (n := m) fun hzero => by
    rw [hzero] at hm
    exact hsome (List.length_eq_zero_iff.mp (Nat.le_zero.mp hm))
  rw [hrun, Nat.succ_eq_add_one, nestUpTo_succ]
  exact h m hm rest s hahead hstop

/-! ## 3. Expressions on all levels -/

/-- An expression is read wherever it is written: where a level is asked for, as the first operand of
    a chain, and in front of a suffix. -/
structure Readable (tail : List Token) (e : Expr) : Prop where
  onLevel {primary : Parser Expr} {n level : Nat} : Enough tail primary n →
    (bracketed level e e.words).length ≤ n → 1 ≤ level → level ≤ 7 →
    Reads tail level (ladder primary level) (bracketed level e e.words) e
  inChain {primary : Parser Expr} {n level : Nat} : Enough tail primary n →
    (bracketed level e e.words).length ≤ n → 1 ≤ level → level ≤ 6 →
    Comes tail (level + 1) (chain (ladder primary (level + 1)) (operatorAt level))
      (chainTurn (ladder primary (level + 1)) (operatorAt level)) (bracketed level e e.words) e
  beforeSuffix {m : Nat} : (bracketed 8 e e.words).length ≤ m + 1 →
    Comes tail 9 (primaryLayer (nestUpTo primaryLayer m)) (suffixTurn (nestUpTo primaryLayer m))
      (bracketed 8 e e.words) e

section RoundTrip

variable {behind : Token} {more : List Token} (hbehind : Closes 1 behind.kind) {e : Expr}

include hbehind

/-- **An expression that is read without parentheses where its level allows it is read wherever it is
    written.** -/
theorem Readable.of_bare {top : Nat} (htop : top = min e.level 7)
    (hone : 1 ≤ top)
    (hbare : ∀ {primary : Parser Expr} {n : Nat}, Enough (behind :: more) primary n →
      e.words.length ≤ n → Reads (behind :: more) top (ladder primary top) e.words e)
    (hchain : top ≤ 6 → ∀ {primary : Parser Expr} {n : Nat}, Enough (behind :: more) primary n →
      e.words.length ≤ n → Comes (behind :: more) (top + 1)
        (chain (ladder primary (top + 1)) (operatorAt top))
        (chainTurn (ladder primary (top + 1)) (operatorAt top)) e.words e)
    (hsuffix : 8 ≤ e.level → ∀ {m : Nat}, e.words.length ≤ m + 1 →
      Comes (behind :: more) 9 (primaryLayer (nestUpTo primaryLayer m))
        (suffixTurn (nestUpTo primaryLayer m)) e.words e) : Readable (behind :: more) e := by
  -- in parentheses an expression is an operand, and what ends it there is the parenthesis
  have hparen {m : Nat} (hm : e.words.length + 2 ≤ m + 1) :
      Comes (behind :: more) 9 (primaryLayer (nestUpTo primaryLayer m))
        (suffixTurn (nestUpTo primaryLayer m)) (.leftParen :: (e.words ++ [.rightParen])) e := by
    refine comes_paren ?_
    rw [expressionOver_eq_ladder]
    exact (hbare (enough_nestUpTo m) (by omega)).of_le hbehind (Nat.le_refl 1) hone (by omega)
  have hlength : (Word.leftParen :: (e.words ++ [.rightParen])).length = e.words.length + 2 := by
    simp
  have hoperand {primary : Parser Expr} {n : Nat} (henough : Enough (behind :: more) primary n)
      (hn : e.words.length + 2 ≤ n) : Reads (behind :: more) 7 (ladder primary 7)
        (.leftParen :: (e.words ++ [.rightParen])) e := by
    refine reads_of_layers (List.cons_ne_nil _ _) (henough.mono (hlength ▸ hn)) fun m hm => ?_
    exact (hparen (hlength ▸ hm)).reads_suffixes hbehind (by decide) (by decide)
  -- in each place the expression is in parentheses exactly if its level is below that of the place
  refine ⟨?_, ?_, ?_⟩
  · intro primary n level henough hn hlevel hlevel'
    rcases Nat.lt_or_ge e.level level with hlow | hhigh
    · rw [bracketed_of_lt hlow] at hn ⊢
      exact (hoperand henough (hlength ▸ hn)).of_le hbehind hlevel hlevel' (Nat.le_refl 7)
    · rw [bracketed_of_le hhigh] at hn ⊢
      exact (hbare henough hn).of_le hbehind hlevel (by omega) (by omega)
  · intro primary n level henough hn hlevel hlevel'
    rcases Nat.lt_or_ge e.level level with hlow | hhigh
    · rw [bracketed_of_lt hlow] at hn ⊢
      have hreads := hoperand henough (hlength ▸ hn)
      exact comes_chain (hreads.of_le hbehind (by omega) (by omega) (Nat.le_refl 7))
    · rw [bracketed_of_le hhigh] at hn ⊢
      by_cases heq : level = top
      · subst heq
        exact hchain hlevel' henough hn
      · exact comes_chain ((hbare henough hn).of_le hbehind (by omega) (by omega) (by omega))
  · intro m hm
    rcases Nat.lt_or_ge e.level 8 with hlow | hhigh
    · rw [bracketed_of_lt hlow] at hm ⊢
      exact hparen (hlength ▸ hm)
    · rw [bracketed_of_le hhigh] at hm ⊢
      exact hsuffix hhigh hm

/-- What suffixes may follow is read everywhere. -/
theorem Readable.of_comes (hstarts : StartsWell e.words) (hlevel : e.level = 8)
    (h : ∀ {m : Nat}, e.words.length ≤ m + 1 →
      Comes (behind :: more) 9 (primaryLayer (nestUpTo primaryLayer m))
        (suffixTurn (nestUpTo primaryLayer m)) e.words e) : Readable (behind :: more) e := by
  have hsome : e.words ≠ [] := by
    obtain ⟨w, rest, hwords, -⟩ := hstarts
    rw [hwords]
    exact List.cons_ne_nil _ _
  refine Readable.of_bare hbehind (by rw [hlevel]) (by decide) (fun henough hn => ?_)
    (fun hlow => absurd hlow (by decide)) fun _ _ hm => h hm
  refine reads_of_layers hsome (henough.mono hn) fun m hm => ?_
  exact (h hm).reads_suffixes hbehind (by decide) (by decide)

omit hbehind in
/-- No item of a list is longer than the list. -/
theorem length_bracketed_le {es : List Expr} (level : Nat) (he : e ∈ es) :
    (bracketed level e e.words).length ≤ (commas (wordsOfAll level es)).length := by
  have hmem : ∀ {wss : List (List Word)} {ws : List Word}, ws ∈ wss →
      ws.length ≤ (commas wss).length := by
    intro wss ws hws
    cases wss with
    | nil => cases hws
    | cons first rest =>
      rw [commas, List.length_append]
      rcases List.mem_cons.mp hws with rfl | hws
      · exact Nat.le_add_right _ _
      · have hsub : (Word.comma :: ws).Sublist (rest.flatMap (.comma :: ·)) :=
          List.sublist_flatten_of_mem (List.mem_map_of_mem hws)
        have hlength := hsub.length_le
        rw [List.length_cons] at hlength
        omega
  refine hmem ?_
  rw [wordsOfAll_eq_map]
  exact List.mem_map_of_mem he

omit hbehind in
/-- The items of a list are read, where there is depth enough for all of it. -/
theorem readable_items {es : List Expr} {level m : Nat} (hes : ∀ e ∈ es, Readable (behind :: more) e)
    (hlevel : 1 ≤ level) (hlevel' : level ≤ 7) (hm : (commas (wordsOfAll level es)).length ≤ m) :
    ∀ e ∈ es, Reads (behind :: more) level (ladder (nestUpTo primaryLayer m) level)
      (bracketed level e e.words) e :=
  fun e he => (hes e he).onLevel (enough_nestUpTo m)
    (Nat.le_trans (length_bracketed_le level he) hm) hlevel hlevel'

/-- **Every expression that can be written is read wherever it is written**, in front of what cannot go
    on with it. -/
theorem Readable.of_printable (h : e.Printable) : Readable (behind :: more) e := by
  -- on the expression: what stands in front of a suffix or in brackets is read by the hypothesis for it
  induction h with
  | number text span =>
    exact Readable.of_comes hbehind ⟨_, _, rfl, trivial⟩ rfl fun _ => comes_number text span
  | «variable» ident hrole =>
    exact Readable.of_comes hbehind ⟨_, _, rfl, trivial⟩ rfl fun _ => comes_variable hbehind hrole
  | @negate inner span hinner ih =>
    have htop : 7 = min (Expr.negate inner span).level 7 := rfl
    refine Readable.of_bare hbehind htop (by decide) (fun henough hn => ?_)
      (fun hlow => absurd hlow (by decide)) fun hhigh => absurd hhigh (show ¬8 ≤ 7 by decide)
    refine reads_of_layers (List.cons_ne_nil _ _) (henough.mono hn) fun m hm => ?_
    exact reads_negate span
      (ih.onLevel (enough_nestUpTo m) (Nat.le_of_succ_le_succ hm) (by decide) (Nat.le_refl 7))
  | @binary op left right span hop hleft hright ihLeft ihRight =>
    have hone := op.one_le_level
    have hsix := op.level_le_six
    have htop : op.level = min (Expr.binary op left right span).level 7 := by
      rw [Expr.level]
      omega
    have hchain {primary : Parser Expr} {n : Nat} (henough : Enough (behind :: more) primary n)
        (hn : (Expr.binary op left right span).words.length ≤ n) :
        Comes (behind :: more) (op.level + 1)
          (chain (ladder primary (op.level + 1)) (operatorAt op.level))
          (chainTurn (ladder primary (op.level + 1)) (operatorAt op.level))
          (Expr.binary op left right span).words (.binary op left right span) := by
      rw [Expr.words, List.length_append, List.length_cons] at hn
      rw [Expr.words]
      exact (ihLeft.inChain henough (by omega) hone hsix).operator hop
        (ihRight.onLevel henough (by omega) (by omega) (by omega))
    refine Readable.of_bare hbehind htop hone (fun henough hn => ?_)
      (fun _ _ _ henough hn => hchain henough hn) fun hhigh => ?_
    · rw [ladder_eq _ hone hsix]
      exact (hchain henough hn).reads_chain hbehind hone hsix
    · rw [Expr.level] at hhigh
      omega
  | @call name args span hrole hname hargs ih =>
    refine Readable.of_comes hbehind ⟨_, _, rfl, trivial⟩ rfl fun hm => ?_
    simp only [Expr.words, List.length_cons, List.length_append, List.length_nil] at hm
    exact comes_call span hrole hname hargs
      (readable_items ih (Nat.le_refl 1) (by decide) (by omega))
  -- only a name can be indexed so, and a name is never written in parentheses
  | @arrayIndex base indexes span hnamed hbase hsome hfew hindexes ihBase ih =>
    have hbare : bracketed 8 base base.words = base.words := by
      cases base with
      | «variable» _ | call _ _ _ => rfl
      | _ => exact hnamed.elim
    refine Readable.of_comes hbehind (hbase.startsWell.append _) rfl fun {m} hm => ?_
    simp only [Expr.words, List.length_cons, List.length_append, List.length_nil] at hm
    have hcomes := ihBase.beforeSuffix (m := m) (by
      rw [hbare]
      omega)
    rw [hbare] at hcomes
    exact hcomes.arrayIndex hnamed hsome hfew span
      (readable_items ih (by decide) (by decide) (by omega))
  | @substring base indexes span hbase hsome hfew hindexes ihBase ih =>
    refine Readable.of_comes hbehind ((hbase.startsWell.bracketed 8).append _) rfl fun hm => ?_
    simp only [Expr.words, List.length_cons, List.length_append, List.length_nil] at hm
    exact (ihBase.beforeSuffix (by omega)).substring hsome hfew span
      (readable_items ih (Nat.le_refl 1) (by decide) (by omega))

omit hbehind in
/-- Levels start at one, where nothing is put in parentheses. -/
theorem bracketed_one (e : Expr) (ws : List Word) : bracketed 1 e ws = ws := by
  refine bracketed_of_le ?_ ws
  cases e with
  | binary op left right span => exact op.one_le_level
  | negate inner span => exact Nat.le_of_ble_eq_true rfl
  | _ => exact Nat.le_of_ble_eq_true rfl

/-- **Every expression that can be written is read** where an expression is asked for. -/
theorem reads_printable (h : e.Printable) : Reads (behind :: more) 1 expression e.words e := by
  have hlength := Nat.le_of_eq (congrArg List.length (bracketed_one e e.words))
  have hreadable : Readable (behind :: more) e := Readable.of_printable hbehind h
  have hreads := hreadable.onLevel (enough_primary e.words.length) hlength (Nat.le_refl 1)
    (by decide)
  rwa [bracketed_one] at hreads

end RoundTrip

/-! ## 4. The round trip -/

theorem ahead_initial {ws : List Word} {tokens tail : List Token} (h : Spells ws tokens) :
    Ahead tail ws (State.initial (tokens ++ tail)) :=
  ⟨⟨tokens, rfl, h⟩, rfl, SymbolTable.means_empty, rfl⟩

/-- **An expression that is written as tokens is read back**: in front of a line end the parser gives
    the same expression up to spans, stops at the line end and reports nothing, however the `>` of index
    lists and `=` behind them are put into tokens. -/
theorem expression_words {e : Expr} (h : e.Printable) {tokens : List Token}
    (hspells : Spells e.words tokens) {newline : Token} (hnewline : newline.kind = .newline)
    (more : List Token) :
    ∃ e' s, expression (State.initial (tokens ++ newline :: more)) = (.ok e', s) ∧
      e'.eraseSpans = e.eraseSpans ∧ s.current = newline ∧ s.diagnostics = #[] := by
  have hstop : Closes 1 newline.kind := hnewline ▸ closes_newline (Nat.le_refl 1)
  have hahead : Ahead (newline :: more) (e.words ++ [])
      (State.initial (tokens ++ newline :: more)) := by
    rw [List.append_nil]
    exact ahead_initial hspells
  obtain ⟨e', s, hrun, hsame, hrest⟩ := reads_printable hstop h [] _ hahead nofun
  refine ⟨e', s, hrun, hsame, ?_, hrest.diagnostics⟩
  obtain ⟨⟨ts, hunread, hnil⟩, -, -⟩ := hrest
  cases hnil
  rw [State.current_eq_headD, hunread]
  rfl

/-- `x<1>=2` with the `>=` in one token compares an element with a number. -/
theorem expression_words_closeEqual :
    ∃ e' s, expression (State.initial
        [⟨.ident, "x", .blank, false⟩, ⟨.less, "<", .blank, false⟩, ⟨.number, "1", .blank, false⟩,
          ⟨.greaterEqual, ">=", .blank, false⟩, ⟨.number, "2", .blank, false⟩,
          ⟨.newline, "\n", .blank, false⟩]) = (.ok e', s) ∧
      e'.eraseSpans = .binary .equal
        (.arrayIndex (.variable ⟨"x", .reference, .blank⟩) [.number "1" .blank] .blank)
        (.number "2" .blank) .blank ∧
      s.current.kind = .newline ∧ s.diagnostics = #[] := by
  have hone : ∀ index ∈ [Expr.number "1" .blank], index.Printable := by
    intro index hindex
    rw [List.mem_singleton.mp hindex]
    exact .number "1" .blank
  have hprintable : (Expr.binary .equal
      (.arrayIndex (.variable ⟨"x", .reference, .blank⟩) [.number "1" .blank] .blank)
      (.number "2" .blank) .blank).Printable :=
    .binary .blank (by decide) (.arrayIndex .blank trivial (.variable _ rfl) (List.cons_ne_nil _ _)
      (by decide) hone) (.number "2" .blank)
  have hspells : Spells
      [.name "x", .openAngle, .number "1", .closeAngle, .op .equal, .number "2"]
      [⟨.ident, "x", .blank, false⟩, ⟨.less, "<", .blank, false⟩, ⟨.number, "1", .blank, false⟩,
        ⟨.greaterEqual, ">=", .blank, false⟩, ⟨.number, "2", .blank, false⟩] :=
    .cons ⟨rfl, rfl⟩ (.cons rfl (.cons ⟨.inl rfl, rfl⟩
      (.closeEqual rfl rfl (.cons ⟨.inl rfl, rfl⟩ .nil))))
  have hnewline : Token.kind ⟨.newline, "\n", .blank, false⟩ = .newline := rfl
  obtain ⟨e', s, hrun, hsame, hcurrent, hdiagnostics⟩ :=
    expression_words hprintable hspells hnewline []
  exact ⟨e', s, hrun, hsame, by rw [hcurrent], hdiagnostics⟩

end BasicCheck.Parse
