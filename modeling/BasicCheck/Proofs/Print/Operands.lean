import BasicCheck.Proofs.Print.Ladder

/-!
# Reading the words of operands

Lists in parentheses, brackets and angle brackets are read if their items are; behind a name every `<`
opens an index list here, so that the attempt at one always succeeds (`run_angleIndexes?`). An operand
starts with a literal, a name, a call or a parenthesis and goes on with suffixes, one turn of a loop for
each (`comes_substring`, `comes_arrayIndex`).
-/

namespace BasicCheck.Parse

variable {tail : List Token} {primary : Parser Expr} {es : List Expr} {rest : List Word} {s : State}

/-- Ahead of a word with a token of its own: what the next token is, and the state behind it. -/
theorem Ahead.next_kind {w : Word} {ws : List Word} {k : Kind} (h : Ahead tail (w :: ws) s)
    (hw : w ≠ .closeAngle) (hkind : ∀ t : Token, w.Spelled t → t.kind = k) :
    ∃ t u, s.current = t ∧ t.kind = k ∧ s.advance = (t, u) ∧ Ahead tail ws u := by
  obtain ⟨t, u, hspelled, hcurrent, hadvance, hrest⟩ := h.next hw
  exact ⟨t, u, hcurrent, hkind t hspelled, hadvance, hrest⟩

/-! ## 1. Lists -/

/-- What starts an expression closes no list. -/
theorem Ahead.kind_ne_rightParen {ws : List Word} (h : Ahead tail ws s) (hws : StartsWell ws) :
    s.current.kind ≠ .rightParen := by
  obtain ⟨w, rest, rfl, hw⟩ := hws
  have hne : w ≠ .closeAngle := by
    rintro rfl
    exact hw
  obtain ⟨t, u, hspelled, hcurrent, -, -⟩ := h.next hne
  rw [hcurrent]
  intro hkind
  cases w with
  | name text => exact absurd (hspelled.1.symm.trans hkind) nofun
  | number text =>
    rcases hspelled.1 with hnumber | hnumber <;> exact absurd (hnumber.symm.trans hkind) nofun
  | negative | leftParen => exact absurd ((show t.kind = _ from hspelled).symm.trans hkind) nofun
  | _ => exact hw

/-- **Arguments in parentheses**, any number of them. -/
theorem run_argumentsOver (hprintable : ∀ e ∈ es, e.Printable)
    (hitems : ∀ e ∈ es, Reads tail 1 (expressionOver primary) (bracketed 1 e e.words) e)
    (h : Ahead tail (.leftParen :: (commas (wordsOfAll 1 es) ++ .rightParen :: rest)) s) :
    ∃ es' u, argumentsOver primary s = (.ok es', u) ∧
      es'.map Expr.eraseSpans = es.map Expr.eraseSpans ∧ Ahead tail rest u := by
  obtain ⟨t, u, hcurrent, hkind, hadvance, hinner⟩ := h.next_kind nofun fun _ ht => ht
  have hopen : expect .leftParen s = (.ok t, u) := expect_of_eq (hcurrent ▸ hkind) hadvance
  unfold argumentsOver
  rw [run_bind (run_discard hopen), run_after (sees_eq u .rightParen)]
  have hclose {v : State} (hv : Ahead tail (.rightParen :: rest) v) :
      ∃ w x, expect .rightParen v = (.ok w, x) ∧ Ahead tail rest x := by
    obtain ⟨t', x, hcurrent', hkind', hadvance', hrest⟩ := hv.next_kind nofun fun _ ht => ht
    exact ⟨t', x, expect_of_eq (hcurrent' ▸ hkind') hadvance', hrest⟩
  cases es with
  | nil =>
    have hkind' : u.current.kind = .rightParen := by
      obtain ⟨t', x, hcurrent', hkind', -, -⟩ := hinner.next_kind nofun fun _ ht => ht
      rw [hcurrent', hkind']
    obtain ⟨t', x, hexpect, hrest⟩ := hclose hinner
    refine ⟨[], x, ?_, rfl, hrest⟩
    rw [hkind', beq_self_eq_true, if_pos rfl]
    exact (run_bind (run_discard hexpect)).trans rfl
  | cons e es =>
    have hstarts : StartsWell (commas (wordsOfAll 1 (e :: es)) ++ .rightParen :: rest) :=
      (((hprintable e List.mem_cons_self).startsWell.bracketed 1).append _).append _
    obtain ⟨es', v, hrun, hsame, hmore⟩ :=
      run_commaList (w := .rightParen) trivial trivial (List.cons_ne_nil e es) hitems hinner
    obtain ⟨t', x, hexpect, hrest⟩ := hclose hmore
    refine ⟨es', x, ?_, hsame, hrest⟩
    rw [beq_eq_false_iff_ne.mpr (hinner.kind_ne_rightParen hstarts), if_neg Bool.false_ne_true]
    exact (run_bind hrun).trans ((run_bind (run_discard hexpect)).trans rfl)

/-- **One or two indexes in brackets.** -/
theorem run_substringOf (hsome : es ≠ []) (hfew : es.length ≤ 2)
    (hitems : ∀ e ∈ es, Reads tail 1 (expressionOver primary) (bracketed 1 e e.words) e)
    (h : Ahead tail (.leftBracket :: (commas (wordsOfAll 1 es) ++ .rightBracket :: rest)) s)
    (base : Expr) : ∃ es' span u, substringOf primary base s = (.ok (.substring base es' span), u) ∧
      es'.map Expr.eraseSpans = es.map Expr.eraseSpans ∧ Ahead tail rest u := by
  obtain ⟨t, u, hcurrent, hkind, hadvance, hinner⟩ := h.next_kind nofun fun _ ht => ht
  obtain ⟨es', v, hrun, hsame, hmore⟩ :=
    run_commaList (w := .rightBracket) trivial trivial hsome hitems hinner
  obtain ⟨t', x, hcurrent', hkind', hadvance', hrest⟩ := hmore.next_kind nofun fun _ ht => ht
  have hlength : es'.length ≤ 2 := by
    rw [← List.length_map (f := Expr.eraseSpans), hsame, List.length_map]
    exact hfew
  refine ⟨es', base.span.join x.previous.span, x, ?_, hsame, hrest⟩
  unfold substringOf
  rw [run_bind (run_discard (run_lift (p := advance) hadvance)), run_bind hrun,
    run_bind (run_discard (expect_of_eq (hcurrent' ▸ hkind') hadvance')),
    run_after (spanFrom_eq x base.span), if_neg (Nat.not_lt.mpr hlength)]
  rfl

/-- **Up to three indexes in angle brackets**: the attempt at them succeeds. -/
theorem run_angleIndexes? (hsome : es ≠ []) (hfew : es.length ≤ 3)
    (hitems : ∀ e ∈ es, Reads tail 3 (concatenations primary) (bracketed 3 e e.words) e)
    (h : Ahead tail (.openAngle :: (commas (wordsOfAll 3 es) ++ .closeAngle :: rest)) s)
    (base : Expr) : ∃ es' u, angleIndexes? primary base s = (some es', u) ∧
      es'.map Expr.eraseSpans = es.map Expr.eraseSpans ∧ Ahead tail rest u := by
  obtain ⟨t, u, hcurrent, hkind, hadvance, hinner⟩ := h.next_kind nofun fun _ ht => ht
  obtain ⟨es', v, hrun, hsame, hmore⟩ :=
    run_commaList (w := .closeAngle) trivial (Nat.lt_succ_self 2) hsome hitems hinner
  obtain ⟨x, hclose, hrest⟩ := hmore.closeAngle
  have hlength : es'.length ≤ 3 := by
    rw [← List.length_map (f := Expr.eraseSpans), hsame, List.length_map]
    exact hfew
  have hclosed : closedIndexes? primary s = (some es', x) := by
    unfold closedIndexes?
    rw [step_bind (step_discard (p := advance) hadvance)]
    refine (step_bind hrun).trans ?_
    exact (step_bind hclose).trans rfl
  refine ⟨es', x, ?_, hsame, hrest⟩
  unfold angleIndexes?
  rw [step_bind (rfl : (MonadState.get : Step State) s = (s, s))]
  refine (step_bind hclosed).trans ?_
  dsimp only
  rw [if_neg (Nat.not_lt.mpr hlength)]
  rfl

/-! ## 2. Suffixes -/

/-- A turn of the loop over suffixes at a `<`. -/
def indexTurn (primary : Parser Expr) (e : Expr) : Parser (Turn Expr Expr) := do
  if e.isIndexable then
    match ← angleIndexes? primary e with
    | some indexes => return .again (.arrayIndex e indexes (← spanFrom e.span))
    | none => return .done e
  else return .done e

/-- One turn of the loop over suffixes. -/
def suffixTurn (primary : Parser Expr) (e : Expr) : Parser (Turn Expr Expr) := do
  match ← currentKind with
  | .less => indexTurn primary e
  | .leftBracket => return .again (← substringOf primary e)
  | .arrow => return .again (← memberOf primary e)
  | _ => return .done e

theorem suffixes_eq (primary : Parser Expr) : suffixes primary = tryLoop (suffixTurn primary) := rfl

theorem isIndexable_of_eraseSpans {e e' : Expr} (hnamed : e.IsNamed)
    (hsame : e'.eraseSpans = e.eraseSpans) : e'.isIndexable = true := by
  cases e with
  | «variable» ident =>
    cases e' with
    | «variable» ident' => rfl
    | matrixIndex name row col span => rfl
    | call name args span => rfl
    | _ => cases hsame
  | call name args span =>
    cases e' with
    | «variable» ident' => rfl
    | matrixIndex name row col span => rfl
    | call name args span => rfl
    | _ => cases hsame
  | _ => exact hnamed.elim

section Suffixes

variable {p : Parser Expr} {ws : List Word} {base : Expr}

/-- The loop over suffixes goes on over a substring. -/
theorem Comes.substring (h : Comes tail 9 p (suffixTurn primary) ws base) (hsome : es ≠ [])
    (hfew : es.length ≤ 2) (span : Span)
    (hitems : ∀ e ∈ es, Reads tail 1 (expressionOver primary) (bracketed 1 e e.words) e) :
    Comes tail 9 p (suffixTurn primary)
      (ws ++ .leftBracket :: (commas (wordsOfAll 1 es) ++ [.rightBracket]))
      (.substring base es span) := by
  refine h.turn (Nat.lt_succ_self 8) fun rest u e' hahead hstop hsame => ?_
  simp only [List.cons_append, List.append_assoc, List.nil_append] at hahead
  obtain ⟨es', span', v, hrun, hsames, hrest⟩ := run_substringOf hsome hfew hitems hahead e'
  obtain ⟨t, x, hcurrent, hkind, -, -⟩ := hahead.next_kind nofun fun _ ht => ht
  refine ⟨.substring e' es' span', v, ?_, ?_, hrest⟩
  · unfold suffixTurn
    rw [run_after (currentKind_eq u), hcurrent, hkind]
    exact (run_bind hrun).trans rfl
  · simp only [Expr.eraseSpans, Expr.eraseAllSpans_eq_map, hsame, hsames]

/-- The loop over suffixes goes on over an index list behind a name. -/
theorem Comes.arrayIndex (h : Comes tail 9 p (suffixTurn primary) ws base) (hnamed : base.IsNamed)
    (hsome : es ≠ []) (hfew : es.length ≤ 3) (span : Span)
    (hitems : ∀ e ∈ es, Reads tail 3 (concatenations primary) (bracketed 3 e e.words) e) :
    Comes tail 9 p (suffixTurn primary)
      (ws ++ .openAngle :: (commas (wordsOfAll 3 es) ++ [.closeAngle]))
      (.arrayIndex base es span) := by
  refine h.turn (Nat.lt_succ_self 8) fun rest u e' hahead hstop hsame => ?_
  simp only [List.cons_append, List.append_assoc, List.nil_append] at hahead
  obtain ⟨es', v, hrun, hsames, hrest⟩ := run_angleIndexes? hsome hfew hitems hahead e'
  obtain ⟨t, x, hcurrent, hkind, -, -⟩ := hahead.next_kind nofun fun _ ht => ht
  refine ⟨.arrayIndex e' es' (e'.span.join v.previous.span), v, ?_, ?_, hrest⟩
  · unfold suffixTurn
    rw [run_after (currentKind_eq u), hcurrent, hkind]
    dsimp only
    unfold indexTurn
    rw [if_pos (isIndexable_of_eraseSpans hnamed hsame)]
    refine (run_after hrun).trans ?_
    exact (run_after (spanFrom_eq v e'.span)).trans rfl
  · simp only [Expr.eraseSpans, Expr.eraseAllSpans_eq_map, hsame, hsames]

/-- The loop over suffixes starts with what it is given. -/
theorem comes_suffixes {e : Expr} (h : ∀ (rest : List Word) (s : State), Ahead tail (ws ++ rest) s →
      Stop 9 rest → ∃ e' u, p s = suffixes primary e' u ∧ e'.eraseSpans = e.eraseSpans ∧
        Ahead tail rest u) : Comes tail 9 p (suffixTurn primary) ws e := by
  intro rest s hahead hstop
  obtain ⟨e', u, hrun, hsame, hrest⟩ := h rest s hahead hstop
  refine ⟨e', u, u.size + 1, ?_, Nat.lt_succ_of_le hrest.length_le_size, hsame, hrest⟩
  rw [hrun, suffixes_eq]
  rfl

/-- The loop over suffixes ends where none follows. -/
theorem Comes.reads_suffixes {behind : Token} {more : List Token} {e : Expr} {level : Nat}
    (hbehind : Closes 1 behind.kind) (hlevel : 1 ≤ level) (hlevel' : level ≤ 8)
    (h : Comes (behind :: more) 9 p (suffixTurn primary) ws e) :
    Reads (behind :: more) level p ws e := by
  refine h.reads (by omega) fun rest u e' hahead hstop => ?_
  have hcloses := hahead.closes hbehind hstop hlevel
  unfold suffixTurn
  rw [run_after (currentKind_eq u)]
  generalize u.current.kind = k at hcloses
  split
  · exact absurd rfl (hcloses.less hlevel')
  · exact absurd rfl (hcloses.bracket hlevel')
  · exact absurd rfl hcloses.arrow
  · rfl

end Suffixes

end BasicCheck.Parse
