import BasicCheck.Proofs.Print.RoundTrip
import BasicCheck.Proofs.Print.Statements

/-!
# Comparisons on one line

A comparison is read whatever its left side is, if that can be written and the right side is one token
(`run_comparison`): the left side comes to the operators of a comparison as to those of every other
level, and what stops behind the right side is only asked to go on with no operand (`Closes`). So **a
text of one line that decides by a comparison gives back its decision** from any tokens that spell it
(`Procedure.ofTokens_line`), wherever their signs were cut.
-/

namespace BasicCheck

/-! ## 1. An operand in one token -/

/-- The operand that a token is by itself. -/
def Token.operand? (t : Token) : Option Expr :=
  match t.kind with
  | .ident => some (.variable ⟨t.text, .reference, t.span⟩)
  | .number | .hexNumber => some (.number t.text t.span)
  | .string => some (.string (literalValue t.text) t.span)
  | _ => none

namespace Parse

variable {t stop : Token} {more : List Token} {e : Expr} {s : State}

/-- What is an operand by itself goes on with nothing. -/
theorem closes_of_operand? (h : t.operand? = some e) : Closes 1 t.kind := by
  unfold Token.operand? at h
  split at h
  case h_5 => cases h
  all_goals
    rename_i hkind
    rw [hkind]
    exact closes_of_ofKind?_eq_none rfl nofun nofun nofun (Nat.le_refl 1)

/-- Ahead of no words the tail comes next. -/
theorem Ahead.of_tail (h : Ahead (t :: more) [] s) :
    ∃ u, s.current = t ∧ s.advance = (t, u) ∧ Ahead more [] u := by
  obtain ⟨ts, hahead, hnil⟩ := h.tokens
  cases hnil
  exact h.of_cons (show s.ahead = t :: ([] ++ more) from hahead) .nil

/-- A token that is an operand by itself is read as that in front of what cannot go on with it. -/
theorem run_operand (ht : t.operand? = some e) (hstop : Closes 1 stop.kind)
    (h : Ahead (t :: stop :: more) [] s) :
    ∃ u, primary s = (.ok e, u) ∧ Ahead (stop :: more) [] u := by
  obtain ⟨u, hcurrent, hadvance, hu⟩ := h.of_tail
  have hkind {v : State} (hv : Ahead (stop :: more) [] v) : v.current.kind = stop.kind := by
    obtain ⟨w, hcurrent, -, -⟩ := hv.of_tail
    rw [hcurrent]
  have hsuffixes {v : State} (hv : Ahead (stop :: more) [] v) (inner : Parser Expr) :
      suffixes inner e v = (.ok e, v) :=
    suffixes_of_closes (show 1 ≤ 8 by decide) (hkind hv ▸ hstop)
  have hlayer : primary s = primaryLayer (nestUpTo primaryLayer s.size) s := nest_eq primaryLayer
  rw [hlayer]
  generalize nestUpTo primaryLayer s.size = inner
  unfold primaryLayer
  rw [run_after (current_eq s), hcurrent]
  -- a name is looked up first; the other operands are taken as they are
  unfold Token.operand? at ht
  split at ht
  case h_1 hident =>
    cases ht
    obtain ⟨known, v, hnote, hnoted⟩ := hu.noteIfKnown .equate t
    obtain ⟨x, hvariable, hx⟩ := hnoted.noteVariable t
    have hnamed : ∃ w, named inner s = (.ok (.variable ⟨t.text, .reference, t.span⟩), w) ∧
        Ahead (stop :: more) [] w := by
      unfold named
      rw [run_after (p := advance) hadvance, run_after (sees_eq u .leftParen), hkind hu,
        beq_eq_false_iff_ne.mpr hstop.paren, if_neg Bool.false_ne_true, run_after hnote]
      cases known with
      | true => exact ⟨v, rfl, hnoted⟩
      | false => exact ⟨x, run_after hvariable, hx⟩
    obtain ⟨w, hrun, hw⟩ := hnamed
    refine ⟨w, ?_, hw⟩
    rw [hident]
    exact (run_bind hrun).trans (hsuffixes hw inner)
  case h_5 => cases ht
  all_goals
    rename_i hkind
    cases ht
    refine ⟨u, ?_, hu⟩
    rw [hkind]
    exact (run_bind (run_discard (run_lift (p := advance) hadvance))).trans (hsuffixes hu inner)

/-! ## 2. A comparison -/

/-- What can be written and is no comparison itself comes to the operators of a comparison. -/
theorem comes_comparison {left : Expr} (hleft : left.Printable) (hlevel : 3 ≤ left.level)
    (ht : Closes 1 t.kind) : Comes (t :: more) 3 (comparisons primary)
      (chainTurn (ladder primary 3) (operatorAt 2)) left.words left := by
  have hbare : bracketed 2 left left.words = left.words := if_neg (by omega)
  have hreadable : Readable (t :: more) left := Readable.of_printable ht hleft
  have hcomes := hreadable.inChain (enough_primary left.words.length) (by rw [hbare])
    (show 1 ≤ 2 by decide) (show 2 ≤ 6 by decide)
  rwa [hbare] at hcomes

/-- **A comparison is read** if its left side can be written and its right side is one token. -/
theorem run_comparison {left : Expr} (hleft : left.Printable) (hlevel : 3 ≤ left.level) {o : BinOp}
    (ho : o.level = 2) (hless : o ≠ .less) (ht : t.operand? = some e)
    (hstop : Closes 1 stop.kind) (h : Ahead (t :: stop :: more) (left.words ++ [.op o]) s) :
    ∃ left' u, expression s = (.ok (binaryOf o left' e), u) ∧
      left'.eraseSpans = left.eraseSpans ∧ Ahead (stop :: more) [] u := by
  obtain ⟨left', u, n, hrun, hn, hsame, hu⟩ :=
    comes_comparison hleft hlevel (closes_of_operand? ht) [.op o] s h fun w hw => by
      cases hw
      exact ⟨hless, by omega⟩
  obtain ⟨v, hstep, hv⟩ := hu.run_chainTurn (ladder primary 3) left'
  obtain ⟨x, hoperand, hx⟩ := run_operand ht hstop hv
  have hkind : x.current.kind = stop.kind := by
    obtain ⟨w, hcurrent, -, -⟩ := hx.of_tail
    rw [hcurrent]
  have hcloses : Closes 1 x.current.kind := hkind ▸ hstop
  have hright : ladder primary 3 v = (.ok e, x) := tower_of_closes hoperand hcloses (by decide)
  have hturn : chainTurn (ladder primary 3) (operatorAt 2) left' u =
      (.ok (.again (binaryOf o left' e)), x) := by
    rw [← ho]
    exact hstep.trans (run_bind hright)
  have hdone : chainTurn (ladder primary 3) (operatorAt 2) (binaryOf o left' e) x =
      (.ok (.done (binaryOf o left' e)), x) :=
    chainTurn_done (hcloses.operator 2 (by decide) (by decide)) _
  have hcomparisons : comparisons primary s = (.ok (binaryOf o left' e), x) := by
    obtain ⟨n, rfl⟩ := Nat.exists_eq_add_of_lt hn
    refine hrun.trans ?_
    rw [show [Word.op o].length + n + 1 = n + 1 + 1 by simp; omega, turns_again hturn,
      turns_done hdone]
  refine ⟨left', x, ?_, hsame, hx⟩
  exact chain_of_operatorAt (n := 1) hcomparisons (hcloses.operator 1 (by decide) (by decide))

/-! ## 3. A decision on one line -/

/-- In front of no further marks a state is ahead of the words that come next. -/
theorem Facing.ahead {ws : List Word} {ts : List Token} {depth : Nat}
    (h : Facing (ts ++ more) depth [] s) (hspells : Spells ws ts) : Ahead more ws s := by
  obtain ⟨ts', hahead, hnil⟩ := h.tokens
  cases hnil
  exact ⟨⟨ts, hahead, hspells⟩, h.diagnostics, h.plain, h.eof⟩

/-- Ahead of no further words a state faces the marks that come next. -/
theorem Ahead.facing {ms : List Mark} {ts : List Token} (h : Ahead (ts ++ more) [] s)
    (hspelled : List.Forall₂ Mark.Spelled ms ts) : Facing more s.loopDepth ms s := by
  obtain ⟨ts', hahead, hnil⟩ := h.tokens
  cases hnil
  exact ⟨⟨ts, hahead, hspelled⟩, h.eof, h.diagnostics, h.plain, rfl⟩

theorem run_armAfter?_none {p : Parser Statement} {word : Keyword} (kind : RegionKind)
    (hne : s.current.kind ≠ .keyword word) : armAfter? p word kind s = (.ok none, s) := by
  unfold armAfter?
  rw [run_after (sees_eq s (.keyword word)), beq_eq_false_iff_ne.mpr hne, if_neg Bool.false_ne_true]
  rfl

section Line

variable {tail : List Token} {depth : Nat} {p : Parser Statement} {looping : Bool}
  {rest : List Mark} {st : Statement}

/-- The arms of a decision that has one statement on the line of its `then`. -/
theorem run_lineArms (hst : st.Structured looping) (hreads : ReadsStatement tail p looping st)
    (hdepth : looping = true → 0 < depth)
    (h : Facing tail depth (.key .THEN :: (st.marks ++ .newline :: rest)) s) :
    ∃ st' u, arms p false s = (.ok (some [st'], none), u) ∧ st'.eraseSpans = st.eraseSpans ∧
      Facing tail depth (.newline :: rest) u := by
  obtain ⟨token, u, hcurrent, hkind, hadvance, hu⟩ := h.sign
  obtain ⟨st', v, harm, hsame, hv⟩ := run_lineArm hst hreads hdepth .thenArm token.span hu
  have hthen : armAfter? p .THEN .thenArm s = (.ok (some [st']), v) := by
    unfold armAfter?
    rw [run_after (sees_eq s (.keyword .THEN)), hkind, beq_self_eq_true, if_pos rfl,
      run_after (p := advance) hadvance]
    exact (run_bind harm).trans rfl
  have helse : armAfter? p .ELSE .elseArm v = (.ok none, v) :=
    run_armAfter?_none .elseArm (by rw [hv.kind_sign]; nofun)
  have hholds : holdsStatement (some [st']) = true := by
    have hempty : st'.isEmpty = false := by
      rw [← Statement.isEmpty_eraseSpans, hsame, Statement.isEmpty_eraseSpans]
      exact hst.not_exempt.1
    simp [holdsStatement, hempty]
  refine ⟨st', v, ?_, hsame, hv⟩
  unfold arms
  rw [run_after (current_eq s), run_bind hthen, run_bind helse, hholds]
  rfl

/-- A decision over a comparison, with one statement on its line. -/
def lineDecision (o : BinOp) (left right : Expr) (st : Statement) : Statement :=
  .decision (.condition (.binary o left right .blank)) (some [st]) none .blank

variable {left : Expr} {o : BinOp} {back : List Token} {eof : Token}
  (hleft : left.Printable) (hlevel : 3 ≤ left.level) (ho : o.level = 2) (hless : o ≠ .less)
  (ht : t.operand? = some e) (hst : st.Structured false)
  (hback : List.Forall₂ Mark.Spelled (.key .THEN :: (st.marks ++ [.newline])) back)

include hleft hlevel ho hless ht hst hback

/-- A decision behind its keyword, over a comparison that ends in one token. -/
theorem run_lineDecision (hreads : ReadsStatement [eof] p false st)
    (h : Ahead (t :: (back ++ [eof])) (left.words ++ [.op o]) s) :
    ∃ build u, decision p (Decision.condition <$> expression) s = (.ok build, u) ∧
      (∀ span, (build span).eraseSpans = (lineDecision o left e st).eraseSpans) ∧
      Facing [eof] u.loopDepth [.newline] u := by
  obtain ⟨thenToken, more, hthen, hmore, rfl⟩ := List.forall₂_cons_left_iff.mp hback
  have hstop : Closes 1 thenToken.kind := by
    rw [show thenToken.kind = .keyword .THEN from hthen]
    exact closes_keyword .THEN rfl
  obtain ⟨left', u, hrun, hsame, hu⟩ := run_comparison hleft hlevel ho hless ht hstop h
  obtain ⟨st', v, harms, hsameArm, hv⟩ :=
    run_lineArms hst hreads (fun h : false = true => absurd h Bool.false_ne_true) (hu.facing hback)
  refine ⟨.decision (.condition (binaryOf o left' e)) (some [st']) none, v, ?_, fun span => ?_, ?_⟩
  · have htest : (Decision.condition <$> expression : Parser Decision) s =
        (.ok (.condition (binaryOf o left' e)), u) := run_map hrun
    unfold decision
    rw [run_bind htest]
    exact (run_bind harms).trans rfl
  · simp only [lineDecision, binaryOf, Statement.eraseSpans, Decision.eraseSpans, Expr.eraseSpans,
      eraseArmSpans, Block.eraseSpans, hsame, hsameArm]
  · rw [hv.depth]
    exact hv

/-- What opens with the keyword is read as the decision. -/
theorem run_statement_line {ts : List Token} (heof : eof.kind = .endOfFile)
    (hspells : Spells (left.words ++ [.op o]) ts)
    (h : Facing (ts ++ t :: (back ++ [eof])) depth [.key .IF] s) :
    ∃ st' u depth', statement s = (.ok st', u) ∧
      st'.eraseSpans = (lineDecision o left e st).eraseSpans ∧ st'.isSeparatorExempt = false ∧
      Facing [eof] depth' [.newline] u := by
  have htail : ∀ t ∈ [eof].head?, t.kind = .endOfFile := by
    intro t ht
    obtain rfl := Option.mem_some_iff.mp ht
    exact heof
  obtain ⟨token, u, hcurrent, hkind, hadvance, hu⟩ := h.sign
  have hsize : st.marks.length ≤ s.size := by
    obtain ⟨ts', hahead, -⟩ := h.tokens
    have hlength := hback.length_eq
    have hle := s.length_ahead_le_size
    simp only [hahead, List.length_append, List.length_cons] at hle hlength
    omega
  have hreads : ReadsStatement [eof] (nestUpTo statementLayer s.size) false st :=
    ReadsStatement.of_layers hst hsize (reads_structured htail hst)
  obtain ⟨build, v, hrun, hsame, hv⟩ := run_lineDecision hleft hlevel ho hless ht hst hback hreads
    (hu.ahead hspells)
  have hlayer : statement s = statementLayer (nestUpTo statementLayer s.size) s :=
    nest_eq statementLayer
  refine ⟨build (s.current.span.join v.previous.span), v, v.loopDepth, ?_, hsame _, ?_, hv⟩
  · rw [hlayer]
    exact statementLayer_key .IF rfl (fun _ => rfl) hkind hadvance hrun
  · rw [← Statement.isSeparatorExempt_eraseSpans, hsame]
    rfl

/-- **The only statement of a text, a decision on one line, is read** as it is written. -/
theorem run_procedure_line {ts : List Token} (heof : eof.kind = .endOfFile)
    (hspells : Spells (left.words ++ [.op o]) ts)
    (h : Facing (ts ++ t :: (back ++ [eof])) depth [.key .IF] s) :
    ∃ st' u, procedure s = ((.anonymous, [st']), u) ∧
      st'.eraseSpans = (lineDecision o left e st).eraseSpans ∧ u.diagnostics = #[] := by
  have hopens : OpensWell [Mark.key .IF] := ⟨_, _, rfl, rfl⟩
  have htail : ∀ t ∈ [eof].head?, t.kind = .endOfFile := by
    intro t ht
    obtain rfl := Option.mem_some_iff.mp ht
    exact heof
  obtain ⟨u, hheader, hu⟩ := run_header (fun u hu => Or.inr hopens) h
  obtain ⟨st', v, depth', hturn, hsame, hv⟩ := run_blockTurn_opens .file
    (Q := fun st' _ => st'.eraseSpans = (lineDecision o left e st).eraseSpans) hopens 0 #[] hu
    fun _ => run_statement_line hleft hlevel ho hless ht hst hback heof hspells
  obtain ⟨w, hdone, hw⟩ := run_blockTurn_done (p := statement) htail .file rfl 0 (#[] ++ #[st']) hv
  have hblock : block statement .file u = ([st'], w) := by
    obtain ⟨n, hn⟩ := Nat.exists_eq_add_of_le hu.length_le_size
    unfold block
    rw [loop_eq, hn, List.length_singleton, Nat.add_comm 1 n, loopUpTo_again hturn,
      loopUpTo_done hdone]
    rfl
  exact ⟨st', w, procedure_of_block hheader hblock hw.plain, hsame, hw.diagnostics⟩

end Line

end Parse

open Parse

/-- **A decision on one line is read back** from tokens that spell it: a comparison of whatever can
    be written with one token, `then`, and a statement. -/
theorem Procedure.ofTokens_line {left e : Expr} {o : BinOp} {st : Statement} {key t eof : Token}
    {ts back : List Token} (hleft : left.Printable) (hlevel : 3 ≤ left.level) (ho : o.level = 2)
    (hless : o ≠ .less) (hst : st.Structured false) (hkey : key.kind = .keyword .IF)
    (hspells : Spells (left.words ++ [.op o]) ts) (ht : t.operand? = some e)
    (hback : List.Forall₂ Mark.Spelled (.key .THEN :: (st.marks ++ [.newline])) back)
    (heof : eof.kind = .endOfFile) (source : String) (all : List Token) (file : Nat) :
    let found := ofTokens (key :: (ts ++ t :: (back ++ [eof]))) [] source all file
    Block.eraseSpans found.body = [(lineDecision o left e st).eraseSpans] ∧
      found.diagnostics = [] := by
  have hfacing : Facing (ts ++ t :: (back ++ [eof])) 0 [.key .IF]
      (.opening (key :: (ts ++ t :: (back ++ [eof]))) []) :=
    ⟨⟨[key], rfl, .cons hkey .nil⟩, rfl, rfl, SymbolTable.means_empty, rfl⟩
  obtain ⟨st', u, hrun, hsame, hdiagnostics⟩ :=
    run_procedure_line hleft hlevel ho hless ht hst hback heof hspells hfacing
  unfold ofTokens
  rw [hrun]
  refine ⟨?_, ?_⟩
  · show Block.eraseSpans [st'] = _
    rw [Block.eraseSpans, hsame]
    rfl
  · show u.diagnostics.toList.mergeSort _ = []
    rw [hdiagnostics]
    exact List.mergeSort_nil

end BasicCheck
