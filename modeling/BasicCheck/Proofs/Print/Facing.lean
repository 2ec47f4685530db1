import Mathlib.Data.List.Forall2
import BasicCheck.Parse.Block
import BasicCheck.Proofs.Print.Marks
import BasicCheck.Proofs.Print.Operands

/-!
# States that face marks

A state faces marks if its unread tokens spell them, nothing has been reported, and no name stands for
anything but a plain variable (`Facing`). What may come next is told by the first mark: a word that
closes a block, a line end, or the start of a statement (`Facing.kind_ne_of_opens`). Variables and numbers
are read as expressions wherever a token follows that cannot go on with them (`run_expression`).
-/

namespace BasicCheck

/-- Without labels none is unresolved. -/
theorem SymbolTable.OnlyVariables.unresolvedLabels {table : SymbolTable} (h : table.OnlyVariables) :
    table.unresolvedLabels = [] := by
  have hnone : (table.symbols.toList.flatMap fun s =>
      if s.kind == .label && !s.isDeclared then
        (table.referencesOf s).map fun r => (r.token.text, r.token.span)
      else []) = [] := by
    refine List.flatMap_eq_nil_iff.mpr fun symbol hsymbol => ?_
    obtain ⟨i, hi⟩ := List.getElem?_of_mem hsymbol
    rw [Array.getElem?_toList] at hi
    obtain ⟨scope, hmeaning⟩ := h i symbol hi
    rw [Symbol.kind, hmeaning]
    rfl
  unfold SymbolTable.unresolvedLabels
  rw [hnone, List.mergeSort_nil]

namespace Parse

/-! ## 1. Facing -/

/-- The unread tokens spell some marks, then come those of the tail; nothing has been reported, some
    loops are open, and all names are those of variables. -/
structure Facing (tail : List Token) (depth : Nat) (ms : List Mark) (s : State) : Prop where
  tokens : ∃ ts, s.ahead = ts ++ tail ∧ List.Forall₂ Mark.Spelled ms ts
  eof : s.eof.kind = .endOfFile
  diagnostics : s.diagnostics = #[]
  plain : s.symbols.OnlyVariables
  depth : s.loopDepth = depth

theorem State.loopDepth_advance (s : State) : s.advance.2.loopDepth = s.loopDepth := by
  unfold advance
  split
  · rfl
  · split <;> rfl

theorem State.kind_next? (s : State) :
    (s.next?.map (·.kind)).getD .endOfFile = (s.ahead[1]?.map (·.kind)).getD .endOfFile := by
  unfold next? ahead
  cases s.split with
  | some whole => rw [List.getElem?_cons_succ, List.head?_eq_getElem?]
  | none => rfl

/-- Every unread token is good for a step forward. -/
theorem State.length_ahead_le_size (s : State) : s.ahead.length ≤ s.size := by
  unfold ahead size
  rw [s.rest.count_eq]
  cases s.split with
  | none => simp only [Option.isSome_none, Bool.false_eq_true, if_false]; omega
  | some whole => simp only [List.length_cons, Option.isSome_some, if_true]; omega

namespace Facing

variable {tail : List Token} {depth : Nat} {m m' : Mark} {ms : List Mark} {s : State} {k : Kind}

/-- The first mark is spelled by the next token. -/
theorem next (h : Facing tail depth (m :: ms) s) :
    ∃ t u, m.Spelled t ∧ s.current = t ∧ s.advance = (t, u) ∧ Facing tail depth ms u := by
  obtain ⟨⟨ts, hahead, hspelled⟩, heof, hdiagnostics, hplain, hdepth⟩ := h
  cases hspelled with
  | @cons _ t _ ts hm hrest =>
    obtain ⟨u, hadvance, hmore, hdiagnosticsU, hsymbolsU, heofU⟩ := State.advance_of_ahead hahead
    have hdepthU := s.loopDepth_advance
    rw [hadvance] at hdepthU
    refine ⟨t, u, hm, ?_, hadvance, ⟨ts, hmore, hrest⟩, ?_, ?_, ?_, ?_⟩
    · rw [State.current_eq_headD, hahead]
      rfl
    · rw [heofU, heof]
    · rw [hdiagnosticsU, hdiagnostics]
    · rw [hsymbolsU]
      exact hplain
    · rw [hdepthU, hdepth]

/-- A sign is told by the kind of the next token. -/
theorem sign (h : Facing tail depth (.sign k :: ms) s) :
    ∃ t u, s.current = t ∧ s.current.kind = k ∧ s.advance = (t, u) ∧ Facing tail depth ms u := by
  obtain ⟨t, u, hkind, hcurrent, hadvance, hrest⟩ := h.next
  exact ⟨t, u, hcurrent, hcurrent ▸ hkind, hadvance, hrest⟩

theorem kind_sign (h : Facing tail depth (.sign k :: ms) s) : s.current.kind = k := by
  obtain ⟨t, u, hcurrent, hkind, hadvance, hrest⟩ := h.sign
  exact hkind

/-- The token behind the next one spells the second mark. -/
theorem nextKind (h : Facing tail depth (m :: m' :: ms) s) :
    ∃ t, m'.Spelled t ∧ Parse.nextKind s = (t.kind, s) := by
  obtain ⟨⟨ts, hahead, hspelled⟩, -, -, -, -⟩ := h
  obtain ⟨t, ts, hm, hrest, rfl⟩ := List.forall₂_cons_left_iff.mp hspelled
  obtain ⟨t', ts, hm', -, rfl⟩ := List.forall₂_cons_left_iff.mp hrest
  refine ⟨t', hm', ?_⟩
  rw [nextKind_eq, State.kind_next?, hahead]
  rfl

/-- No more marks than steps forward. -/
theorem length_le_size (h : Facing tail depth ms s) : ms.length ≤ s.size := by
  obtain ⟨⟨ts, hahead, hspelled⟩, -, -, -, -⟩ := h
  have hlength := congrArg List.length hahead
  rw [List.length_append, ← hspelled.length_eq] at hlength
  have hsize := s.length_ahead_le_size
  omega

/-- Behind all marks comes the tail. -/
theorem current_of_nil (h : Facing tail depth [] s) (htail : ∀ t ∈ tail.head?, t.kind = .endOfFile) :
    s.current.kind = .endOfFile := by
  obtain ⟨⟨ts, hahead, hspelled⟩, heof, -, -, -⟩ := h
  cases hspelled
  rw [State.current_eq_headD, hahead, List.nil_append]
  cases tail with
  | nil => exact heof
  | cons t tail => exact htail t rfl

/-- What does not look at regions does not see one recorded. -/
theorem recordRegion (h : Facing tail depth ms s) (kind : RegionKind) (span : Span) :
    ∃ u, Parse.recordRegion kind span s = ((), u) ∧ Facing tail depth ms u :=
  ⟨_, rfl, h.tokens, h.eof, h.diagnostics, h.plain, h.depth⟩

theorem begin (h : Facing tail depth ms s) :
    ∃ u, Parse.begin s = ((), u) ∧ Facing tail depth ms u :=
  ⟨_, rfl, h.tokens, h.eof, h.diagnostics, h.plain, h.depth⟩

theorem noteVariable (h : Facing tail depth ms s) (token : Token) :
    ∃ u, Parse.noteVariable token s = ((), u) ∧ Facing tail depth ms u :=
  ⟨_, rfl, h.tokens, h.eof, h.diagnostics,
    h.plain.referenceVariable (fun scope => ⟨scope, rfl⟩) token, h.depth⟩

theorem noteIfKnown (h : Facing tail depth ms s) (kind : SymbolKind) (token : Token) :
    ∃ known u, Parse.noteIfKnown kind token s = (known, u) ∧ Facing tail depth ms u :=
  ⟨_, _, rfl, h.tokens, h.eof, h.diagnostics, h.plain.reference? kind token, h.depth⟩

end Facing

/-! ## 2. What comes next -/

/-- Kinds that no statement starts with. -/
def neverOpens : List Kind :=
  [.newline, .endOfFile, .semicolon, .keyword .END, .keyword .NEXT, .keyword .REPEAT, .keyword .CASE,
    .keyword .COMPILE, .keyword .FUNCTION, .keyword .SUBROUTINE, .keyword .INSERT]

theorem notMem_neverOpens {m : Mark} {t : Token} (h : m.Spelled t) (ho : m.opens = true) :
    t.kind ∉ neverOpens := by
  cases m with
  | name text =>
    rw [h.1]
    decide
  | number text => cases ho
  | sign kind =>
    rw [show t.kind = kind from h]
    cases kind with
    | keyword word =>
      have hall : ∀ word ∈ [Keyword.NULL, .RETURN, .WHILE, .UNTIL, .IF, .FOR, .LOOP, .BEGIN],
          Kind.keyword word ∉ neverOpens := by decide
      exact hall word (List.contains_iff_mem.mp ho)
    | _ => cases ho

/-- Some marks of which the first one starts a statement. -/
def OpensWell (ms : List Mark) : Prop := ∃ m rest, ms = m :: rest ∧ m.opens = true

theorem OpensWell.append {ms : List Mark} (h : OpensWell ms) (more : List Mark) :
    OpensWell (ms ++ more) := by
  obtain ⟨m, rest, rfl, hm⟩ := h
  exact ⟨m, rest ++ more, rfl, hm⟩

namespace Facing

variable {tail : List Token} {depth : Nat} {ms : List Mark} {s : State} {k : Kind}

/-- Where a statement starts, no word comes next that closes a block. -/
theorem kind_ne_of_opens (h : Facing tail depth ms s) (ho : OpensWell ms) (hk : k ∈ neverOpens) :
    s.current.kind ≠ k := by
  obtain ⟨m, rest, rfl, hm⟩ := ho
  obtain ⟨t, u, hspelled, hcurrent, -, -⟩ := h.next
  rw [hcurrent]
  rintro rfl
  exact notMem_neverOpens hspelled hm hk

/-- Nor does an `else`. -/
theorem kind_ne_else (h : Facing tail depth ms s) (ho : OpensWell ms) :
    s.current.kind ≠ .keyword .ELSE := by
  obtain ⟨m, rest, rfl, hm⟩ := ho
  obtain ⟨t, u, hspelled, hcurrent, -, -⟩ := h.next
  rw [hcurrent]
  intro hk
  cases m with
  | name text => exact absurd (hspelled.1.symm.trans hk) nofun
  | number text => cases hm
  | sign kind =>
    rw [show kind = .keyword .ELSE from (show t.kind = kind from hspelled).symm.trans hk] at hm
    cases hm

end Facing

/-! ## 3. Line ends -/

/-- One turn of the loop over line ends. -/
def breakTurn (_ : Unit) : Step (Turn Unit Unit) := do
  if (← currentKind) == .newline then
    discard advance
    return .again ()
  else return .done ()

theorem skipNewlines_eq : skipNewlines = loop breakTurn id () := rfl

/-- Line ends are passed over, as many as there are turns for. -/
theorem turns_breakTurn {tail : List Token} {depth : Nat} {ms : List Mark}
    (hstop : ∀ s, Facing tail depth ms s → s.current.kind ≠ .newline) (count : Nat) (n : Nat)
    (s : State) (hn : count < n)
    (h : Facing tail depth (List.replicate count .newline ++ ms) s) :
    ∃ u, loopUpTo breakTurn id n () s = ((), u) ∧ Facing tail depth ms u := by
  induction count generalizing n s with
  | zero =>
    obtain ⟨n, rfl⟩ := Nat.exists_eq_succ_of_ne_zero (Nat.ne_zero_of_lt hn)
    refine ⟨s, loopUpTo_done ?_, h⟩
    unfold breakTurn
    rw [step_bind (currentKind_eq s), beq_eq_false_iff_ne.mpr (hstop s h)]
    rfl
  | succ count ih =>
    obtain ⟨n, rfl⟩ := Nat.exists_eq_succ_of_ne_zero (Nat.ne_zero_of_lt hn)
    obtain ⟨t, u, hcurrent, hkind, hadvance, hrest⟩ := h.sign
    obtain ⟨v, hrun, hv⟩ := ih n u (Nat.lt_of_succ_lt_succ hn) hrest
    refine ⟨v, (loopUpTo_again (u := u) ?_).trans hrun, hv⟩
    unfold breakTurn
    rw [step_bind (currentKind_eq s), hkind, beq_self_eq_true, if_pos rfl]
    exact step_bind (step_discard (p := advance) hadvance)

theorem run_skipNewlines {tail : List Token} {depth : Nat} {ms : List Mark}
    (hstop : ∀ s, Facing tail depth ms s → s.current.kind ≠ .newline) (count : Nat) {s : State}
    (h : Facing tail depth (List.replicate count .newline ++ ms) s) :
    ∃ u, skipNewlines s = ((), u) ∧ Facing tail depth ms u := by
  have hsize := h.length_le_size
  rw [List.length_append, List.length_replicate] at hsize
  rw [skipNewlines_eq, loop_eq]
  exact turns_breakTurn hstop count _ s (by omega) h

theorem run_expectSeparator {tail : List Token} {depth : Nat} {ms : List Mark} {s : State}
    (h : Facing tail depth (.newline :: ms) s) :
    ∃ u, expectSeparator s = (.ok (), u) ∧ Facing tail depth ms u := by
  obtain ⟨t, u, hcurrent, hkind, hadvance, hrest⟩ := h.sign
  refine ⟨u, ?_, hrest⟩
  unfold expectSeparator
  rw [run_after (currentKind_eq s), hkind]
  exact run_discard (run_lift (p := advance) hadvance)

/-! ## 4. Variables and numbers -/

/-- Words that are no operators end an expression. -/
theorem closes_keyword (word : Keyword) (h : BinOp.ofKind? (.keyword word) = none) :
    Closes 1 (.keyword word) :=
  closes_of_ofKind?_eq_none h nofun nofun nofun (Nat.le_refl 1)

section Atoms

variable {tail : List Token} {depth level : Nat} {ms : List Mark} {e : Expr} {k : Kind}
  {s u : State}

theorem suffixes_of_closes {primary : Parser Expr} (hlevel : level ≤ 8)
    (hk : Closes level s.current.kind) : suffixes primary e s = (.ok e, s) := by
  rw [suffixes_eq, tryLoop_eq]
  refine turns_done ?_
  unfold suffixTurn
  rw [run_after (currentKind_eq s)]
  generalize s.current.kind = kind at hk
  split
  · exact absurd rfl (hk.less hlevel)
  · exact absurd rfl (hk.bracket hlevel)
  · exact absurd rfl hk.arrow
  · rfl

/-- A name is a variable unless a parenthesis follows. -/
theorem run_named (primary : Parser Expr) {text : String} (hk : k ≠ .leftParen)
    (h : Facing tail depth (.name text :: .sign k :: ms) s) :
    ∃ span u, named primary s = (.ok (.variable ⟨text, .reference, span⟩), u) ∧
      Facing tail depth (.sign k :: ms) u := by
  obtain ⟨t, u, ⟨-, rfl⟩, hcurrent, hadvance, hrest⟩ := h.next
  obtain ⟨known, v, hnote, hnoted⟩ := hrest.noteIfKnown .equate t
  unfold named
  rw [run_after (p := advance) hadvance, run_after (sees_eq u .leftParen), hrest.kind_sign,
    beq_eq_false_iff_ne.mpr hk, if_neg Bool.false_ne_true, run_after hnote]
  cases known with
  | true => exact ⟨t.span, v, rfl, hnoted⟩
  | false =>
    obtain ⟨x, hvariable, hx⟩ := hnoted.noteVariable t
    exact ⟨t.span, x, run_after hvariable, hx⟩

/-- **A variable or a number is an operand** in front of what no suffix starts with. -/
theorem run_primary (he : e.Atom) (hlevel : level ≤ 8) (hk : Closes level k)
    (h : Facing tail depth (e.marks ++ .sign k :: ms) s) :
    ∃ e' u, primary s = (.ok e', u) ∧ e'.eraseSpans = e.eraseSpans ∧
      Facing tail depth (.sign k :: ms) u := by
  have hlayer : primary s = primaryLayer (nestUpTo primaryLayer s.size) s := nest_eq primaryLayer
  rw [hlayer]
  generalize nestUpTo primaryLayer s.size = inner
  unfold primaryLayer
  rw [run_after (current_eq s)]
  cases he with
  | @«variable» ident hrole =>
    obtain ⟨t, v, ⟨hkind, -⟩, hcurrent, -, -⟩ := h.next
    obtain ⟨span, u, hrun, hu⟩ := run_named inner hk.paren h
    refine ⟨.variable ⟨ident.name, .reference, span⟩, u, ?_, ?_, hu⟩
    · rw [hcurrent, hkind]
      exact (run_bind hrun).trans (suffixes_of_closes hlevel (hu.kind_sign ▸ hk))
    · rw [Expr.eraseSpans, Expr.eraseSpans, hrole]
  | number text span =>
    obtain ⟨t, u, ⟨hkind, htext⟩, hcurrent, hadvance, hu⟩ := h.next
    refine ⟨.number t.text t.span, u, ?_, ?_, hu⟩
    · rw [hcurrent]
      rcases hkind with hkind | hkind <;> rw [hkind] <;>
        exact (run_bind (run_discard (run_lift (p := advance) hadvance))).trans
          (suffixes_of_closes hlevel (hu.kind_sign ▸ hk))
    · rw [Expr.eraseSpans, Expr.eraseSpans, htext]

/-- A chain is its first operand in front of what is no operator of its level. -/
theorem chain_of_operatorAt {operand : Parser Expr} {n : Nat} (hrun : operand s = (.ok e, u))
    (hk : operatorAt n u.current.kind = false) :
    chain operand (operatorAt n) s = (.ok e, u) := by
  rw [chain_eq, run_bind hrun, tryLoop_eq]
  exact turns_done (chainTurn_done hk e)

/-- No level from a given one on goes on with an operand in front of what is no operator of it. -/
theorem tower_of_operatorAt {operand : Parser Expr} (hrun : operand s = (.ok e, u))
    (hk : ∀ n, level ≤ n → n ≤ 6 → operatorAt n u.current.kind = false) {d : Nat}
    (hd : level + d ≤ 7) : tower operand d s = (.ok e, u) := by
  induction d with
  | zero => exact hrun
  | succ d ih => exact chain_of_operatorAt (ih (by omega)) (hk (6 - d) (by omega) (by omega))

theorem tower_of_closes {operand : Parser Expr} (hrun : operand s = (.ok e, u))
    (hk : Closes 1 u.current.kind) {d : Nat} (hd : d ≤ 6) : tower operand d s = (.ok e, u) :=
  tower_of_operatorAt hrun hk.operator (by omega)

/-- **A variable or a number is an expression** in front of what cannot go on with it. -/
theorem run_expression (he : e.Atom) (hk : Closes 1 k)
    (h : Facing tail depth (e.marks ++ .sign k :: ms) s) :
    ∃ e' u, expression s = (.ok e', u) ∧ e'.eraseSpans = e.eraseSpans ∧
      Facing tail depth (.sign k :: ms) u := by
  obtain ⟨e', u, hrun, hsame, hu⟩ := run_primary he (by decide) hk h
  exact ⟨e', u, tower_of_closes hrun (hu.kind_sign ▸ hk) (Nat.le_refl 6), hsame, hu⟩

/-- A name in front of `=` is a target. -/
theorem run_target {text : String} (h : Facing tail depth (.name text :: .equal :: ms) s) :
    ∃ span u, target s = (.ok (.variable ⟨text, .assignment, span⟩), u) ∧
      Facing tail depth (.equal :: ms) u := by
  have hequal : Closes 8 Kind.equal :=
    ⟨fun n hn hn' => absurd hn' (Nat.not_le.mpr (Nat.lt_of_lt_of_le (by decide) hn)), nofun, nofun,
      nofun, nofun⟩
  obtain ⟨e', u, hrun, hsame, hu⟩ := run_primary (e := .variable ⟨text, .reference, .blank⟩)
    (.variable rfl) (Nat.le_refl 8) hequal h
  cases e' with
  | «variable» ident =>
    simp only [Expr.eraseSpans, Expr.variable.injEq, Ident.mk.injEq, and_true] at hsame
    refine ⟨ident.span, u, ?_, hu⟩
    unfold target
    rw [run_after (current_eq s), run_bind hrun, ← hsame.1]
    rfl
  | matrixIndex name row col span => cases col <;> cases hsame
  | _ => cases hsame

end Atoms

end Parse

end BasicCheck
