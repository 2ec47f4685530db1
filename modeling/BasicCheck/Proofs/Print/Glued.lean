import BasicCheck.Proofs.Grammar.Procedure
import BasicCheck.Proofs.Print.Element
import BasicCheck.Proofs.Symbol.Rollback

/-!
# Comparisons directly behind an index list

A `>` and the operator behind it may be cut at another place than they were written. From `>==` a `>=`
is taken, so that a second operator follows the first (`armless_of_operators`); from `><=` it is a `><`,
and then nothing closes the index list, whose `<` is left for a comparison (`armless_of_unclosed`). On
neither way can an arm of the decision follow, and then the text has diagnostics, wherever reading goes
on (**`Procedure.diagnostics_ofTokens_ne_nil`**). So the operators that need no blank in front of them
are known exactly (**`Procedure.ofText_glued_iff`**).
-/

namespace BasicCheck

/-- Going back makes nothing else of any name. -/
theorem SymbolTable.Means.rollback {table : SymbolTable} {p : Meaning → Prop} (h : table.Means p)
    (mark : Checkpoint) : (table.rollback mark).Means p := by
  intro i symbol hsymbol
  obtain ⟨-, old, hold, rfl⟩ := symbols_rollback_eq_some_iff.mp hsymbol
  exact h i old hold

namespace Parse

variable {tail : List Token} {s u : State} {f : Fault} {o o' : BinOp}

/-- Whatever is read as an expression, no arm of a decision follows. -/
def Armless (s : State) : Prop :=
  ∀ e u, expression s = (.ok e, u) →
    u.current.kind ≠ .keyword .THEN ∧ u.current.kind ≠ .keyword .ELSE

theorem armless_of_error (h : expression s = (.error f, u)) : Armless s := by
  intro e v hrun
  cases h.symm.trans hrun

/-! ## 1. A second operator -/

/-- A comparison is no operand. -/
theorem primary_of_comparison (h : BinOp.ofKind? s.current.kind = some o) (ho : o.level = 2) :
    primary s = (.error ⟨.expectedExpr, s.current.span⟩, s) := by
  have hcomparison : s.current.kind.isComparison = true := by
    have hlevel := operatorAt_eq h (n := 2) (by decide) (by decide)
    rwa [ho, beq_self_eq_true] at hlevel
  have hlayer : primary s = primaryLayer (nestUpTo primaryLayer s.size) s := nest_eq primaryLayer
  rw [hlayer]
  unfold primaryLayer
  rw [run_after (current_eq s)]
  generalize s.current.kind = kind at hcomparison
  cases kind <;> first | rfl | cases hcomparison

/-- Where there is no operand, there is none on any level. -/
theorem tower_of_error {operand : Parser Expr} (hrun : operand s = (.error f, u)) (d : Nat) :
    tower operand d s = (.error f, u) := by
  induction d with
  | zero => exact hrun
  | succ d ih =>
    show chain (tower operand d) (operatorAt (6 - d)) s = _
    rw [chain_eq]
    exact run_bind_error ih

/-- A comparison fails at a second operator. -/
theorem turns_chainTurn_error {n : Nat} (hn : 0 < n) (left : Expr) (ho : o.level = 2)
    (ho' : o'.level = 2) (h : Ahead tail [.op o, .op o'] s) :
    ∃ f u, turns (chainTurn (ladder primary 3) (operatorAt 2)) n left s = (.error f, u) := by
  obtain ⟨u, hstep, hu⟩ := h.run_chainTurn (ladder primary 3) left
  obtain ⟨t, -, hspelled, hcurrent, -, -⟩ := hu.next nofun
  have hsecond : BinOp.ofKind? u.current.kind = some o' := hcurrent ▸ hspelled
  have hright : ladder primary 3 u = (.error ⟨.expectedExpr, u.current.span⟩, u) :=
    tower_of_error (primary_of_comparison hsecond ho') 4
  obtain ⟨n, rfl⟩ := Nat.exists_eq_succ_of_ne_zero (Nat.ne_of_gt hn)
  rw [← ho]
  exact ⟨_, u, turns_error (hstep.trans (run_bind_error hright))⟩

/-- An expression is at fault if its first comparison is. -/
theorem armless_of_comparisons (h : comparisons primary s = (.error f, u)) : Armless s := by
  have hexpression : expression s = (.error f, u) := by
    show chain (comparisons primary) (operatorAt 1) s = _
    rw [chain_eq]
    exact run_bind_error h
  exact armless_of_error hexpression

/-- **Behind a comparison with two operators between its sides no arm follows.** -/
theorem armless_of_operators {left : Expr} {t : Token} {more : List Token} (hleft : left.Printable)
    (hlevel : 3 ≤ left.level) (ho : o.level = 2) (hless : o ≠ .less) (ho' : o'.level = 2)
    (ht : Closes 1 t.kind) (h : Ahead (t :: more) (left.words ++ [.op o, .op o']) s) :
    Armless s := by
  obtain ⟨left', u, n, hrun, hn, -, hu⟩ :=
    comes_comparison hleft hlevel ht [.op o, .op o'] s h fun w hw => by
      cases hw
      exact ⟨hless, by omega⟩
  obtain ⟨f, v, hfails⟩ := turns_chainTurn_error (Nat.zero_lt_of_lt hn) left' ho ho' hu
  exact armless_of_comparisons (hrun.trans hfails)

/-! ## 2. An index list that is not closed -/

/-- What comes next does not close an index list. -/
theorem closeAngle_of_ne (hgreater : s.current.kind ≠ .greater)
    (hsplit : s.current.kind ≠ .greaterEqual) : closeAngle s = (false, s) := by
  unfold closeAngle
  refine (step_bind (consume_of_ne hgreater)).trans ?_
  show splitGreaterEqual s = _
  unfold splitGreaterEqual
  exact if_neg fun h => hsplit h.1

/-- A `<` that opens no index list is an operator. -/
theorem Ahead.less {ws : List Word} (h : Ahead tail (.openAngle :: ws) s) :
    Ahead tail (.op .less :: ws) s := by
  obtain ⟨⟨ts, hahead, hspells⟩, hdiagnostics, hplain, heof⟩ := h
  cases hspells with
  | @cons _ _ t _ hless hrest =>
    have hop : BinOp.ofKind? t.kind = some .less := by
      rw [show t.kind = .less from hless]
      rfl
    exact ⟨⟨_, hahead, .cons hop hrest⟩, hdiagnostics, hplain, heof⟩

/-- An attempt that is taken back leaves the same words. -/
theorem Ahead.takeBack {ws ws' : List Word} {x : State} (h : Ahead tail ws s)
    (hless : s.current.kind = .less) (hx : Ahead tail ws' x) :
    Ahead tail ws (x.takeBack s.snapshot s.toReading) := by
  have hsplit : s.split = none := by
    cases hsplit : s.split with
    | none => rfl
    | some whole =>
      rw [State.current, hsplit] at hless
      cases hless
  have hahead : (x.takeBack s.snapshot s.toReading).ahead = s.ahead := by
    unfold State.ahead
    rw [hsplit]
    rfl
  refine ⟨hahead ▸ h.tokens, ?_, hx.plain.rollback _, hx.eof⟩
  show x.diagnostics.take _ = #[]
  rw [hx.diagnostics]
  simp

/-- An index list that is not closed is taken for none. -/
theorem run_angleIndexes?_none {primary : Parser Expr} {es : List Expr} {rest : List Word}
    (hsome : es ≠ [])
    (hitems : ∀ e ∈ es, Reads tail 3 (concatenations primary) (bracketed 3 e e.words) e)
    (ho : o.level = 2) (hless : o ≠ .less) (hgreater : BinOp.ofKind? .greater ≠ some o)
    (hsplit : BinOp.ofKind? .greaterEqual ≠ some o)
    (h : Ahead tail (.openAngle :: (commas (wordsOfAll 3 es) ++ .op o :: rest)) s) (base : Expr) :
    ∃ u, angleIndexes? primary base s = (none, u) ∧
      Ahead tail (.openAngle :: (commas (wordsOfAll 3 es) ++ .op o :: rest)) u := by
  obtain ⟨t, u, hcurrent, hkind, hadvance, hinner⟩ := h.next_kind nofun fun _ ht => ht
  obtain ⟨es', v, hrun, -, hmore⟩ :=
    run_commaList (w := .op o) trivial ⟨hless, by omega⟩ hsome hitems hinner
  obtain ⟨t', -, hspelled, hcurrent', -, -⟩ := hmore.next nofun
  have hspelled : BinOp.ofKind? v.current.kind = some o := hcurrent' ▸ hspelled
  have hclose : closeAngle v = (false, v) :=
    closeAngle_of_ne (fun hk => hgreater (hk ▸ hspelled)) fun hk => hsplit (hk ▸ hspelled)
  have hclosed : closedIndexes? primary s = (none, v) := by
    unfold closedIndexes?
    rw [step_bind (step_discard (p := advance) hadvance)]
    refine (step_bind hrun).trans ?_
    exact (step_bind hclose).trans rfl
  refine ⟨v.takeBack s.snapshot s.toReading, ?_, h.takeBack (hcurrent ▸ hkind) hmore⟩
  unfold angleIndexes?
  rw [step_bind (rfl : (MonadState.get : Step State) s = (s, s))]
  exact (step_bind hclosed).trans rfl

section Unclosed

variable {t : Token} {more : List Token} {name : String} {es : List Expr}
  (hsome : es ≠ []) (hes : ∀ e ∈ es, e.Printable) (ho : o.level = 2) (hless : o ≠ .less)
  (hgreater : BinOp.ofKind? .greater ≠ some o) (hsplit : BinOp.ofKind? .greaterEqual ≠ some o)
  (ht : Closes 1 t.kind)

include hsome hes ho hless hgreater hsplit ht

/-- In front of an index list that is not closed a name is a variable. -/
theorem run_name_unclosed {rest : List Word}
    (h : Ahead (t :: more)
      (.name name :: .openAngle :: (commas (wordsOfAll 3 es) ++ .op o :: rest)) s) :
    ∃ e u, primary s = (.ok e, u) ∧
      Ahead (t :: more) (.openAngle :: (commas (wordsOfAll 3 es) ++ .op o :: rest)) u := by
  have hsize := h.length_le_size
  simp only [List.length_cons, List.length_append] at hsize
  have hitems : ∀ e ∈ es, Reads (t :: more) 3 (concatenations (nestUpTo primaryLayer s.size))
      (bracketed 3 e e.words) e :=
    readable_items (fun e he => .of_printable ht (hes e he)) (by decide) (by decide) (by omega)
  -- the attempt at the list is the only suffix, and nothing of it remains
  obtain ⟨ident, hrole, rfl⟩ : ∃ ident : Ident, ident.role = .reference ∧ ident.name = name :=
    ⟨⟨name, .reference, .blank⟩, rfl, rfl⟩
  have hvariable : Comes (t :: more) 9 (primaryLayer (nestUpTo primaryLayer s.size))
      (suffixTurn (nestUpTo primaryLayer s.size)) [.name ident.name] (.variable ident) :=
    comes_variable ht hrole
  obtain ⟨e, u, n, hrun, hn, hsame, hu⟩ := hvariable _ s h fun w hw => by
    cases hw
    exact Nat.lt_succ_self 8
  obtain ⟨v, hnone, hv⟩ :=
    run_angleIndexes?_none hsome hitems ho hless hgreater hsplit hu e
  obtain ⟨t', -, hcurrent, hkind, -, -⟩ := hu.next_kind nofun fun _ ht => ht
  have hdone : suffixTurn (nestUpTo primaryLayer s.size) e u = (.ok (.done e), v) := by
    unfold suffixTurn
    rw [run_after (currentKind_eq u), hcurrent, hkind]
    dsimp only
    unfold indexTurn
    have hnamed : (Expr.variable ident).IsNamed := trivial
    rw [if_pos (isIndexable_of_eraseSpans hnamed hsame)]
    exact (run_after hnone).trans rfl
  have hlayer : primary s = primaryLayer (nestUpTo primaryLayer s.size) s := nest_eq primaryLayer
  obtain ⟨n, rfl⟩ := Nat.exists_eq_succ_of_ne_zero (Nat.ne_of_gt (Nat.zero_lt_of_lt hn))
  exact ⟨e, v, hlayer.trans (hrun.trans (turns_done hdone)), hv⟩

/-- Behind such a name a `<` compares. The comparison is at fault, or ends in front of a comma. -/
theorem run_comparisons_unclosed (ho' : o'.level = 2)
    (h : Ahead (t :: more)
      (.name name :: .openAngle :: (commas (wordsOfAll 3 es) ++ [.op o, .op o'])) s) :
    (∃ f u, comparisons primary s = (.error f, u)) ∨
      ∃ e u, comparisons primary s = (.ok e, u) ∧ u.current.kind = .comma := by
  obtain ⟨e, u, hname, hu⟩ := run_name_unclosed hsome hes ho hless hgreater hsplit ht h
  obtain ⟨token, -, hcurrent, hkind, -, -⟩ := hu.next_kind (fun h => by cases h) fun _ ht => ht
  obtain ⟨v, hstep, hv⟩ := hu.less.run_chainTurn (ladder primary 3) e
  have hstops : ∀ n, 3 ≤ n → n ≤ 6 → operatorAt n u.current.kind = false := by
    intro n hn hn'
    rw [hcurrent, hkind]
    interval_cases n <;> rfl
  have hleft : ladder primary 3 s = (.ok e, u) := tower_of_operatorAt hname hstops (by decide)
  obtain ⟨first, others, rfl⟩ := List.exists_cons_of_ne_nil hsome
  rw [wordsOfAll, commas, List.append_assoc] at hv
  have hfirst : Readable (t :: more) first := .of_printable ht (hes first List.mem_cons_self)
  have hreads := hfirst.onLevel (enough_primary _) (Nat.le_refl _) (show 1 ≤ 3 by decide) (by decide)
  obtain ⟨e', w, hright, -, hw⟩ :=
    hreads _ v hv (stop_commas (show (Word.op o).Stops 3 from ⟨hless, by omega⟩) others)
  have hturn : chainTurn (ladder primary 3) (operatorAt 2) e u =
      (.ok (.again (binaryOf .less e e')), w) := hstep.trans (run_bind hright)
  have hturns : comparisons primary s =
      turns (chainTurn (ladder primary 3) (operatorAt 2)) u.size (binaryOf .less e e') w := by
    show chain (ladder primary 3) (operatorAt 2) s = _
    rw [chain_eq]
    exact (run_bind hleft).trans (turns_again hturn)
  have hsize : 0 < u.size := Nat.lt_of_lt_of_le (Nat.succ_pos _) hu.length_le_size
  rw [hturns]
  -- behind the first item stands a second operator, or the comma in front of the next item
  cases others with
  | nil =>
    obtain ⟨f, x, hfails⟩ := turns_chainTurn_error hsize (binaryOf .less e e') ho ho' hw
    exact .inl ⟨f, x, hfails⟩
  | cons other others =>
    obtain ⟨comma, -, hcomma, hkind', -, -⟩ := hw.next_kind (fun h => by cases h) fun _ ht => ht
    have hdone : chainTurn (ladder primary 3) (operatorAt 2) (binaryOf .less e e') w =
        (.ok (.done (binaryOf .less e e')), w) := chainTurn_done (by rw [hcomma, hkind']; rfl) _
    obtain ⟨n, hn⟩ := Nat.exists_eq_succ_of_ne_zero (Nat.ne_of_gt hsize)
    rw [hn]
    exact .inr ⟨_, w, turns_done hdone, hcomma ▸ hkind'⟩

/-- **Behind an index list that is not closed no arm follows.** -/
theorem armless_of_unclosed (ho' : o'.level = 2)
    (h : Ahead (t :: more)
      (.name name :: .openAngle :: (commas (wordsOfAll 3 es) ++ [.op o, .op o'])) s) :
    Armless s := by
  rcases run_comparisons_unclosed hsome hes ho hless hgreater hsplit ht ho' h with
    ⟨f, u, hfails⟩ | ⟨e, u, hrun, hcomma⟩
  · exact armless_of_comparisons hfails
  · have hexpression : expression s = (.ok e, u) :=
      chain_of_operatorAt (n := 1) hrun (by rw [hcomma]; rfl)
    intro e' u' hrun'
    cases hexpression.symm.trans hrun'
    rw [hcomma]
    exact ⟨nofun, nofun⟩

end Unclosed

/-! ## 3. Decisions without arms -/

/-- A decision without an arm is at fault. -/
theorem run_decision_error {p : Parser Statement} (h : Armless s) :
    ∃ f u, decision p (Decision.condition <$> expression) s = (.error f, u) := by
  unfold decision
  rcases hrun : expression s with ⟨found, u⟩
  cases found with
  | error f => exact ⟨f, u, run_bind_error (run_map_error hrun)⟩
  | ok e =>
    obtain ⟨hthen, helse⟩ := h e u hrun
    have harms : arms p false u = (.error ⟨.expected "THEN or ELSE", u.current.span⟩, u) := by
      unfold arms
      rw [run_after (current_eq u), run_bind (run_armAfter?_none .thenArm hthen),
        run_bind (run_armAfter?_none .elseArm helse)]
      rfl
    have htest : (Decision.condition <$> expression : Parser Decision) s = (.ok (.condition e), u) :=
      run_map hrun
    exact ⟨_, u, (run_bind htest).trans (run_bind_error harms)⟩

/-- A statement is at fault if what its first word opens is. -/
theorem statementLayer_key_error {p : Parser Statement} (word : Keyword)
    {q : Token → Parser (Span → Statement)} {v : State} {t : Token}
    (hword : word.isContextual = false)
    (hq : ∀ keyword, statementAfter? p keyword word = some (q keyword))
    (hkind : s.current.kind = .keyword word) (hadvance : s.advance = (t, u))
    (hrun : q s.current u = (.error f, v)) : statementLayer p s = (.error f, v) := by
  unfold statementLayer
  rw [run_after (current_eq s), hkind]
  exact run_bind_error ((run_keywordStatement hword hq hadvance s.current).trans hrun)

end Parse

namespace Grammar

open Parse

variable {s u : State} {f : Fault}

/-- A statement that is at fault leaves an error behind the block that it opens. -/
theorem goes_block_error (hline : s.current.kind ≠ .newline) (hend : s.current.kind ≠ .endOfFile)
    (hfails : statement s = (.error f, u)) :
    Goes s (block statement .file) fun _ u => ¬ u.Clean := by
  have hstatement : Tries s statement fun _ _ => False := fun hs => by
    have howes := writes_statement s hs
    rw [show statement.run s = (.error f, u) from hfails] at howes ⊢
    exact howes
  have hturn : Goes s (blockTurn statement .file #[]) fun turn v =>
      ¬ v.Clean ∧ ∀ body, turn ≠ .done body := by
    refine Goes.look (skipNewlines_eq_self hline) ?_
    refine Goes.look (sees_eq s .endOfFile) (Goes.look (rfl : atBlockEnd .file s = (false, s)) ?_)
    rw [if_neg (by simpa using hend)]
    refine (goes_recover (Q := fun _ _ => False) (hstatement.bind fun _ _ _ h => h.elim)).bind
      fun found v _ hfound => Goes.pure ⟨?_, nofun⟩
    rcases hfound with hnever | ⟨-, hclean, -⟩
    · exact hnever.elim
    · exact hclean
  intro hs
  have hruns : Runs (blockTurn statement .file) #[] s (block statement .file s).1
      (block statement .file s).2 :=
    runs_loop Array.toList hs (Or.inl (.nil (.refl s)))
      fun found _ _ h => (goes_blockTurn writes_statement .file found h).proceeds
  refine ⟨(goes_block writes_statement .file hs).1, ?_⟩
  cases hruns with
  | done last past =>
    have hnever := (hturn hs).2.2
    rw [last] at hnever
    exact absurd rfl (hnever _)
  | again first past consumes rest =>
    have hfault := (hturn hs).2.1
    rw [first] at hfault
    exact fun hclean => hfault (rest.past.clean hclean)

/-- **A text that opens with a decision without arms is at fault.** -/
theorem not_clean_procedure {ws : List Word} {ts more : List Token} {t : Token} {depth : Nat}
    (hs : s.Regular) (hno : s.Unequated) (h : Facing (ts ++ t :: more) depth [.key .IF] s)
    (hspells : Spells ws ts) (harmless : ∀ u, Ahead (t :: more) ws u → Armless u) : ¬ (procedure s).2.Clean := by
  obtain ⟨u, hheader, hu⟩ := run_header (fun u hu => Or.inr ⟨_, _, rfl, rfl⟩) h
  obtain ⟨token, v, hcurrent, hkind, hadvance, hv⟩ := hu.sign
  obtain ⟨f, w, hfails⟩ := run_decision_error (p := nestUpTo statementLayer u.size)
    (harmless v (hv.ahead hspells))
  have hstatement : statement u = (.error f, w) := by
    have hlayer : statement u = statementLayer (nestUpTo statementLayer u.size) u :=
      nest_eq statementLayer
    exact hlayer.trans (statementLayer_key_error .IF rfl (fun _ => rfl) hkind hadvance hfails)
  have hhead : Goes s header fun _ v => v = u := fun hs =>
    ⟨(goes_header hno hs).1, by rw [hheader]⟩
  have hall : Goes s procedure fun _ v => ¬ v.Clean := by
    refine hhead.bind fun _ u' _ heq => ?_
    subst heq
    refine (goes_block_error (by rw [hkind]; nofun) (by rw [hkind]; nofun) hstatement).bind
      fun _ v _ hfault => ?_
    refine Goes.look (p := MonadState.get) rfl ((goes_reportAll _).bind fun _ x hx _ => ?_)
    exact Goes.pure fun hclean => hfault (hx.clean hclean)
  exact (hall hs).2

end Grammar

open Parse Grammar

/-- A text of whose first decision nothing is read has diagnostics. -/
theorem Procedure.diagnostics_ofTokens_ne_nil {key t : Token} {ws : List Word}
    {ts more : List Token} (hkey : key.kind = .keyword .IF) (hspells : Spells ws ts)
    (harmless : ∀ u, Ahead (t :: more) ws u → Armless u) (source : String) (all : List Token)
    (file : Nat) : (ofTokens (key :: (ts ++ t :: more)) [] source all file).diagnostics ≠ [] := by
  have hfacing : Facing (ts ++ t :: more) 0 [.key .IF] (.opening (key :: (ts ++ t :: more)) []) :=
    ⟨⟨[key], rfl, .cons hkey .nil⟩, rfl, rfl, SymbolTable.means_empty, rfl⟩
  have hfault := not_clean_procedure (regular_opening _ _) (unequated_opening _ _) hfacing hspells harmless
  intro hnone
  refine hfault fun d hd => absurd ?_ (List.not_mem_nil (a := d))
  rw [← hnone]
  exact List.mem_mergeSort.mpr hd

/-! ## 4. Lines -/

namespace ElementTest

variable {c : ElementTest} {op : String}

/-- The lexemes of a line whose operator directly behind the `>` is cut at another place. -/
theorem diagnostics_ne_nil (c : ElementTest) {shapes : List (Kind × String)} {ws : List Word}
    (hlexes : ∀ rest, Unsigned rest → Lexes ('>' :: op.toList) shapes rest)
    (hspells : Spells ws ((c.frontShapes ++ shapes).map Token.ofShape))
    (harmless : ∀ (t : Token) (more : List Token) (u : State), Parse.Closes 1 t.kind →
      Ahead (t :: more) ws u → Armless u) (file : Nat) :
    (Procedure.ofText (c.source "" op) file).diagnostics ≠ [] := by
  obtain ⟨key, ts, t, back, stop, hprimary, hfaults, hkey, hts, ht, -⟩ :=
    c.exists_tokens "" op hlexes file
  obtain ⟨e, he⟩ := c.exists_operand_right
  obtain ⟨e', he', -⟩ := Token.exists_operand ht he
  have hspelled : Spells ws ts :=
    hspells.of_shapes (by rw [hts, List.map_map]; exact (List.map_id' _).symm)
  unfold Procedure.ofText
  dsimp only
  rw [hprimary, hfaults]
  exact Procedure.diagnostics_ofTokens_ne_nil hkey hspelled
    (fun u => harmless t _ u (closes_of_operand? he')) _ _ _

/-- A `>` and a sign that starts with `=` are cut behind the `=`. -/
theorem diagnostics_of_equal (c : ElementTest) {sign : Char} {kind : Kind} {o : BinOp}
    (hop : op.toList = ['=', sign]) (hsign : (sign, kind) ∈ Lexeme.signs) (hkind : kind ≠ .semicolon)
    (ho : BinOp.ofKind? kind = some o) (hlevel : o.level = 2) (file : Nat) :
    (Procedure.ofText (c.source "" op) file).diagnostics ≠ [] := by
  have hspells : Spells [.closeAngle, .op .equal, .op o]
      ([(Kind.greaterEqual, ">="), (kind, String.ofList [sign])].map Token.ofShape) :=
    .closeEqual rfl rfl (.cons ho .nil)
  refine c.diagnostics_ne_nil (fun rest hrest => ?_) (c.spells_left_append hspells)
    (fun t more u ht hu => armless_of_operators c.printable_left (show 3 ≤ 8 by decide)
      (show BinOp.equal.level = 2 from rfl) nofun hlevel ht hu) file
  have hclose : Lexes ['>', '='] [(.greaterEqual, ">=")] ([sign] ++ rest) :=
    lexes_doubleSign (by decide) fun h => absurd h.2.1 (by decide)
  rw [hop]
  exact hclose.append (hrest.lexes kind hsign hkind)

/-- A `>` and `<=` are cut behind the `<`. -/
theorem diagnostics_of_lessEqual (c : ElementTest) (file : Nat) :
    (Procedure.ofText (c.source "" "<=") file).diagnostics ≠ [] := by
  have hsome : c.items.map Item.expr ≠ [] := fun h => c.isSome (List.map_eq_nil_iff.mp h)
  have hitems : ∀ e ∈ c.items.map Item.expr, e.Printable := by
    intro e he
    obtain ⟨i, -, rfl⟩ := List.mem_map.mp he
    exact i.spells.1.printable
  have hspells : Spells [.op (.compare .plain .ne), .op .equal]
      ([(Kind.notEqual, "><"), (Kind.equal, "=")].map Token.ofShape) := .cons rfl (.cons rfl .nil)
  refine c.diagnostics_ne_nil (fun rest hrest => ?_) (c.spells_items_append hspells)
    (fun t more u ht hu => armless_of_unclosed hsome hitems
      (show (BinOp.compare .plain .ne).level = 2 from rfl) nofun nofun nofun ht
      (show BinOp.equal.level = 2 from rfl) hu) file
  have hopen : Lexes ['>', '<'] [(.notEqual, "><")] (['='] ++ rest) :=
    lexes_doubleSign (by decide) fun h => absurd (Option.some.inj h.2.2) (show '=' ≠ '>' by decide)
  exact hopen.append (hrest.lexes .equal (by decide) nofun)

/-- Behind a blank the other operators close the list as well. -/
theorem closes_spaced {op : String} (hop : op ∈ ["==", "=>", "<=", "=<"]) :
    ∃ o : BinOp, o.level = 2 ∧ o ≠ .less ∧ Closes ('>' :: ' ' :: op.toList) o := by
  have hspaced {c d : Char} {kind : Kind} {o : BinOp} (hop : op.toList = [c, d])
      (hsign : ((c, d), kind) ∈ Lexeme.doubleSigns) (hc : c ≠ '>')
      (ho : BinOp.ofKind? kind = some o) : Closes ('>' :: ' ' :: op.toList) o := by
    have htext : op = String.ofList [c, d] := by rw [← hop, String.ofList_toList]
    refine closes_blank ho fun rest _ => ?_
    rw [hop, htext]
    exact lexes_doubleSign hsign fun h => hc h.1
  simp only [List.mem_cons, List.not_mem_nil, or_false] at hop
  rcases hop with rfl | rfl | rfl | rfl
  · have hsign : (('=', '='), Kind.doubleEqual) ∈ Lexeme.doubleSigns := by decide
    exact ⟨.equal, rfl, nofun, hspaced rfl hsign (by decide) rfl⟩
  · have hsign : (('=', '>'), Kind.greaterEqual) ∈ Lexeme.doubleSigns := by decide
    exact ⟨.compare .plain .ge, rfl, nofun, hspaced rfl hsign (by decide) rfl⟩
  · have hsign : (('<', '='), Kind.lessEqual) ∈ Lexeme.doubleSigns := by decide
    exact ⟨.compare .plain .le, rfl, nofun, hspaced rfl hsign (by decide) rfl⟩
  · have hsign : (('=', '<'), Kind.lessEqual) ∈ Lexeme.doubleSigns := by decide
    exact ⟨.compare .plain .le, rfl, nofun, hspaced rfl hsign (by decide) rfl⟩

/-- Directly behind the `>` none of them does. -/
theorem diagnostics_of_longer (c : ElementTest) {op : String} (hop : op ∈ ["==", "=>", "<=", "=<"])
    (file : Nat) : (Procedure.ofText (c.source "" op) file).diagnostics ≠ [] := by
  simp only [List.mem_cons, List.not_mem_nil, or_false] at hop
  rcases hop with rfl | rfl | rfl | rfl
  · have hsign : ('=', Kind.equal) ∈ Lexeme.signs := by decide
    exact c.diagnostics_of_equal rfl hsign nofun rfl rfl file
  · have hsign : ('>', Kind.greater) ∈ Lexeme.signs := by decide
    exact c.diagnostics_of_equal rfl hsign nofun rfl rfl file
  · exact c.diagnostics_of_lessEqual file
  · have hsign : ('<', Kind.less) ∈ Lexeme.signs := by decide
    exact c.diagnostics_of_equal rfl hsign nofun rfl rfl file

end ElementTest

/-- **Where a blank is needed behind an index list.** With a blank in front of it every comparison is
    read without a fault. Directly behind the closing `>` the line gives the same tree, up to spans,
    and the same diagnostics if and only if the operator is `=`, `#`, `<>` or `>=`. -/
theorem Procedure.ofText_glued_iff (c : ElementTest) (op : String)
    (hop : op ∈ ["=", "==", "#", "<>", ">=", "=>", "<=", "=<"]) (file : Nat) :
    let glued := ofText (c.source "" op) file
    let spaced := ofText (c.source " " op) file
    spaced.diagnostics = [] ∧
      (Block.eraseSpans glued.body = Block.eraseSpans spaced.body ∧
          glued.diagnostics = spaced.diagnostics ↔ op ∈ ["=", "#", "<>", ">="]) := by
  obtain ⟨e, he⟩ := c.exists_operand_right
  have hcases : op ∈ ["=", "#", "<>", ">="] ∨
      op ∉ ["=", "#", "<>", ">="] ∧ op ∈ ["==", "=>", "<=", "=<"] := by
    have hall : ∀ op ∈ ["=", "==", "#", "<>", ">=", "=>", "<=", "=<"],
        op ∈ ["=", "#", "<>", ">="] ∨
          op ∉ ["=", "#", "<>", ">="] ∧ op ∈ ["==", "=>", "<=", "=<"] := by decide
    exact hall op hop
  rcases hcases with hshort | ⟨hother, hlonger⟩
  · obtain ⟨o, ho, hless, hglued, hspaced⟩ := ElementTest.closes_of_mem hshort
    obtain ⟨hbody, hclean⟩ := c.ofText_source "" op hglued ho hless he file
    obtain ⟨hbody', hclean'⟩ := c.ofText_source " " op hspaced ho hless he file
    exact ⟨hclean', iff_of_true ⟨hbody.trans hbody'.symm, hclean.trans hclean'.symm⟩ hshort⟩
  · obtain ⟨o, ho, hless, hspaced⟩ := ElementTest.closes_spaced hlonger
    obtain ⟨-, hclean'⟩ := c.ofText_source " " op hspaced ho hless he file
    refine ⟨hclean', iff_of_false (fun h => ?_) hother⟩
    exact c.diagnostics_of_longer hlonger file (h.2.trans hclean')

/-- `rec<1>=x` is read as `rec<1> =x` is. -/
theorem Procedure.ofText_glued_equal :
    let glued := ofText "if rec<1>=x then null\n" 0
    let spaced := ofText "if rec<1> =x then null\n" 0
    spaced.diagnostics = [] ∧ Block.eraseSpans glued.body = Block.eraseSpans spaced.body ∧
      glued.diagnostics = spaced.diagnostics := by
  let c : ElementTest :=
    { name := ⟨.ident, "rec", by decide, 'r', ['e', 'c'], rfl, by decide +kernel⟩
      items := [⟨⟨.number, "1", by decide, '1', [], rfl, by decide +kernel⟩, []⟩]
      isSome := by decide
      isFew := by decide
      right := ⟨.ident, "x", by decide, 'x', [], rfl, by decide +kernel⟩ }
  have hglued : c.source "" "=" = "if rec<1>=x then null\n" := by decide +kernel
  have hspaced : c.source " " "=" = "if rec<1> =x then null\n" := by decide +kernel
  obtain ⟨hclean, hiff⟩ := ofText_glued_iff c "=" (by decide) 0
  have hsame := hiff.mpr (by decide)
  rw [hspaced] at hclean hsame
  rw [hglued] at hsame
  exact ⟨hclean, hsame⟩

/-- Not every operator is read so: `rec<1>==x` is at fault, `rec<1> ==x` is not. -/
theorem Procedure.exists_glued_fault :
    (ofText "if rec<1>==x then null\n" 0).diagnostics ≠ [] ∧
      (ofText "if rec<1> ==x then null\n" 0).diagnostics = [] := by
  decide +kernel

end BasicCheck
