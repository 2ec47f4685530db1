import BasicCheck.Proofs.Print.Ahead

/-!
# Reading words on the levels of the grammar

A parser reads the words of an expression if, ahead of them, it gives the expression up to spans and
stops behind them (`Reads`). A loop comes past words if it stands before its next turn then, with turns
enough for what is left (`Comes`). Loops end where no turn can follow (`Comes.reads`) and go on over
further words (`Comes.turn`); the loops over the operators of a level (`comes_chain`, `reads_chain`) and
over the suffixes of an operand are both cases of that.
-/

namespace BasicCheck.Parse

/-! ## 1. Judgements -/

/-- What a level lets stand behind an operand is next. -/
def Stop (level : Nat) (rest : List Word) : Prop := ∀ w ∈ rest.head?, w.Stops level

theorem Stop.mono {level level' : Nat} {rest : List Word} (h : Stop level rest)
    (hle : level ≤ level') : Stop level' rest := fun w hw => (h w hw).mono hle

/-- Ahead of the words of an expression, a parser gives the expression up to spans. -/
def Reads (tail : List Token) (level : Nat) (p : Parser Expr) (ws : List Word) (e : Expr) : Prop :=
  ∀ (rest : List Word) (s : State), Ahead tail (ws ++ rest) s → Stop level rest →
    ∃ e' u, p s = (.ok e', u) ∧ e'.eraseSpans = e.eraseSpans ∧ Ahead tail rest u

/-- Ahead of the words of an expression, a parser comes to the next turn of a loop with it. -/
def Comes (tail : List Token) (level : Nat) (p : Parser Expr) (body : Expr → Parser (Turn Expr Expr))
    (ws : List Word) (e : Expr) : Prop :=
  ∀ (rest : List Word) (s : State), Ahead tail (ws ++ rest) s → Stop level rest →
    ∃ e' u n, p s = turns body n e' u ∧ rest.length < n ∧ e'.eraseSpans = e.eraseSpans ∧
      Ahead tail rest u

variable {tail : List Token} {level level' : Nat} {p : Parser Expr}
  {body : Expr → Parser (Turn Expr Expr)} {ws ws' : List Word} {e e' : Expr}

/-- A loop ends where no turn can follow. -/
theorem Comes.reads (h : Comes tail level' p body ws e) (hle : level ≤ level')
    (hdone : ∀ (rest : List Word) (u : State) (e' : Expr), Ahead tail rest u → Stop level rest →
      body e' u = (.ok (.done e'), u)) : Reads tail level p ws e := by
  intro rest s hahead hstop
  obtain ⟨e', u, n, hrun, hn, hsame, hrest⟩ := h rest s hahead (hstop.mono hle)
  obtain ⟨n, rfl⟩ := Nat.exists_eq_succ_of_ne_zero (Nat.ne_zero_of_lt hn)
  exact ⟨e', u, hrun.trans (turns_done (hdone rest u e' hrest hstop)), hsame, hrest⟩

/-- A loop goes on over further words. -/
theorem Comes.turn {w : Word} {e₂ : Expr} (h : Comes tail level p body ws e)
    (hw : w.Stops level) (hturn : ∀ (rest : List Word) (u : State) (e' : Expr),
      Ahead tail (w :: ws' ++ rest) u → Stop level rest → e'.eraseSpans = e.eraseSpans →
      ∃ e₂' v, body e' u = (.ok (.again e₂'), v) ∧ e₂'.eraseSpans = e₂.eraseSpans ∧
        Ahead tail rest v) : Comes tail level p body (ws ++ w :: ws') e₂ := by
  intro rest s hahead hstop
  rw [List.append_assoc] at hahead
  obtain ⟨e', u, n, hrun, hn, hsame, hrest⟩ := h (w :: ws' ++ rest) s hahead fun w' hw' => by
    cases hw'
    exact hw
  obtain ⟨e₂', v, hbody, hsame₂, hrest₂⟩ := hturn rest u e' hrest hstop hsame
  simp only [List.length_append, List.length_cons] at hn
  obtain ⟨n, rfl⟩ := Nat.exists_eq_succ_of_ne_zero (n := n) (by omega)
  exact ⟨e₂', v, n, hrun.trans (turns_again hbody), by omega, hsame₂, hrest₂⟩

/-! ## 2. Operators of one level -/

/-- One turn of a chain. -/
def chainTurn (operand : Parser Expr) (isOperator : Kind → Bool) (left : Expr) :
    Parser (Turn Expr Expr) := do
  if isOperator (← currentKind) then
    let op ← takeOperator
    let right ← operand
    return .again (binaryOf op left right)
  else return .done left

theorem chain_eq (operand : Parser Expr) (isOperator : Kind → Bool) :
    chain operand isOperator = operand >>= tryLoop (chainTurn operand isOperator) := rfl

section Chain

variable {operand : Parser Expr} {behind : Token} {more : List Token}
  (hbehind : Closes 1 behind.kind)

/-- In front of an operator of its level a chain goes on with an operand behind it. -/
theorem Ahead.run_chainTurn {o : BinOp} {rest : List Word} {s : State}
    (h : Ahead tail (.op o :: rest) s) (operand : Parser Expr) (left : Expr) :
    ∃ u, chainTurn operand (operatorAt o.level) left s =
        (operand >>= fun right => return .again (binaryOf o left right)) u ∧
      Ahead tail rest u := by
  obtain ⟨t, u, hspelled, hcurrent, hadvance, hrest⟩ := h.next nofun
  have hkind : BinOp.ofKind? s.current.kind = some o := by
    rw [hcurrent]
    exact hspelled
  have htake : takeOperator s = (.ok o, u) := by
    refine (run_after (p := advance) hadvance).trans ?_
    rw [← hcurrent, hkind]
    rfl
  refine ⟨u, (run_after (currentKind_eq s)).trans ?_, hrest⟩
  rw [operatorAt_eq hkind o.one_le_level o.level_le_six, beq_self_eq_true, if_pos rfl]
  exact run_bind htake

/-- In front of anything else it is done. -/
theorem chainTurn_done {n : Nat} {s : State} (hk : operatorAt n s.current.kind = false)
    (left : Expr) : chainTurn operand (operatorAt n) left s = (.ok (.done left), s) := by
  refine (run_after (currentKind_eq s)).trans ?_
  rw [hk, if_neg Bool.false_ne_true]
  rfl

/-- A chain starts with its first operand. -/
theorem comes_chain (h : Reads tail (level + 1) operand ws e) :
    Comes tail (level + 1) (chain operand (operatorAt level))
      (chainTurn operand (operatorAt level)) ws e := by
  intro rest s hahead hstop
  obtain ⟨e', u, hrun, hsame, hrest⟩ := h rest s hahead hstop
  refine ⟨e', u, u.size + 1, ?_, Nat.lt_succ_of_le hrest.length_le_size, hsame, hrest⟩
  rw [chain_eq]
  exact run_bind hrun

/-- A chain goes on over an operator of its level and a further operand. -/
theorem Comes.operator {o : BinOp} {right : Expr} {span : Span}
    (h : Comes tail (o.level + 1) (chain operand (operatorAt o.level))
      (chainTurn operand (operatorAt o.level)) ws e)
    (ho : o ≠ .less) (hright : Reads tail (o.level + 1) operand ws' right) :
    Comes tail (o.level + 1) (chain operand (operatorAt o.level))
      (chainTurn operand (operatorAt o.level)) (ws ++ .op o :: ws') (.binary o e right span) := by
  refine h.turn ⟨ho, Nat.lt_succ_self _⟩ fun rest u e' hahead hstop hsame => ?_
  obtain ⟨v, hturn, hnext⟩ := hahead.run_chainTurn operand e'
  obtain ⟨right', x, hrun, hsameRight, hrest⟩ := hright rest v hnext hstop
  refine ⟨binaryOf o e' right', x, ?_, ?_, hrest⟩
  · exact hturn.trans (run_bind hrun)
  · simp only [binaryOf, Expr.eraseSpans, hsame, hsameRight]

include hbehind

/-- A chain ends where no operator of its level follows. -/
theorem Comes.reads_chain (hlevel : 1 ≤ level) (hlevel' : level ≤ 6)
    (h : Comes (behind :: more) (level + 1) (chain operand (operatorAt level))
      (chainTurn operand (operatorAt level)) ws e) :
    Reads (behind :: more) level (chain operand (operatorAt level)) ws e := by
  refine h.reads (Nat.le_succ _) fun rest u e' hahead hstop => ?_
  have hcloses := hahead.closes hbehind hstop hlevel
  exact chainTurn_done (hcloses.operator level (Nat.le_refl _) hlevel') e'

end Chain

/-! ## 3. All levels -/

/-- The levels over an operand, by their height above it. -/
def tower (primary : Parser Expr) : Nat → Parser Expr
  | 0 => primary
  | d + 1 => chain (tower primary d) (operatorAt (6 - d))

/-- The grammar of a level, from logic up to single operands. -/
def ladder (primary : Parser Expr) (level : Nat) : Parser Expr := tower primary (7 - level)

theorem ladder_eq (primary : Parser Expr) (hlevel : 1 ≤ level) (hlevel' : level ≤ 6) :
    ladder primary level = chain (ladder primary (level + 1)) (operatorAt level) := by
  interval_cases level <;> rfl

theorem expressionOver_eq_ladder (primary : Parser Expr) :
    expressionOver primary = ladder primary 1 := rfl

section Levels

variable {primary : Parser Expr} {behind : Token} {more : List Token}
  (hbehind : Closes 1 behind.kind)

include hbehind

/-- **What is read on a level is read on all looser ones.** -/
theorem Reads.of_le {high : Nat} (h : Reads (behind :: more) high (ladder primary high) ws e)
    (hlevel : 1 ≤ level) (hle : level ≤ high) (hhigh : high ≤ 7) :
    Reads (behind :: more) level (ladder primary level) ws e := by
  obtain ⟨k, rfl⟩ := Nat.exists_eq_add_of_le hle
  induction k with
  | zero => exact h
  | succ k ih =>
    refine ih ?_ (Nat.le_add_right _ _) (by omega)
    rw [ladder_eq primary (by omega) (by omega)]
    exact (comes_chain h).reads_chain hbehind (by omega) (by omega)

end Levels

/-! ## 4. Items between commas -/

/-- One turn of a list of items. -/
def commaTurn (item : Parser Expr) (items : Array Expr) :
    Parser (Turn (Array Expr) (Array Expr)) := do
  if ← consume .comma then return .again (items.push (← item)) else return .done items

theorem commaList_eq (item : Parser Expr) : commaList item = (do
    let first ← item
    let items ← tryLoop (commaTurn item) #[first]
    return items.toList) := rfl

/-- Behind an item stands a comma or what closes the list. -/
theorem stop_commas {w : Word} {rest : List Word} (hw : w.Stops level) (es : List Expr) :
    Stop level ((wordsOfAll level es).flatMap (.comma :: ·) ++ w :: rest) := by
  intro w' hw'
  cases es with
  | nil =>
    cases hw'
    exact hw
  | cons e es =>
    cases hw'
    trivial

/-- The items behind the first one, each behind its comma. -/
theorem turns_commaTurn {item : Parser Expr} {w : Word} {rest : List Word} (hcloses : w.ClosesList)
    (hw : w.Stops level) (es : List Expr)
    (hitems : ∀ e ∈ es, Reads tail level item (bracketed level e e.words) e) (found : Array Expr)
    (n : Nat) (s : State)
    (hahead : Ahead tail ((wordsOfAll level es).flatMap (.comma :: ·) ++ w :: rest) s)
    (hn : ((wordsOfAll level es).flatMap (.comma :: ·) ++ w :: rest).length < n) :
    ∃ es' u, turns (commaTurn item) n found s = (.ok (found ++ es'), u) ∧
      es'.toList.map Expr.eraseSpans = es.map Expr.eraseSpans ∧ Ahead tail (w :: rest) u := by
  -- on the items: each is read behind its comma and put behind those found, and what follows ends them
  induction es generalizing found n s with
  | nil =>
    obtain ⟨n, rfl⟩ := Nat.exists_eq_succ_of_ne_zero (Nat.ne_zero_of_lt hn)
    refine ⟨#[], s, ?_, rfl, hahead⟩
    rw [Array.append_empty]
    refine turns_done ((run_after (consume_of_ne ?_)).trans rfl)
    exact hahead.kind_ne_comma hcloses
  | cons e es ih =>
    obtain ⟨n, rfl⟩ := Nat.exists_eq_succ_of_ne_zero (Nat.ne_zero_of_lt hn)
    simp only [wordsOfAll, List.flatMap_cons, List.cons_append, List.append_assoc, List.length_cons,
      List.length_append] at hahead hn
    obtain ⟨t, v, hspelled, hcurrent, hadvance, hnext⟩ := hahead.next Word.noConfusion
    obtain ⟨e', x, hrun, hsame, hmore⟩ :=
      hitems e List.mem_cons_self _ v hnext (stop_commas hw es)
    obtain ⟨es', u, hturns, hsames, hrest⟩ :=
      ih (fun e he => hitems e (List.mem_cons_of_mem _ he)) (found.push e') n x hmore (by
        simp only [List.length_append, List.length_cons]
        omega)
    have hconsume : consume .comma s = (true, v) :=
      consume_of_eq (by rw [hcurrent]; exact hspelled) hadvance
    have hbody : commaTurn item found s = (.ok (.again (found.push e')), x) :=
      (run_after hconsume).trans (run_bind hrun)
    refine ⟨#[e'] ++ es', u, ?_, ?_, hrest⟩
    · rw [turns_again hbody, hturns, Array.push_eq_append, Array.append_assoc]
    · simp [hsame, hsames]

/-- **Items between commas are read**, as long as each of them is. -/
theorem run_commaList {item : Parser Expr} {w : Word} {rest : List Word} (hcloses : w.ClosesList)
    (hw : w.Stops level) {es : List Expr} (hsome : es ≠ [])
    (hitems : ∀ e ∈ es, Reads tail level item (bracketed level e e.words) e) {s : State}
    (hahead : Ahead tail (commas (wordsOfAll level es) ++ w :: rest) s) :
    ∃ es' u, commaList item s = (.ok es', u) ∧
      es'.map Expr.eraseSpans = es.map Expr.eraseSpans ∧ Ahead tail (w :: rest) u := by
  obtain ⟨e, es, rfl⟩ := List.exists_cons_of_ne_nil hsome
  simp only [wordsOfAll, commas, List.append_assoc] at hahead
  obtain ⟨e', v, hrun, hsame, hmore⟩ :=
    hitems e List.mem_cons_self _ s hahead (stop_commas hw es)
  obtain ⟨es', u, hturns, hsames, hrest⟩ := turns_commaTurn hcloses hw es
    (fun e he => hitems e (List.mem_cons_of_mem _ he)) #[e'] (v.size + 1) v hmore
    (Nat.lt_succ_of_le hmore.length_le_size)
  refine ⟨(#[e'] ++ es').toList, u, ?_, ?_, hrest⟩
  · rw [commaList_eq]
    exact (run_bind hrun).trans (run_bind hturns)
  · simp [hsame, hsames]

end BasicCheck.Parse
