import BasicCheck.Parse.Decision
import BasicCheck.Proofs.Grammar.Action

/-!
# What reading a decision comes to

Each decision holds expressions that were read for it and names that stand where words were read, and
it has a column exactly if its form asks for one (`Judged`). All decisions are judged by
**`judged_decisionAfter?`**.
-/

namespace BasicCheck

/-- A column is given exactly by the forms of reading and writing that are about columns. -/
def Decision.ColumnFits : Decision → Prop
  | read form _ _ _ column => column.isSome ↔ form = .readV
  | write form _ _ _ column => column.isSome ↔ form = .writeV
  | _ => True

namespace Grammar

open Parse

variable {s u v : State} {es : List Expr} {is : List Ident}

/-- What is told of a decision that was read between two states. -/
structure Judged (d : Decision) (s u : State) : Prop where
  has : Has s d.expressions d.names u
  column : d.ColumnFits

attribute [local simp] Decision.names Decision.expressions

/-! ## 1. Records -/

theorem takes_fileAndKey : Takes fileAndKey (fun found => [found.1, found.2]) fun _ => [] := by
  intro s
  refine (derives_expression.behind (.start s)).bind fun file u1 _ h => ?_
  refine ((tries_expected _).has h).bind fun _ u2 _ h => ?_
  exact (derives_expression.behind h).bind fun key u3 _ h => Tries.pure h

/-- A column is read exactly if it is wanted. -/
theorem tries_columnIf (wanted : Bool) (h : Has s es is u) :
    Tries u (columnIf wanted) fun column v =>
      column.isSome = wanted ∧ Has s (es ++ column.toList) is v := by
  unfold columnIf
  split
  · rename_i hwanted
    refine ((tries_expected _).has h).bind fun _ u1 _ h => ?_
    exact (derives_expression.behind h).bind fun e u2 _ h => Tries.pure ⟨hwanted.symm, h⟩
  · rename_i hwanted
    refine Tries.pure ⟨(Bool.not_eq_true _ ▸ hwanted).symm, ?_⟩
    rwa [Option.toList_none, List.append_nil]

theorem judged_readDecision (form : ReadForm) :
    Tries s (readDecision form) fun d u => Judged d s u := by
  refine (derives_target.behind (.start s)).bind fun left u1 _ h => ?_
  refine ((tries_expected _).has h).bind fun _ u2 _ h => ?_
  refine (takes_fileAndKey.behind h).bind fun found u3 _ h => ?_
  refine (tries_columnIf _ h).bind fun column u4 _ hcolumn => Tries.pure ⟨?_, ?_⟩
  · simpa using hcolumn.2
  · simp [Decision.ColumnFits, hcolumn.1]

theorem judged_writeDecision (form : WriteForm) :
    Tries s (writeDecision form) fun d u => Judged d s u := by
  refine (derives_expression.behind (.start s)).bind fun value u1 _ h => ?_
  refine (tries_expectOnOrTo.has h).bind fun _ u2 _ h => ?_
  refine (takes_fileAndKey.behind h).bind fun found u3 _ h => ?_
  refine (tries_columnIf _ h).bind fun column u4 _ hcolumn => Tries.pure ⟨?_, ?_⟩
  · simpa using hcolumn.2
  · simp [Decision.ColumnFits, hcolumn.1]

theorem judged_matReadDecision (hled : Led s) :
    Tries s matReadDecision fun d u => Judged d s u := by
  refine (names_variableIdent .assignment hled).bind fun name u1 h1 hname => ?_
  refine ((tries_expected _).has (.name h1 (.of_names hname))).bind fun _ u2 _ h => ?_
  refine (takes_fileAndKey.behind h).bind fun found u3 _ h => Tries.pure ⟨?_, trivial⟩
  simpa using h

theorem judged_matWriteDecision (hled : Led s) :
    Tries s matWriteDecision fun d u => Judged d s u := by
  refine (names_variableIdent .reference hled).bind fun name u1 h1 hname => ?_
  refine (tries_expectOnOrTo.has (.name h1 (.of_names hname))).bind fun _ u2 _ h => ?_
  refine (takes_fileAndKey.behind h).bind fun found u3 _ h => Tries.pure ⟨?_, trivial⟩
  simpa using h

theorem judged_readNextDecision : Tries s readNextDecision fun d u => Judged d s u := by
  refine (derives_target.behind (.start s)).bind fun left u1 _ h => ?_
  refine ((takes_expressionAfter? .USING).behind h).bind fun cursor u2 _ h =>
    Tries.pure ⟨?_, trivial⟩
  simpa using h

/-- A decision about a record is told by its file and its key. -/
theorem judged_of_fileAndKey {build : Expr × Expr → Decision}
    (hexpressions : ∀ found, (build found).expressions = [found.1, found.2])
    (hnames : ∀ found, (build found).names = []) (hcolumn : ∀ found, (build found).ColumnFits) :
    Tries s (build <$> fileAndKey) fun d u => Judged d s u := by
  refine Tries.map ((takes_fileAndKey s).mono fun found u _ h => ⟨?_, hcolumn found⟩)
  rwa [hexpressions, hnames]

/-! ## 2. Files and searches -/

/-- What is opened is read to its end, once one or two expressions have been read for it. -/
theorem tries_openTo (first : Expr) (second : Option Expr)
    (h : Has s (first :: second.toList) [] u) : Tries u (do
      discard (expect (.keyword .TO))
      let handle ← target
      match second with
      | some table => return Decision.open (some first) table handle
      | none => return .open none first handle) fun d v => Judged d s v := by
  refine ((tries_expected _).has h).bind fun _ u2 _ h => ?_
  refine (derives_target.behind h).bind fun handle u3 _ h => ?_
  cases second with
  | none => exact Tries.pure ⟨by simpa using h, trivial⟩
  | some table => exact Tries.pure ⟨by simpa using h, trivial⟩

theorem judged_openDecision : Tries s openDecision fun d u => Judged d s u := by
  refine (derives_expression.behind (.start s)).bind fun first u1 _ h => ?_
  refine Tries.after ((goes_consume .comma).has h) fun found u2 _ h => ?_
  dsimp only
  split
  · refine Tries.bind (Q := fun second v => Has s (first :: second.toList) [] v)
      (Tries.map ((derives_expression.behind h).mono fun e v _ h => ?_)) fun second v _ h =>
        tries_openTo first second h
    simpa using h
  · exact Tries.given (tries_openTo first none (by simpa using h))

/-- Reads one more of the last clauses of a search. -/
def optionTurn (found : Option Expr × Option Expr) :
    Parser (Turn (Option Expr × Option Expr) (Option Expr × Option Expr)) := do
  let (delimiter, order) := found
  if ← consume (.keyword .USING) then return .again (some (← expression), order)
  else if ← consume (.keyword .BY) then return .again (delimiter, some (← expression))
  else return .done (delimiter, order)

/-- The last clauses of a search so far. -/
def Searched (o : State) (found : Option Expr × Option Expr) : State → Prop :=
  Has o (found.1.toList ++ found.2.toList) []

theorem tries_optionTurn {o : State} (found : Option Expr × Option Expr)
    (h : Searched o found s) :
    Tries s (optionTurn found) (Turns (Searched o) (Searched o) s) := by
  obtain ⟨delimiter, order⟩ := found
  -- a clause takes the place of an earlier one of its sort
  have hclause (build : Expr → Option Expr × Option Expr) (hbuild : ∀ e,
      (build e).1.toList ++ (build e).2.toList ⊆ delimiter.toList ++ order.toList ++ [e])
      {w : State} (hw : Onward s w) : Tries w (do
        return Turn.again (build (← expression))) (Turns (Searched o) (Searched o) s) := by
    refine Tries.regular fun hregular => (derives_expression w).bind fun e v hv he =>
      Tries.pure ⟨?_, Consumes.after hw (he.consumes hregular)⟩
    have hread : Has w [e] [] v := ⟨hv, List.forall_mem_singleton.mpr he.held, List.forall_mem_nil _⟩
    exact ((Has.before h hw).append hread).of_subset (hbuild e) (List.Subset.refl [])
  refine Tries.after (goes_consume _) fun isUsing u1 h1 _ => ?_
  split
  · exact hclause (fun e => (some e, order)) (fun e => by simp) h1
  · refine Tries.after (goes_consume _) fun isBy u2 h2 _ => ?_
    split
    · exact hclause (fun e => (delimiter, some e)) (fun e => by simp) (h1.trans h2)
    · exact Tries.pure (Has.before h (h1.trans h2))

/-- The last clauses of a search were read for it. -/
theorem takes_searchOptions : Takes searchOptions
    (fun found => found.1.toList ++ found.2.toList) fun _ => [] :=
  fun s => Tries.tryLoop optionTurn (J := Searched s) (.start s) fun found _ _ h =>
    tries_optionTurn found h

theorem judged_locateDecision : Tries s locateDecision fun d u => Judged d s u := by
  refine (derives_expression.behind (.start s)).bind fun needle u1 _ h => ?_
  refine ((tries_expected _).has h).bind fun _ u2 _ h => ?_
  refine (derives_expression.behind h).bind fun haystack u3 _ h => ?_
  refine (takes_searchOptions.behind h).bind fun found u4 _ h => ?_
  obtain ⟨delimiter, order⟩ := found
  refine ((tries_expected _).has h).bind fun _ u5 _ h => ?_
  refine (derives_target.behind h).bind fun position u6 _ h => Tries.pure ⟨?_, trivial⟩
  simpa using h

theorem judged_osReadDecision : Tries s osReadDecision fun d u => Judged d s u := by
  refine (derives_target.behind (.start s)).bind fun left u1 _ h => ?_
  refine ((tries_expected _).has h).bind fun _ u2 _ h => ?_
  refine (derives_expression.behind h).bind fun path u3 _ h => Tries.pure ⟨?_, trivial⟩
  simpa using h

theorem judged_osOpenDecision : Tries s osOpenDecision fun d u => Judged d s u := by
  refine (derives_expression.behind (.start s)).bind fun path u1 _ h => ?_
  refine ((tries_expected _).has h).bind fun _ u2 _ h => ?_
  refine (derives_target.behind h).bind fun handle u3 _ h => Tries.pure ⟨?_, trivial⟩
  simpa using h

/-! ## 3. The keywords of decisions -/

/-- **Every decision behind its keyword** is judged. -/
theorem judged_decisionAfter? {word : Keyword} {p : Parser Decision}
    (hled : (Kind.keyword word).namesVariable → Led s) (hp : decisionAfter? word = some p) :
    Tries s p fun d u => Judged d s u := by
  unfold decisionAfter? at hp
  split at hp <;> cases hp
  · exact Tries.map ((derives_expression.behind (.start s)).mono fun _ _ _ h => ⟨h, trivial⟩)
  · exact judged_readDecision .read
  · exact judged_readDecision .readU
  · exact judged_readDecision .readO
  · exact judged_readDecision .readV
  · exact judged_matReadDecision (hled rfl)
  · exact judged_readNextDecision
  · exact judged_writeDecision .write
  · exact judged_writeDecision .writeU
  · exact judged_writeDecision .writeV
  · exact judged_matWriteDecision (hled rfl)
  · exact judged_openDecision
  · exact judged_of_fileAndKey (fun _ => rfl) (fun _ => rfl) fun _ => trivial
  · exact judged_of_fileAndKey (fun _ => rfl) (fun _ => rfl) fun _ => trivial
  · exact judged_of_fileAndKey (fun _ => rfl) (fun _ => rfl) fun _ => trivial
  · exact judged_locateDecision
  · exact judged_osReadDecision
  · exact judged_osOpenDecision

end Grammar

end BasicCheck
