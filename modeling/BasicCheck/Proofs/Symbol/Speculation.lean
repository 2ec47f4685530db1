import BasicCheck.Proofs.Symbol.Growth

/-!
# A rollback is an exact undo

Whatever has been done to a table before (`SymbolTable.after`), and whatever is done to it behind a
checkpoint, a rollback to the checkpoint gives back the table of that moment, symbol by symbol and
spot by spot (**`rollback_after`**). The uses in between may hold rollbacks of their own, as long as
none goes below the checkpoint. Two things cannot be undone and are excluded: a spot that was held
before and is given to another reference, and the declaration of a label that was there before.

The invariant is the equation itself: a table that goes back to an earlier one still does so behind
one more operation (**`rollback_apply`**) or one more rollback (**`rollback_rollback`**). That it does
at first needs only that no number of a reference is out of bounds (`Bounded`), which holds of every
table that arises (`bounded_after`).
-/

namespace BasicCheck.SymbolTable

variable {t u : SymbolTable} {token : Token} {mark limit : Checkpoint}

/-! ## 1. Numbers stay in bounds -/

theorem bounded_empty : empty.Bounded := sound_empty.bounded

theorem Bounded.addReference (h : t.Bounded) (id : Nat) (token : Token) :
    (t.addReference id token).Bounded where
  numbers {i s} hs n hn := by
    rw [references_addReference, Array.size_push]
    rw [symbols_addReference] at hs
    split at hs
    · obtain ⟨s', hs', rfl⟩ := Option.map_eq_some_iff.mp hs
      rcases Array.mem_push.mp hn with hold | rfl
      · exact Nat.lt_succ_of_lt (h.numbers hs' n hold)
      · exact Nat.lt_succ_self _
    · exact Nat.lt_succ_of_lt (h.numbers hs n hn)
  spots {p n} hp := by
    rw [references_addReference, Array.size_push]
    rw [spots_addReference] at hp
    split at hp
    · cases hp
      exact Nat.lt_succ_self _
    · exact Nat.lt_succ_of_lt (h.spots hp)

theorem Bounded.addSymbol (h : t.Bounded) (token : Token) (meaning : Meaning) :
    (t.addSymbol token meaning).Bounded where
  numbers {i s} hs n hn := by
    rw [symbols_addSymbol, Array.getElem?_push] at hs
    split at hs
    · cases hs
      exact absurd hn (Array.not_mem_empty n)
    · exact h.numbers hs n hn
  spots hp := h.spots hp

theorem Bounded.declareAt (h : t.Bounded) (id : Nat) (token : Token) :
    (t.declareAt id token).Bounded where
  numbers {i s} hs n hn := by
    rw [symbols_declareAt] at hs
    split at hs
    · obtain ⟨s', hs', rfl⟩ := Option.map_eq_some_iff.mp hs
      exact h.numbers hs' n hn
    · exact h.numbers hs n hn
  spots hp := h.spots hp

theorem Bounded.effect {refused : Bool} {promoted : Option Nat} (h : t.Bounded)
    (heffect : t.Effect token refused promoted u) : u.Bounded := by
  cases heffect with
  | refuse => exact h
  | refer id => exact h.addReference id token
  | create hfree =>
    rw [create_eq]
    exact (h.addSymbol token _).addReference _ token
  | promote hs hunknown => exact (h.declareAt _ token).addReference _ token

theorem Bounded.rollback (h : t.Bounded) (mark : Checkpoint) : (t.rollback mark).Bounded := by
  have hsize : (t.rollback mark).references.size = min mark.references t.references.size := by
    simp [SymbolTable.rollback]
  constructor
  · intro i s hs n hn
    rw [hsize]
    obtain ⟨-, s', hs', rfl⟩ := symbols_rollback_eq_some_iff.mp hs
    obtain ⟨hmem, hlt⟩ := Array.mem_filter.mp hn
    exact Nat.lt_min.mpr ⟨of_decide_eq_true hlt, h.numbers hs' n hmem⟩
  · intro p n hp
    rw [hsize]
    rw [spots_rollback] at hp
    obtain ⟨hget, hlt⟩ := Option.filter_eq_some_iff.mp hp
    exact Nat.lt_min.mpr ⟨of_decide_eq_true hlt, h.spots hget⟩

/-- **However a table is used, the numbers in it stay in bounds.** -/
theorem Bounded.after (h : t.Bounded) (uses : List Use) : (t.after uses).Bounded := by
  induction uses generalizing t with
  | nil => exact h
  | cons use uses ih =>
    refine ih ?_
    cases use with
    | operate op => exact h.effect (effect_apply t op)
    | rollback mark => exact h.rollback mark

/-! ## 2. One rollback behind another -/

/-- What is cut at a size and then at a smaller one is cut at the smaller one. -/
theorem mem_drop_take_or {α : Type} {xs : List α} {m n : Nat} (h : m ≤ n) (a : α) :
    a ∈ (xs.take n).drop m ∨ a ∈ xs.drop n ↔ a ∈ xs.drop m := by
  have hsplit : xs.drop m = (xs.take n).drop m ++ xs.drop n := by
    calc xs.drop m = (xs.take n ++ xs.drop n).drop m := by rw [List.take_append_drop]
      _ = (xs.take n).drop m ++ xs.drop n := by
        rw [List.drop_append]
        by_cases hlength : n ≤ xs.length
        · have hzero : m - (xs.take n).length = 0 := by
            rw [List.length_take]
            omega
          rw [hzero, List.drop_zero]
        · have hnil : xs.drop n = [] := List.drop_of_length_le (by omega)
          rw [hnil, List.drop_nil]
  rw [hsplit, List.mem_append]

theorem keys_symbols_rollback (t : SymbolTable) (limit : Checkpoint) :
    (t.rollback limit).symbols.toList.map Symbol.key =
      (t.symbols.toList.map Symbol.key).take limit.symbols := by
  refine List.ext_getElem? fun i => ?_
  rw [List.getElem?_map, Array.getElem?_toList, symbols_rollback, List.getElem?_take,
    List.getElem?_map, Array.getElem?_toList]
  split
  · rw [Option.map_map]
    rfl
  · rfl

/-- **A rollback undoes a rollback that does not go below it.** -/
theorem rollback_rollback (h : mark.Within limit) :
    (t.rollback limit).rollback mark = t.rollback mark := by
  obtain ⟨hsymbols, hreferences⟩ := h
  -- part by part: what the outer cut keeps the inner one keeps as well
  refine ext (fun i => ?_) (fun k => ?_) (fun n => ?_) (fun p => ?_)
  · rw [symbols_rollback, symbols_rollback, symbols_rollback]
    split
    · rename_i hi
      rw [if_pos (Nat.lt_of_lt_of_le hi hsymbols), Option.map_map]
      refine congrArg (Option.map · _) (funext fun s => ?_)
      show ({ s with references := _ } : Symbol) = { s with references := _ }
      rw [cutReferences, Array.filter_filter]
      refine congrArg (fun numbers => ({ s with references := numbers } : Symbol))
        (congrArg (Array.filter · s.references) (funext fun n => ?_))
      by_cases hn : n < mark.references
      · simp [hn, Nat.lt_of_lt_of_le hn hreferences]
      · simp [hn]
    · rfl
  · rw [keys_rollback, keys_rollback, keys_rollback, keys_symbols_rollback]
    by_cases hk : k ∈ (t.symbols.toList.map Symbol.key).drop mark.symbols
    · rw [if_pos hk]
      rcases (mem_drop_take_or hsymbols k).mpr hk with hinner | houter
      · rw [if_pos hinner]
      · rw [if_pos houter, ite_self]
    · have hneither := not_or.mp (mt (mem_drop_take_or hsymbols k).mp hk)
      rw [if_neg hk, if_neg hneither.1, if_neg hneither.2]
  · rw [references_rollback, references_rollback, references_rollback]
    split
    · rename_i hn
      rw [if_pos (Nat.lt_of_lt_of_le hn hreferences)]
    · rfl
  · rw [spots_rollback, spots_rollback, spots_rollback, Option.filter_filter]
    refine congrArg (Option.filter · _) (funext fun n => ?_)
    by_cases hn : n < mark.references
    · simp [hn, Nat.lt_of_lt_of_le hn hreferences]
    · simp [hn]

/-! ## 3. One operation -/

/-- The declaration of a label that came behind a checkpoint leaves no trace. -/
theorem rollback_declareAt {id : Nat} (hlater : mark.symbols ≤ id)
    (hlabel : ∀ s, t.symbols[id]? = some s → s.kind = .label) (token : Token) :
    (t.declareAt id token).rollback mark = t.rollback mark := by
  refine ext (fun i => ?_) (fun k => ?_) (fun n => rfl) (fun p => rfl)
  · rw [symbols_rollback, symbols_rollback, symbols_declareAt]
    split
    · rename_i hi
      rw [if_neg (by omega)]
    · rfl
  · have hkeys : (t.declareAt id token).symbols.toList.map Symbol.key =
        t.symbols.toList.map Symbol.key := by
      refine keys_symbols_congr fun i => ?_
      rw [symbols_declareAt]
      split
      · rename_i hi
        subst hi
        cases hs : t.symbols[id]? with
        | none => rfl
        | some s =>
          have hkind : s.kind = .label := hlabel s hs
          rw [Option.map_some, Option.map_some, Option.map_some, Symbol.key, Symbol.key, hkind]
          rfl
      · rfl
    rw [keys_rollback, keys_rollback, hkeys]
    rfl

/-- None of the spots of a token leads anywhere. -/
def Unseen (t : SymbolTable) (token : Token) : Prop := ∀ p ∈ spotsOf token.span, t.spots[p]? = none

instance (t : SymbolTable) (token : Token) : Decidable (t.Unseen token) :=
  inferInstanceAs (Decidable (∀ p ∈ spotsOf token.span, t.spots[p]? = none))

/-- **A table that goes back to an earlier one still does so behind one more operation**, unless its
    token stands where something stood before, or it declares a label from before. -/
theorem rollback_apply (h : u.rollback t.checkpoint = t) {op : Operation} (hnew : t.Unseen op.token)
    (hlater : ∀ i ∈ op.promoted? u, t.symbols.size ≤ i) :
    (op.apply u).rollback t.checkpoint = t := by
  have hreferences := references_le_of_rollback h
  have hfree := freeSince_of_rollback h hnew
  have heffect := effect_apply u op
  generalize op.apply u = v at heffect ⊢
  generalize op.promoted? u = promoted at heffect hlater
  generalize (op.answer u).isRefusal = refused at heffect
  cases heffect with
  | refuse => exact h
  | refer id => exact (rollback_addReference hreferences hfree id).trans h
  | create hkey =>
    exact (rollback_create (symbols_le_of_rollback h) hreferences hfree hkey).trans h
  | @promote id s hs hunknown =>
    have hlabel : ∀ x, u.symbols[id]? = some x → x.kind = .label := by
      intro x hx
      cases hs.symm.trans hx
      rw [Symbol.kind, Symbol.meaning_of_not_isDeclared hunknown]
      rfl
    have hdeclare : (u.declareAt id op.token).rollback t.checkpoint = u.rollback t.checkpoint :=
      rollback_declareAt (hlater id rfl) hlabel op.token
    have hfree' : (u.declareAt id op.token).FreeSince t.checkpoint op.token := hfree
    exact ((rollback_addReference (t := u.declareAt id op.token) hreferences hfree' id).trans
      hdeclare).trans h

/-! ## 4. All that is done since -/

theorem rollback_after_of_rollback {since : List Use} (h : u.rollback t.checkpoint = t)
    (hnew : ∀ op, .operate op ∈ since → t.Unseen op.token)
    (hlater : ∀ i ∈ u.promotions since, t.symbols.size ≤ i)
    (hinner : ∀ mark, .rollback mark ∈ since → t.checkpoint.Within mark) :
    (u.after since).rollback t.checkpoint = t := by
  induction since generalizing u with
  | nil => exact h
  | cons use since ih =>
    have hnext : (use.apply u).rollback t.checkpoint = t := by
      cases use with
      | operate op =>
        refine rollback_apply h (hnew op List.mem_cons_self) fun i hi => ?_
        exact hlater i (List.mem_append_left _ (Option.mem_toList.mpr hi))
      | rollback mark =>
        exact (rollback_rollback (hinner mark List.mem_cons_self)).trans h
    exact ih hnext (fun op hop => hnew op (List.mem_cons_of_mem _ hop))
      (fun i hi => hlater i (List.mem_append_right _ hi))
      fun mark hmark => hinner mark (List.mem_cons_of_mem _ hmark)

/-- What may be done since a checkpoint does not go below it, so that a further checkpoint lies within
    it. -/
theorem within_checkpoint_after {since : List Use} (h : u.rollback t.checkpoint = t)
    (hnew : ∀ op, .operate op ∈ since → t.Unseen op.token)
    (hlater : ∀ i ∈ u.promotions since, t.symbols.size ≤ i)
    (hinner : ∀ mark, .rollback mark ∈ since → t.checkpoint.Within mark) :
    t.checkpoint.Within (u.after since).checkpoint := by
  have hback := rollback_after_of_rollback h hnew hlater hinner
  exact ⟨symbols_le_of_rollback hback, references_le_of_rollback hback⟩

/-- **A rollback is an exact undo.** The table of a checkpoint comes back, whatever was done since: any
    operations on tokens none of whose spots was held at the checkpoint, in which no label from before
    is declared behind references to it, with any rollbacks that do not go below the checkpoint, such as
    those to checkpoints taken since (`within_checkpoint_after`). -/
theorem rollback_after {before since : List Use} (ht : empty.after before = t)
    (hnew : ∀ op, .operate op ∈ since → t.Unseen op.token)
    (hlater : ∀ i ∈ t.promotions since, t.symbols.size ≤ i)
    (hinner : ∀ mark, .rollback mark ∈ since → t.checkpoint.Within mark) :
    (t.after since).rollback t.checkpoint = t := by
  have hbounded : t.Bounded := ht ▸ bounded_empty.after before
  exact rollback_after_of_rollback hbounded.rollback_checkpoint hnew hlater hinner

/-- A checkpoint within an attempt that is rolled back and goes on. -/
theorem rollback_after_nested :
    let start : Token := ⟨.ident, "x", .onLine 1 0 1 0, false⟩
    let again : Token := ⟨.ident, "X", .onLine 1 4 5 0, false⟩
    let other : Token := ⟨.ident, "y", .onLine 1 6 7 0, false⟩
    let jump : Token := ⟨.ident, "done", .onLine 1 13 17 0, false⟩
    let label : Token := ⟨.ident, "Done", .onLine 2 0 4 0, false⟩
    let t := empty.after [.operate (.referenceVariable start)]
    let inner := (t.after [.operate (.referenceVariable again)]).checkpoint
    let since : List Use := [.operate (.referenceVariable again), .operate (.referenceLabel jump),
      .operate (.declareLabel label), .rollback inner, .operate (.referenceVariable other)]
    ((t.after since).symbols.map Symbol.name).toList = ["x", "y"] ∧
      (t.after since).rollback t.checkpoint = t := by
  intro start again other jump label t inner since
  have hnew : ∀ op, .operate op ∈ since → t.Unseen op.token := by
    have hall : ∀ token ∈ [again, jump, label, other], t.Unseen token := by decide +kernel
    intro op hop
    refine hall op.token ?_
    simp only [since, List.mem_cons, Use.operate.injEq, reduceCtorEq, List.not_mem_nil, or_false,
      false_or] at hop
    rcases hop with rfl | rfl | rfl | rfl <;> simp [Operation.token]
  have hinner : ∀ mark, .rollback mark ∈ since → t.checkpoint.Within mark := by
    intro mark hmark
    simp only [since, List.mem_cons, Use.rollback.injEq, reduceCtorEq, List.not_mem_nil, or_false,
      false_or] at hmark
    rw [hmark]
    decide +kernel
  exact ⟨by decide +kernel, rollback_after rfl hnew (by decide +kernel) hinner⟩

end BasicCheck.SymbolTable
