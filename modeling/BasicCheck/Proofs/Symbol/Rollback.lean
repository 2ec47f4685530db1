import BasicCheck.Proofs.Symbol.Sound
import BasicCheck.Proofs.Token.Order

/-!
# Rolling a symbol table back

A rollback cuts the symbols and the references at the sizes of a checkpoint and forgets every spot
that has been entered since. Taken at once it changes nothing (**`Bounded.rollback_checkpoint`**), and what
is done to the table before it leaves no trace: neither a further reference
(**`rollback_addReference`**) nor a further symbol (**`rollback_create`**), as long as no spot of
the token had been entered before the checkpoint. A spot that had would be lost, for the table keeps
only the last number of each.
-/

namespace BasicCheck.SymbolTable

theorem ext {t u : SymbolTable} (hs : ∀ i : Nat, t.symbols[i]? = u.symbols[i]?)
    (hk : ∀ k : SymbolKey, t.keys[k]? = u.keys[k]?)
    (hr : ∀ n : Nat, t.references[n]? = u.references[n]?)
    (hp : ∀ p : Spot, t.spots[p]? = u.spots[p]?) : t = u := by
  obtain ⟨symbols, keys, references, spots⟩ := t
  obtain ⟨symbols', keys', references', spots'⟩ := u
  obtain rfl : symbols = symbols' := Array.ext_getElem? hs
  obtain rfl : keys = keys' := Std.ExtTreeMap.ext_getElem? hk
  obtain rfl : references = references' := Array.ext_getElem? hr
  obtain rfl : spots = spots' := Std.ExtTreeMap.ext_getElem? hp
  rfl

/-! ## 1. What is found after a rollback -/

theorem getElem?_take {α : Type} (xs : Array α) (n i : Nat) :
    (xs.take n)[i]? = if i < n then xs[i]? else none := by
  rw [Array.take_eq_extract, Array.getElem?_extract, Nat.zero_add, Nat.sub_zero]
  by_cases hi : i < xs.size
  · have hlt : i < min n xs.size ↔ i < n := by omega
    simp [hlt]
  · rw [if_neg (by omega), Array.getElem?_eq_none (Nat.le_of_not_lt hi), ite_self]

/-- A symbol without the references from a number on. -/
def cutReferences (limit : Nat) (s : Symbol) : Symbol :=
  { s with references := s.references.filter (· < limit) }

theorem symbols_rollback (t : SymbolTable) (mark : Checkpoint) (i : Nat) :
    (t.rollback mark).symbols[i]? =
      if i < mark.symbols then (t.symbols[i]?).map (cutReferences mark.references) else none := by
  rw [show (t.rollback mark).symbols =
    (t.symbols.take mark.symbols).map (cutReferences mark.references) from rfl,
    Array.getElem?_map, getElem?_take]
  split <;> rfl

/-- A symbol that is left was there before, with all the references that are left. -/
theorem symbols_rollback_eq_some_iff {t : SymbolTable} {mark : Checkpoint} {i : Nat} {s : Symbol} :
    (t.rollback mark).symbols[i]? = some s ↔
      i < mark.symbols ∧ ∃ s', t.symbols[i]? = some s' ∧ cutReferences mark.references s' = s := by
  rw [symbols_rollback]
  split
  · rename_i hi
    rw [Option.map_eq_some_iff, and_iff_right hi]
  · rename_i hi
    exact iff_of_false nofun fun h => hi h.1

theorem keys_rollback (t : SymbolTable) (mark : Checkpoint) (k : SymbolKey) :
    (t.rollback mark).keys[k]? =
      if k ∈ (t.symbols.toList.map Symbol.key).drop mark.symbols then none else t.keys[k]? := by
  rw [← getElem?_foldl_erase, ← List.map_drop, List.foldl_map]
  rfl

theorem references_rollback (t : SymbolTable) (mark : Checkpoint) (n : Nat) :
    (t.rollback mark).references[n]? =
      if n < mark.references then t.references[n]? else none := by
  rw [show (t.rollback mark).references = t.references.take mark.references from rfl,
    getElem?_take]

theorem references_rollback_eq_some_iff {t : SymbolTable} {mark : Checkpoint} {n : Nat}
    {r : Reference} :
    (t.rollback mark).references[n]? = some r ↔ n < mark.references ∧ t.references[n]? = some r := by
  rw [references_rollback]
  split
  · rename_i hn
    rw [and_iff_right hn]
  · rename_i hn
    exact iff_of_false nofun fun h => hn h.1

theorem spots_rollback (t : SymbolTable) (mark : Checkpoint) (p : Spot) :
    (t.rollback mark).spots[p]? = (t.spots[p]?).filter (· < mark.references) := by
  rw [show (t.rollback mark).spots = t.spots.filter fun _ number => number < mark.references from
    rfl, Std.ExtTreeMap.getElem?_filter']

/-! ## 2. Nothing since the checkpoint -/

/-- All numbers of references in a table are below the number of all references. -/
structure Bounded (t : SymbolTable) : Prop where
  numbers : ∀ {i : Nat} {s : Symbol}, t.symbols[i]? = some s →
    ∀ n ∈ s.references, n < t.references.size
  spots : ∀ {p : Spot} {n : Nat}, t.spots[p]? = some n → n < t.references.size

/-- **A table that is rolled back at once is left as it is.** -/
theorem Bounded.rollback_checkpoint {t : SymbolTable} (h : t.Bounded) :
    t.rollback t.checkpoint = t := by
  -- part by part: no number reaches the sizes that the checkpoint holds, so nothing is cut off
  refine ext (fun i => ?_) (fun k => ?_) (fun n => ?_) (fun p => ?_)
  · rw [symbols_rollback]
    show (if i < t.symbols.size then _ else _) = _
    split
    · cases hs : t.symbols[i]? with
      | none => rfl
      | some s =>
        rw [Option.map_some]
        refine congrArg some ?_
        have hall : s.references.filter (· < t.references.size) = s.references :=
          Array.filter_eq_self.mpr fun n hn => decide_eq_true (h.numbers hs n hn)
        show ({ s with references := s.references.filter (· < t.references.size) } : Symbol) = s
        rw [hall]
    · rename_i hi
      exact (Array.getElem?_eq_none (Nat.le_of_not_lt hi)).symm
  · rw [keys_rollback, List.drop_of_length_le, if_neg List.not_mem_nil]
    exact Nat.le_of_eq (List.length_map _)
  · rw [references_rollback]
    show (if n < t.references.size then _ else _) = _
    split
    · rfl
    · rename_i hn
      exact (Array.getElem?_eq_none (Nat.le_of_not_lt hn)).symm
  · rw [spots_rollback]
    cases hp : t.spots[p]? with
    | none => rfl
    | some n => exact Option.filter_some_pos (decide_eq_true (h.spots hp))

theorem Sound.bounded {t : SymbolTable} (h : t.Sound) : t.Bounded where
  numbers {i s} hs n hn := by
    have hmem : n ∈ s.references.toList := Array.mem_toList_iff.mpr hn
    rw [h.numbers hs] at hmem
    exact List.mem_range.mp (List.mem_filter.mp hmem).1
  spots {p n} hp := by
    obtain ⟨r, hr, -⟩ := h.spots hp
    exact (Array.getElem?_eq_some_iff.mp hr).1

/-! ## 3. Tokens apart -/

/-- Tokens that stand one behind the other have no spot in common. -/
theorem notMem_spotsOf {a b : Token} (h : a.Before b) {p : Spot} (hp : p ∈ spotsOf a.span) :
    p ∉ spotsOf b.span := by
  obtain ⟨h1, h2⟩ := h
  simp only [Place.lt_iff, Place.le_iff] at h1 h2
  intro hq
  unfold spotsOf at hp hq
  split at hp <;> split at hq <;>
    simp only [List.mem_map, List.mem_range'_1, List.mem_singleton] at hp hq
  · obtain ⟨c, hc, rfl⟩ := hp
    obtain ⟨d, hd, heq⟩ := hq
    simp only [Spot.mk.injEq] at heq
    omega
  · obtain ⟨c, hc, rfl⟩ := hp
    simp only [Spot.mk.injEq] at hq
    omega
  · obtain ⟨d, hd, rfl⟩ := hq
    simp only [Spot.mk.injEq] at hp
    omega
  · subst hp
    simp only [Spot.mk.injEq] at hq
    omega

/-! ## 4. Further references and symbols -/

/-- Symbols with the same keys one by one have the same keys all together. -/
theorem keys_symbols_congr {t u : SymbolTable}
    (h : ∀ i : Nat, (u.symbols[i]?).map Symbol.key = (t.symbols[i]?).map Symbol.key) :
    u.symbols.toList.map Symbol.key = t.symbols.toList.map Symbol.key := by
  refine List.ext_getElem? fun i => ?_
  rw [List.getElem?_map, List.getElem?_map, Array.getElem?_toList, Array.getElem?_toList]
  exact h i

section

variable {t : SymbolTable} {mark : Checkpoint} {token : Token}

/-- None of the spots of a token is held by a reference from before a checkpoint. -/
def FreeSince (t : SymbolTable) (mark : Checkpoint) (token : Token) : Prop :=
  ∀ p ∈ spotsOf token.span, ∀ n, t.spots[p]? = some n → mark.references ≤ n

/-- **A further reference leaves no trace** behind a rollback to a checkpoint before it. -/
theorem rollback_addReference (hmark : mark.references ≤ t.references.size)
    (hfree : t.FreeSince mark token) (id : Nat) :
    (t.addReference id token).rollback mark = t.rollback mark := by
  -- part by part: the new reference has a number that the checkpoint cuts off
  refine ext (fun i => ?_) (fun k => ?_) (fun n => ?_) (fun p => ?_)
  · rw [symbols_rollback, symbols_rollback, symbols_addReference]
    split
    · split
      · rw [Option.map_map]
        refine congrArg (Option.map · _) (funext fun s => ?_)
        show ({ s with references := _ } : Symbol) = { s with references := _ }
        rw [Array.filter_push, if_neg]
        simpa using hmark
      · rfl
    · rfl
  · have hkeys : (t.addReference id token).symbols.toList.map Symbol.key =
        t.symbols.toList.map Symbol.key := by
      refine keys_symbols_congr fun i => ?_
      rw [symbols_addReference]
      split
      · rw [Option.map_map]
        rfl
      · rfl
    rw [keys_rollback, keys_rollback, hkeys]
    rfl
  · rw [references_rollback, references_rollback, references_addReference, Array.getElem?_push]
    split
    · rw [if_neg (by omega)]
    · rfl
  · rw [spots_rollback, spots_rollback, spots_addReference]
    split
    · rename_i hp
      rw [Option.filter_some_neg (by simpa using hmark)]
      cases hn : t.spots[p]? with
      | none => rfl
      | some n => exact (Option.filter_some_neg (by simpa using hfree p hp n hn)).symm
    · rfl

theorem rollback_addSymbol (hmark : mark.symbols ≤ t.symbols.size) {meaning : Meaning}
    (hkey : t.keys[(⟨meaning.kind, token.folded⟩ : SymbolKey)]? = none) :
    (t.addSymbol token meaning).rollback mark = t.rollback mark := by
  refine ext (fun i => ?_) (fun k => ?_) (fun n => ?_) (fun p => ?_)
  · rw [symbols_rollback, symbols_rollback, symbols_addSymbol, Array.getElem?_push]
    split
    · rw [if_neg (by omega)]
    · rfl
  · rw [keys_rollback, keys_rollback, keys_addSymbol, symbols_addSymbol, Array.toList_push,
      List.map_append, List.drop_append_of_le_length (by simpa using hmark)]
    show (if k ∈ _ ++ [(⟨meaning.kind, token.folded⟩ : SymbolKey)] then none else _) = _
    by_cases hk : (⟨meaning.kind, token.folded⟩ : SymbolKey) = k
    · subst hk
      rw [hkey]
      simp
    · have hne : k ≠ ⟨meaning.kind, token.folded⟩ := fun h => hk h.symm
      simp [hk, hne]
  · rfl
  · rfl

/-- **A further symbol leaves no trace** behind a rollback to a checkpoint before it. -/
theorem rollback_create (hsymbols : mark.symbols ≤ t.symbols.size)
    (hreferences : mark.references ≤ t.references.size) (hfree : t.FreeSince mark token)
    {meaning : Meaning} (hkey : t.keys[(⟨meaning.kind, token.folded⟩ : SymbolKey)]? = none) :
    (t.create token meaning).rollback mark = t.rollback mark := by
  have hfree' : (t.addSymbol token meaning).FreeSince mark token := hfree
  rw [create_eq, rollback_addReference (t := t.addSymbol token meaning) hreferences hfree',
    rollback_addSymbol hsymbols hkey]

end

/-! ## 5. Tables that go back to an earlier one -/

section

variable {t u : SymbolTable}

theorem symbols_le_of_rollback (h : u.rollback t.checkpoint = t) :
    t.symbols.size ≤ u.symbols.size := by
  have := congrArg (·.symbols.size) h
  simp only [rollback, checkpoint, Array.size_map, Array.take_eq_extract,
    Array.size_extract] at this
  omega

theorem references_le_of_rollback (h : u.rollback t.checkpoint = t) :
    t.references.size ≤ u.references.size := by
  have := congrArg (·.references.size) h
  simp only [rollback, checkpoint, Array.take_eq_extract, Array.size_extract] at this
  omega

/-- What no spot led to at first is held only by what came later. -/
theorem freeSince_of_rollback (h : u.rollback t.checkpoint = t) {token : Token}
    (hnew : ∀ p ∈ spotsOf token.span, t.spots[p]? = none) : u.FreeSince t.checkpoint token := by
  intro p hp n hn
  refine Nat.le_of_not_lt fun hlt => ?_
  have hspot : t.spots[p]? = some n := by
    rw [← h, spots_rollback, hn]
    exact Option.filter_some_pos (decide_eq_true hlt)
  rw [hnew p hp] at hspot
  cases hspot

end

end BasicCheck.SymbolTable
