import BasicCheck.Symbol.Table

/-!
# Sound symbol tables

The parts of a symbol table say the same thing in several ways: a symbol knows its position and its
references, the keys lead to positions, and the spots lead to references. A table in which they agree
is sound (`SymbolTable.Sound`). The empty table is, and each way in which a table grows keeps it so:
a further reference (**`Sound.addReference`**), a further symbol (**`Sound.create`**), and the
declaration of a label that was only referred to (**`Sound.promote`**).
-/

namespace BasicCheck

/-! ## 1. What is read off a table -/

/-- What a symbol is found by. -/
def Symbol.key (s : Symbol) : SymbolKey := ⟨s.kind, Text.fold s.name⟩

namespace SymbolTable

/-- The numbers of the references that point to a symbol, in their order. -/
def numbersOf (t : SymbolTable) (id : Nat) : List Nat :=
  (List.range t.references.size).filter fun n => t.references[n]?.any (·.symbol == id)

/-- The parts of a table agree. -/
structure Sound (t : SymbolTable) : Prop where
  /-- A symbol knows its position. -/
  ids : ∀ {i : Nat} {s : Symbol}, t.symbols[i]? = some s → s.id = i
  /-- The keys are those of the symbols, and each leads to its symbol. -/
  keys : ∀ {k : SymbolKey} {i : Nat}, t.keys[k]? = some i ↔ ∃ s : Symbol, t.symbols[i]? = some s ∧ s.key = k
  /-- A symbol knows its references. -/
  numbers : ∀ {i : Nat} {s : Symbol}, t.symbols[i]? = some s → s.references.toList = t.numbersOf i
  /-- A reference points to a symbol. -/
  targets : ∀ {n : Nat} {r : Reference}, t.references[n]? = some r → r.symbol < t.symbols.size
  /-- A spot leads to a reference that covers it. -/
  spots : ∀ {p : Spot} {n : Nat}, t.spots[p]? = some n →
    ∃ r : Reference, t.references[n]? = some r ∧ p ∈ spotsOf r.token.span

/-- What a key leads to is there. -/
theorem Sound.lt_of_key {t : SymbolTable} (h : t.Sound) {k : SymbolKey} {i : Nat}
    (hi : t.keys[k]? = some i) : i < t.symbols.size := by
  obtain ⟨s, hs, -⟩ := h.keys.mp hi
  exact (Array.getElem?_eq_some_iff.mp hs).1

theorem sound_empty : empty.Sound where
  ids h := by simp [empty] at h
  keys := by simp [empty]
  numbers h := by simp [empty] at h
  targets h := by simp [empty] at h
  spots h := by simp [empty] at h

/-! ## 2. Maps filled and emptied by lists -/

/-- A number entered at several spots is found at each of them. -/
theorem getElem?_foldl_insert (ps : List Spot) (m : Std.ExtTreeMap Spot Nat) (n : Nat) (p : Spot) :
    (ps.foldl (·.insert · n) m)[p]? = if p ∈ ps then some n else m[p]? := by
  induction ps generalizing m with
  | nil => simp
  | cons q ps ih =>
    rw [List.foldl_cons, ih, Std.ExtTreeMap.getElem?_insert]
    by_cases hp : p ∈ ps
    · simp [hp]
    · by_cases hq : q = p
      · subst hq
        simp [hp]
      · have : p ≠ q := fun h => hq h.symm
        simp [hp, hq, this]

/-- Keys that are erased are no longer found, and all others are found as before. -/
theorem getElem?_foldl_erase (ks : List SymbolKey) (m : Std.ExtTreeMap SymbolKey Nat)
    (k : SymbolKey) : (ks.foldl (·.erase ·) m)[k]? = if k ∈ ks then none else m[k]? := by
  induction ks generalizing m with
  | nil => simp
  | cons l ks ih =>
    rw [List.foldl_cons, ih, Std.ExtTreeMap.getElem?_erase]
    by_cases hk : k ∈ ks
    · simp [hk]
    · by_cases hl : l = k
      · subst hl
        simp [hk]
      · have : k ≠ l := fun h => hl h.symm
        simp [hk, hl, this]

/-- A change to a symbol that leaves its key leaves the keys of all symbols. -/
theorem exists_key_modify {symbols : Array Symbol} {id : Nat} {f : Symbol → Symbol}
    (hf : ∀ s, symbols[id]? = some s → (f s).key = s.key) (i : Nat) (k : SymbolKey) :
    (∃ s, (symbols.modify id f)[i]? = some s ∧ s.key = k) ↔
      ∃ s, symbols[i]? = some s ∧ s.key = k := by
  rw [Array.getElem?_modify]
  split
  · rename_i hi
    subst hi
    constructor
    · rintro ⟨s, hs, rfl⟩
      obtain ⟨s', hs', rfl⟩ := Option.map_eq_some_iff.mp hs
      exact ⟨s', hs', (hf s' hs').symm⟩
    · rintro ⟨s, hs, rfl⟩
      exact ⟨f s, Option.map_eq_some_iff.mpr ⟨s, hs, rfl⟩, hf s hs⟩
  · rfl

/-! ## 3. A further reference -/

theorem symbols_addReference (t : SymbolTable) (id : Nat) (token : Token) (i : Nat) :
    (t.addReference id token).symbols[i]? =
      if id = i then (t.symbols[i]?).map fun s =>
        { s with references := s.references.push t.references.size }
      else t.symbols[i]? :=
  Array.getElem?_modify

theorem references_addReference (t : SymbolTable) (id : Nat) (token : Token) :
    (t.addReference id token).references = t.references.push ⟨id, token⟩ := rfl

theorem spots_addReference (t : SymbolTable) (id : Nat) (token : Token) (p : Spot) :
    (t.addReference id token).spots[p]? =
      if p ∈ spotsOf token.span then some t.references.size else t.spots[p]? :=
  getElem?_foldl_insert (spotsOf token.span) t.spots t.references.size p

theorem numbersOf_addReference (t : SymbolTable) (id : Nat) (token : Token) (i : Nat) :
    (t.addReference id token).numbersOf i =
      if id = i then t.numbersOf i ++ [t.references.size] else t.numbersOf i := by
  have hold : ((List.range t.references.size).filter fun n =>
      (t.references.push ⟨id, token⟩)[n]?.any (·.symbol == i)) = t.numbersOf i := by
    refine List.filter_congr fun n hn => ?_
    rw [Array.getElem?_push, if_neg (Nat.ne_of_lt (List.mem_range.mp hn))]
  unfold numbersOf at hold ⊢
  rw [references_addReference, Array.size_push, List.range_succ, List.filter_append, hold]
  by_cases h : id = i <;> simp [h]

/-- A symbol is the same after a further reference, but for its references. -/
theorem exists_symbols_addReference {t : SymbolTable} {id : Nat} {token : Token} {i : Nat}
    {s : Symbol} (h : (t.addReference id token).symbols[i]? = some s) :
    ∃ s' : Symbol, t.symbols[i]? = some s' ∧ s.id = s'.id ∧ s.key = s'.key := by
  rw [symbols_addReference] at h
  split at h
  · obtain ⟨s', hs, rfl⟩ := Option.map_eq_some_iff.mp h
    exact ⟨s', hs, rfl, rfl⟩
  · exact ⟨s, h, rfl, rfl⟩

/-- **A further reference to a symbol keeps a table sound.** -/
theorem Sound.addReference {t : SymbolTable} (h : t.Sound) {id : Nat} (hid : id < t.symbols.size)
    (token : Token) : (t.addReference id token).Sound where
  ids hs := by
    obtain ⟨s', hs', hid', -⟩ := exists_symbols_addReference hs
    rw [hid', h.ids hs']
  keys := by
    intro k i
    show t.keys[k]? = some i ↔ _
    rw [h.keys]
    have hkeep : ∀ s, t.symbols[id]? = some s →
        ({ s with references := s.references.push t.references.size } : Symbol).key = s.key :=
      fun _ _ => rfl
    exact (exists_key_modify hkeep i k).symm
  numbers := by
    intro i s hs
    rw [symbols_addReference] at hs
    rw [numbersOf_addReference]
    split at hs
    · rename_i hi
      obtain ⟨s', hs', rfl⟩ := Option.map_eq_some_iff.mp hs
      rw [if_pos hi, Array.toList_push, h.numbers hs']
    · rename_i hi
      rw [if_neg hi, h.numbers hs]
  targets := by
    intro n r hr
    have hsize : (t.addReference id token).symbols.size = t.symbols.size := Array.size_modify
    rw [references_addReference, Array.getElem?_push] at hr
    rw [hsize]
    split at hr
    · cases hr
      exact hid
    · exact h.targets hr
  spots := by
    intro p n hp
    rw [references_addReference, Array.getElem?_push]
    rw [spots_addReference] at hp
    split at hp
    · rename_i hmem
      cases hp
      exact ⟨⟨id, token⟩, if_pos rfl, hmem⟩
    · obtain ⟨r, hr, hpr⟩ := h.spots hp
      obtain ⟨hn, -⟩ := Array.getElem?_eq_some_iff.mp hr
      exact ⟨r, by rw [if_neg (Nat.ne_of_lt hn)]; exact hr, hpr⟩

/-! ## 4. A further symbol -/

/-- A table with a further symbol that nothing refers to yet. -/
def addSymbol (t : SymbolTable) (token : Token) (meaning : Meaning) : SymbolTable :=
  { t with
    symbols := t.symbols.push ⟨t.symbols.size, token.text, token, meaning, #[]⟩
    keys := t.keys.insert ⟨meaning.kind, token.folded⟩ t.symbols.size }

theorem symbols_addSymbol (t : SymbolTable) (token : Token) (meaning : Meaning) :
    (t.addSymbol token meaning).symbols =
      t.symbols.push ⟨t.symbols.size, token.text, token, meaning, #[]⟩ := rfl

theorem keys_addSymbol (t : SymbolTable) (token : Token) (meaning : Meaning) (k : SymbolKey) :
    (t.addSymbol token meaning).keys[k]? =
      if (⟨meaning.kind, token.folded⟩ : SymbolKey) = k then some t.symbols.size else t.keys[k]? := by
  show (t.keys.insert ⟨meaning.kind, token.folded⟩ t.symbols.size)[k]? = _
  rw [Std.ExtTreeMap.getElem?_insert]
  simp only [Std.LawfulEqCmp.compare_eq_iff_eq]

theorem size_addSymbol (t : SymbolTable) (token : Token) (meaning : Meaning) :
    (t.addSymbol token meaning).symbols.size = t.symbols.size + 1 :=
  Array.size_push _

theorem create_eq (t : SymbolTable) (token : Token) (meaning : Meaning) :
    t.create token meaning = (t.addSymbol token meaning).addReference t.symbols.size token := rfl

theorem Sound.addSymbol {t : SymbolTable} (h : t.Sound) {token : Token} {meaning : Meaning}
    (hfree : t.keys[(⟨meaning.kind, token.folded⟩ : SymbolKey)]? = none) :
    (t.addSymbol token meaning).Sound where
  ids := by
    intro i s hs
    rw [symbols_addSymbol, Array.getElem?_push] at hs
    split at hs
    · rename_i hi
      cases hs
      exact hi.symm
    · exact h.ids hs
  keys := by
    intro k i
    rw [keys_addSymbol, symbols_addSymbol, Array.getElem?_push]
    -- a key leads either to the new symbol, which is the only one with its key, or where it led before
    by_cases hk : (⟨meaning.kind, token.folded⟩ : SymbolKey) = k
    · subst hk
      rw [if_pos rfl]
      by_cases hi : i = t.symbols.size
      · rw [if_pos hi]
        exact ⟨fun _ => ⟨_, rfl, rfl⟩, fun _ => by rw [hi]⟩
      · rw [if_neg hi]
        refine ⟨fun heq => absurd (Option.some.inj heq).symm hi, fun hex => ?_⟩
        rw [h.keys.mpr hex] at hfree
        exact absurd hfree (Option.some_ne_none i)
    · rw [if_neg hk]
      by_cases hi : i = t.symbols.size
      · rw [if_pos hi, h.keys]
        constructor
        · rintro ⟨s, hs, -⟩
          obtain ⟨hlt, -⟩ := Array.getElem?_eq_some_iff.mp hs
          omega
        · rintro ⟨s, hs, rfl⟩
          cases hs
          exact absurd rfl hk
      · rw [if_neg hi, h.keys]
  numbers := by
    intro i s hs
    rw [symbols_addSymbol, Array.getElem?_push] at hs
    rw [show (t.addSymbol token meaning).numbersOf i = t.numbersOf i from rfl]
    split at hs
    · rename_i hi
      cases hs
      -- no reference leads to the new symbol yet, as every target is below the old size
      refine (List.filter_eq_nil_iff.mpr fun n _ hn => ?_).symm
      obtain ⟨r, hr, hri⟩ := (Option.any_eq_true _ _).mp hn
      have hlt := h.targets hr
      have : r.symbol = i := by simpa using hri
      omega
    · exact h.numbers hs
  targets := by
    intro n r hr
    rw [size_addSymbol]
    exact Nat.lt_succ_of_lt (h.targets hr)
  spots hp := h.spots hp

/-- **A further symbol whose key is free keeps a table sound.** -/
theorem Sound.create {t : SymbolTable} (h : t.Sound) {token : Token} {meaning : Meaning}
    (hfree : t.keys[(⟨meaning.kind, token.folded⟩ : SymbolKey)]? = none) :
    (t.create token meaning).Sound := by
  rw [create_eq]
  refine (h.addSymbol hfree).addReference ?_ token
  rw [size_addSymbol]
  exact Nat.lt_succ_self _

/-! ## 5. The declaration of a label -/

/-- A table in which a symbol has become a declared label with a given token. -/
def declareAt (t : SymbolTable) (id : Nat) (token : Token) : SymbolTable :=
  { t with symbols := t.symbols.modify id fun s => { s with token, meaning := .label true } }

theorem symbols_declareAt (t : SymbolTable) (id : Nat) (token : Token) (i : Nat) :
    (t.declareAt id token).symbols[i]? =
      if id = i then (t.symbols[i]?).map fun s => { s with token, meaning := .label true }
      else t.symbols[i]? :=
  Array.getElem?_modify

theorem Sound.declareAt {t : SymbolTable} (h : t.Sound) {id : Nat} {token : Token}
    (hlabel : ∀ s, t.symbols[id]? = some s → s.kind = .label) : (t.declareAt id token).Sound where
  ids := by
    intro i s hs
    rw [symbols_declareAt] at hs
    split at hs
    · obtain ⟨s', hs', rfl⟩ := Option.map_eq_some_iff.mp hs
      exact (h.ids hs' :)
    · exact h.ids hs
  keys := by
    intro k i
    show t.keys[k]? = some i ↔ _
    rw [h.keys]
    refine (exists_key_modify (fun s hs => ?_) i k).symm
    -- the name stays as it is, and so does the kind, which is that of a label
    have hkind : s.kind = .label := hlabel s hs
    simp only [Symbol.key, hkind]
    rfl
  numbers := by
    intro i s hs
    rw [symbols_declareAt] at hs
    rw [show (t.declareAt id token).numbersOf i = t.numbersOf i from rfl]
    split at hs
    · obtain ⟨s', hs', rfl⟩ := Option.map_eq_some_iff.mp hs
      exact (h.numbers hs' :)
    · exact h.numbers hs
  targets := by
    intro n r hr
    rw [show (t.declareAt id token).symbols.size = t.symbols.size from Array.size_modify]
    exact h.targets hr
  spots hp := h.spots hp

/-- **The declaration of a label that was only referred to keeps a table sound.** -/
theorem Sound.promote {t : SymbolTable} (h : t.Sound) {id : Nat} (hid : id < t.symbols.size)
    {token : Token} (hlabel : ∀ s, t.symbols[id]? = some s → s.kind = .label) :
    ((t.declareAt id token).addReference id token).Sound := by
  refine (h.declareAt hlabel).addReference ?_ token
  rw [show (t.declareAt id token).symbols.size = t.symbols.size from Array.size_modify]
  exact hid

end SymbolTable

end BasicCheck
