import BasicCheck.Proofs.Symbol.Rollback

/-!
# Places lead to references

The spots of a table lead from a place in the text back to what is referred to there. This works as
long as no two references overlap, for each spot keeps one number only (`SymbolTable.Indexed`). A
further reference keeps a table indexed if its token stands apart from all others and behind those of
the same symbol (`Indexed.addReference`); the first reference to a symbol need only stand apart
(`Indexed.create`). From this follow the two things that an editor relies on: a reference is found at
exactly the places that it covers (**`Indexed.referenceAt?_eq_some_iff`**), and the references to a
symbol stand in the order of the text (**`Indexed.pairwise_referencesOf`**). That the token of a
symbol is one of the places where it is referred to is a third (`SymbolTable.Owning`).
-/

namespace BasicCheck.SymbolTable

variable {t : SymbolTable} {id : Nat} {token : Token}

/-! ## 1. Where a further reference may stand -/

/-- A token stands apart from everything that is referred to. -/
def Clear (t : SymbolTable) (token : Token) : Prop :=
  ∀ r ∈ t.references, r.token.Before token ∨ token.Before r.token

/-- A token stands behind everything that is referred to. -/
def Latest (t : SymbolTable) (token : Token) : Prop :=
  ∀ r ∈ t.references, r.token.Before token

theorem Latest.clear (h : t.Latest token) : t.Clear token := fun r hr => Or.inl (h r hr)

/-! ## 2. Indexed tables -/

/-- References stand apart, those of one symbol in the order of the text, and each is found at all
    of its spots. -/
structure Indexed (t : SymbolTable) : Prop where
  apart : t.references.toList.Pairwise fun a b => a.token.Before b.token ∨ b.token.Before a.token
  ordered : t.references.toList.Pairwise fun a b => a.symbol = b.symbol → a.token.Before b.token
  covered : ∀ {n : Nat} {r : Reference}, t.references[n]? = some r →
    ∀ p ∈ spotsOf r.token.span, t.spots[p]? = some n

theorem indexed_empty : empty.Indexed where
  apart := List.Pairwise.nil
  ordered := List.Pairwise.nil
  covered h := by simp [empty] at h

theorem Indexed.addReference (h : t.Indexed) (hclear : t.Clear token)
    (hbehind : ∀ r ∈ t.references, r.symbol = id → r.token.Before token) :
    (t.addReference id token).Indexed where
  apart := by
    rw [references_addReference, Array.toList_push]
    refine List.pairwise_append.mpr ⟨h.apart, List.pairwise_singleton _ _, fun r hr q hq => ?_⟩
    rw [List.mem_singleton.mp hq]
    exact hclear r (Array.mem_toList_iff.mp hr)
  ordered := by
    rw [references_addReference, Array.toList_push]
    refine List.pairwise_append.mpr ⟨h.ordered, List.pairwise_singleton _ _, fun r hr q hq => ?_⟩
    rw [List.mem_singleton.mp hq]
    exact hbehind r (Array.mem_toList_iff.mp hr)
  covered := by
    intro n r hr p hp
    rw [references_addReference, Array.getElem?_push] at hr
    rw [spots_addReference]
    split at hr
    · rename_i hn
      cases hr
      rw [if_pos hp, hn]
    · -- an older reference keeps its spots, for the new token has none of them
      have hnot : p ∉ spotsOf token.span := by
        rcases hclear r (Array.mem_of_getElem? hr) with hbefore | hbefore
        · exact notMem_spotsOf hbefore hp
        · exact fun hq => notMem_spotsOf hbefore hq hp
      rw [if_neg hnot]
      exact h.covered hr p hp

/-- Nothing refers to a symbol that is new. -/
theorem Indexed.create (h : t.Indexed) (ht : t.Sound) (hclear : t.Clear token)
    (meaning : Meaning) : (t.create token meaning).Indexed := by
  have hadd : (t.addSymbol token meaning).Indexed := ⟨h.apart, h.ordered, h.covered⟩
  rw [create_eq]
  refine hadd.addReference hclear fun r hr hsymbol => ?_
  obtain ⟨n, hn⟩ := Array.mem_iff_getElem?.mp hr
  have hlt := ht.targets hn
  omega

theorem Indexed.promote (h : t.Indexed) (hlatest : t.Latest token) :
    ((t.declareAt id token).addReference id token).Indexed := by
  have hdeclare : (t.declareAt id token).Indexed := ⟨h.apart, h.ordered, h.covered⟩
  exact hdeclare.addReference hlatest.clear fun r hr _ => hlatest r hr

/-! ## 3. A symbol is referred to where it is declared -/

/-- The token of each symbol is the token of a reference to it. -/
def Owning (t : SymbolTable) : Prop :=
  ∀ {i : Nat} {s : Symbol}, t.symbols[i]? = some s → (⟨i, s.token⟩ : Reference) ∈ t.references

theorem owning_empty : empty.Owning := fun h => by simp [empty] at h

/-- A further reference changes neither the token nor the meaning of a symbol. -/
theorem exists_token_addReference {i : Nat} {s : Symbol}
    (h : (t.addReference id token).symbols[i]? = some s) :
    ∃ s' : Symbol, t.symbols[i]? = some s' ∧ s.token = s'.token ∧ s.meaning = s'.meaning := by
  rw [symbols_addReference] at h
  split at h
  · obtain ⟨s', hs', rfl⟩ := Option.map_eq_some_iff.mp h
    exact ⟨s', hs', rfl, rfl⟩
  · exact ⟨s, h, rfl, rfl⟩

theorem Owning.addReference (h : t.Owning) : (t.addReference id token).Owning := by
  intro i s hs
  obtain ⟨s', hs', htoken, -⟩ := exists_token_addReference hs
  rw [references_addReference, htoken]
  exact Array.mem_push_of_mem _ (h hs')

theorem Owning.create (h : t.Owning) (meaning : Meaning) : (t.create token meaning).Owning := by
  intro i s hs
  rw [create_eq] at hs ⊢
  obtain ⟨s', hs', htoken, -⟩ := exists_token_addReference hs
  rw [references_addReference, htoken]
  rw [symbols_addSymbol, Array.getElem?_push] at hs'
  split at hs'
  · rename_i hi
    cases hs'
    rw [hi]
    exact Array.mem_push_self
  · exact Array.mem_push_of_mem _ (h hs')

theorem Owning.promote (h : t.Owning) : ((t.declareAt id token).addReference id token).Owning := by
  intro i s hs
  obtain ⟨s', hs', htoken, -⟩ := exists_token_addReference hs
  rw [references_addReference, htoken]
  rw [symbols_declareAt] at hs'
  split at hs'
  · rename_i hi
    obtain ⟨s'', -, rfl⟩ := Option.map_eq_some_iff.mp hs'
    rw [← hi]
    exact Array.mem_push_self
  · exact Array.mem_push_of_mem _ (h hs')

/-! ## 4. What is found -/

/-- What is found under the numbers of some members of a list are these members. -/
theorem filterMap_filter_range (p : Reference → Bool) (rs : List Reference) :
    ((List.range rs.length).filter fun n => rs[n]?.any p).filterMap (rs[·]?) = rs.filter p := by
  induction rs with
  | nil => rfl
  | cons r rest ih =>
    rw [List.length_cons, List.range_succ_eq_map, List.filter_cons, List.filter_map, List.filter_cons]
    cases hr : p r <;> simpa [hr, Function.comp_def, List.filterMap_map] using ih

/-- The references to a symbol are those that point to it. -/
theorem referencesOf_eq (ht : t.Sound) {i : Nat} {s : Symbol} (hs : t.symbols[i]? = some s) :
    t.referencesOf s = t.references.toList.filter (·.symbol == i) := by
  have hall := filterMap_filter_range (·.symbol == i) t.references.toList
  simp only [Array.getElem?_toList, Array.length_toList] at hall
  rw [referencesOf, ht.numbers hs, numbersOf, hall]

theorem mem_referencesOf_iff (ht : t.Sound) {i : Nat} {s : Symbol} (hs : t.symbols[i]? = some s)
    (r : Reference) : r ∈ t.referencesOf s ↔ r ∈ t.references ∧ r.symbol = i := by
  rw [referencesOf_eq ht hs, List.mem_filter, Array.mem_toList_iff, beq_iff_eq]

theorem mem_of_referenceAt? {p : Spot} {r : Reference} (h : t.referenceAt? p = some r) :
    r ∈ t.references := by
  obtain ⟨n, -, hn⟩ := Option.bind_eq_some_iff.mp h
  exact Array.mem_of_getElem? hn

/-- **A reference is found at its spots and nowhere else.** -/
theorem Indexed.referenceAt?_eq_some_iff (h : t.Indexed) (ht : t.Sound) {r : Reference}
    (hr : r ∈ t.references) (p : Spot) : t.referenceAt? p = some r ↔ p ∈ spotsOf r.token.span := by
  rw [referenceAt?, Option.bind_eq_some_iff]
  constructor
  · rintro ⟨n, hn, hrn⟩
    obtain ⟨q, hq, hp⟩ := ht.spots hn
    rw [hrn] at hq
    cases hq
    exact hp
  · intro hp
    obtain ⟨n, hn⟩ := Array.mem_iff_getElem?.mp hr
    exact ⟨n, h.covered hn p hp, hn⟩

/-- **The references to a symbol stand in the order of the text.** -/
theorem Indexed.pairwise_referencesOf (h : t.Indexed) (ht : t.Sound) {i : Nat} {s : Symbol}
    (hs : t.symbols[i]? = some s) :
    (t.referencesOf s).Pairwise fun a b => a.token.Before b.token := by
  rw [referencesOf_eq ht hs]
  refine (h.ordered.filter _).imp_of_mem fun {a b} ha hb hab => hab ?_
  have hsymbol {r : Reference} (hr : r ∈ t.references.toList.filter (·.symbol == i)) :
      r.symbol = i := eq_of_beq (List.mem_filter.mp hr).2
  rw [hsymbol ha, hsymbol hb]

theorem Owning.mem_referencesOf (h : t.Owning) (ht : t.Sound) {i : Nat} {s : Symbol}
    (hs : t.symbols[i]? = some s) : (⟨i, s.token⟩ : Reference) ∈ t.referencesOf s := by
  rw [mem_referencesOf_iff ht hs]
  exact ⟨h hs, rfl⟩

end BasicCheck.SymbolTable
