import BasicCheck.Proofs.Symbol.Rollback

/-!
# Tables under every use

A symbol table is used in three ways: it grows by the public operations (`Operation`), its size is
taken, and it is rolled back to a size that was taken and that no rollback has gone below since. The
tables that arise so (`Reached`) are consistent, whatever the tokens are (**`Reached.coherent`**):
symbols stand at their numbers, every key leads to the one symbol that has it, a symbol lists just
the references that point to it, and a spot leads to a reference whose token covers it.

A rollback works by sizes alone. What makes it right is that each checkpoint fits the table
(`Fits`): the references below its size point to symbols below its size, and each of these symbols
has one of them. Growing keeps that (`Fits.grow`), and so does a rollback to a checkpoint that is
not smaller (`Fits.rollback`).
-/

namespace BasicCheck

/-! ## 1. Operations -/

/-- The public ways in which a table is written. -/
inductive Operation where
  | declareFunction (token : Token)
  | declareSubroutine (token : Token)
  | declareInsert (token : Token)
  | declareCommonBlock (token : Token)
  | declareEquate (token : Token) (value : Expr)
  | declareMatrix (token : Token) (rows : Expr) (cols : Option Expr)
  | declareCommonVariable (token : Token) (dimensions : Option (Expr × Option Expr))
  | declareParameter (token : Token) (matrix : Bool)
  | declareLabel (token : Token)
  | referenceVariable (token : Token)
  | referenceEquate (token : Token)
  | referenceFunction (token : Token)
  | referenceSubroutine (token : Token)
  | referenceOrDeclareSubroutine (token : Token)
  | referenceLabel (token : Token)

/-- The table behind an operation. -/
def Operation.apply (t : SymbolTable) : Operation → SymbolTable
  | declareFunction token => (t.declareFunction token).2
  | declareSubroutine token => (t.declareSubroutine token).2
  | declareInsert token => (t.declareInsert token).2
  | declareCommonBlock token => (t.declareCommonBlock token).2
  | declareEquate token value => (t.declareEquate token value).2
  | declareMatrix token rows cols => (t.declareMatrix token rows cols).2
  | declareCommonVariable token dimensions => (t.declareCommonVariable token dimensions).2
  | declareParameter token matrix => (t.declareParameter token matrix).2
  | declareLabel token => (t.declareLabel token).2
  | referenceVariable token => (t.referenceVariable token).2
  | referenceEquate token => (t.referenceEquate token).2
  | referenceFunction token => (t.referenceFunction token).2
  | referenceSubroutine token => (t.referenceSubroutine token).2
  | referenceOrDeclareSubroutine token => (t.referenceOrDeclareSubroutine token).2
  | referenceLabel token => (t.referenceLabel token).2

/-- One size is not above another in any part. -/
def Checkpoint.Within (mark limit : Checkpoint) : Prop :=
  mark.symbols ≤ limit.symbols ∧ mark.references ≤ limit.references

instance (mark limit : Checkpoint) : Decidable (mark.Within limit) :=
  inferInstanceAs (Decidable (_ ∧ _))

namespace SymbolTable

/-- A table that arises from the empty one, with the checkpoints to which it may be rolled back:
    those taken before that no rollback has gone below. -/
inductive Reached : SymbolTable → List Checkpoint → Prop where
  | empty : Reached .empty []
  | operate {t : SymbolTable} {marks : List Checkpoint} (h : Reached t marks) (op : Operation) :
      Reached (op.apply t) marks
  | checkpoint {t : SymbolTable} {marks : List Checkpoint} (h : Reached t marks) :
      Reached t (t.checkpoint :: marks)
  | rollback {t : SymbolTable} {marks : List Checkpoint} (h : Reached t marks) {mark : Checkpoint}
      (hmark : mark ∈ marks) :
      Reached (t.rollback mark) (marks.filter fun m => decide (m.Within mark))

/-! ## 2. What one operation does -/

/-- What an operation makes of a table: nothing, a further reference, a further symbol under a free
    key, or the declaration of a label that is known. -/
inductive Grows (t : SymbolTable) : SymbolTable → Prop where
  | same : Grows t t
  | refer {id : Nat} (hid : id < t.symbols.size) (token : Token) : Grows t (t.addReference id token)
  | create {token : Token} {meaning : Meaning}
      (hfree : t.keys[(⟨meaning.kind, token.folded⟩ : SymbolKey)]? = none) :
      Grows t (t.create token meaning)
  | promote {id : Nat} (hid : id < t.symbols.size) {token : Token}
      (hlabel : ∀ s, t.symbols[id]? = some s → s.kind = .label) :
      Grows t ((t.declareAt id token).addReference id token)

variable {t u : SymbolTable} {mark limit : Checkpoint}

theorem grows_declare (t : SymbolTable) (token : Token) (meaning : Meaning) :
    t.Grows (t.declare token meaning).2 := by
  unfold declare
  split
  · exact .same
  · rename_i hfree
    have hnone : t.keys[(⟨meaning.kind, token.folded⟩ : SymbolKey)]? = none := by
      simpa [contains, find?, Token.folded] using hfree
    exact .create hnone

theorem Sound.grows_reference? (h : t.Sound) (kind : SymbolKind) (token : Token) :
    t.Grows (t.reference? kind token).2 := by
  unfold reference?
  split
  · rename_i id hid
    exact .refer (h.lt_of_key hid) token
  · exact .same

theorem Sound.grows_referenceOrCreate (h : t.Sound) (token : Token) (meaning : Meaning) :
    t.Grows (t.referenceOrCreate token meaning).2 := by
  unfold referenceOrCreate
  split
  · rename_i id hid
    exact .refer (h.lt_of_key hid) token
  · rename_i hfree
    exact .create hfree

theorem Sound.grows_declareLabel (h : t.Sound) (token : Token) :
    t.Grows (t.declareLabel token).2 := by
  unfold declareLabel
  split
  · rename_i hfree
    exact .create hfree
  · rename_i id hid
    split
    · have hlabel : ∀ s, t.symbols[id]? = some s → s.kind = .label := by
        intro s hs
        obtain ⟨s', hs', hkey⟩ := h.keys.mp hid
        rw [hs'] at hs
        cases hs
        exact congrArg SymbolKey.kind hkey
      exact .promote (h.lt_of_key hid) hlabel
    · exact .same

/-- **Every operation grows a sound table in one of the four ways.** -/
theorem Sound.grows_apply (h : t.Sound) (op : Operation) : t.Grows (op.apply t) := by
  cases op with
  | declareFunction token => exact grows_declare t token _
  | declareSubroutine token => exact grows_declare t token _
  | declareInsert token => exact grows_declare t token _
  | declareCommonBlock token => exact grows_declare t token _
  | declareEquate token value => exact grows_declare t token _
  | declareMatrix token rows cols => exact grows_declare t token _
  | declareCommonVariable token dimensions => exact grows_declare t token _
  | declareParameter token matrix => exact grows_declare t token _
  | declareLabel token => exact h.grows_declareLabel token
  | referenceVariable token => exact h.grows_referenceOrCreate token _
  | referenceEquate token => exact h.grows_reference? _ token
  | referenceFunction token => exact h.grows_reference? _ token
  | referenceSubroutine token => exact h.grows_reference? _ token
  | referenceOrDeclareSubroutine token => exact h.grows_referenceOrCreate token _
  | referenceLabel token => exact h.grows_referenceOrCreate token _

theorem Sound.grow (h : t.Sound) (hgrow : t.Grows u) : u.Sound := by
  cases hgrow with
  | same => exact h
  | refer hid token => exact h.addReference hid token
  | create hfree => exact h.create hfree
  | promote hid hlabel => exact h.promote hid hlabel

/-- A table that grows keeps its symbols, though their meaning may change. -/
theorem Grows.symbols_le (h : t.Grows u) : t.symbols.size ≤ u.symbols.size := by
  cases h with
  | same => exact Nat.le_refl _
  | refer hid token => exact Nat.le_of_eq (Array.size_modify).symm
  | create hfree =>
    rw [create_eq, addReference, Array.size_modify, size_addSymbol]
    exact Nat.le_succ _
  | promote hid hlabel =>
    refine Nat.le_of_eq ?_
    rw [addReference, Array.size_modify, declareAt, Array.size_modify]

/-- What a table has grown by is at most one symbol and one reference, and the symbol is what the
    reference points to. -/
theorem Grows.references (h : t.Grows u) :
    u.references = t.references ∧ u.symbols.size = t.symbols.size ∨
      ∃ r : Reference, u.references = t.references.push r ∧
        (u.symbols.size = t.symbols.size ∨
          u.symbols.size = t.symbols.size + 1 ∧ r.symbol = t.symbols.size) := by
  cases h with
  | same => exact Or.inl ⟨rfl, rfl⟩
  | refer hid token => exact Or.inr ⟨_, rfl, Or.inl Array.size_modify⟩
  | @create token meaning hfree =>
    have hsize : (t.create token meaning).symbols.size = t.symbols.size + 1 := by
      rw [create_eq, addReference, Array.size_modify, size_addSymbol]
    exact Or.inr ⟨_, rfl, Or.inr ⟨hsize, rfl⟩⟩
  | @promote id hid token hlabel =>
    have hsize : ((t.declareAt id token).addReference id token).symbols.size = t.symbols.size := by
      rw [addReference, Array.size_modify, declareAt, Array.size_modify]
    exact Or.inr ⟨_, rfl, Or.inl hsize⟩

/-! ## 3. Checkpoints that fit -/

/-- A checkpoint cuts a table where nothing is torn apart. -/
structure Fits (t : SymbolTable) (mark : Checkpoint) : Prop where
  symbols_le : mark.symbols ≤ t.symbols.size
  references_le : mark.references ≤ t.references.size
  /-- What is referred to below the checkpoint is below it. -/
  targets : ∀ {n : Nat} {r : Reference}, n < mark.references → t.references[n]? = some r →
    r.symbol < mark.symbols
  /-- What is below the checkpoint is referred to below it. -/
  named : ∀ i < mark.symbols, ∃ n r, n < mark.references ∧ t.references[n]? = some r ∧ r.symbol = i

theorem fits_empty : empty.Fits empty.checkpoint where
  symbols_le := Nat.le_refl _
  references_le := Nat.le_refl _
  targets hn := absurd hn (Nat.not_lt_zero _)
  named _ hi := absurd hi (Nat.not_lt_zero _)

/-- A checkpoint only looks at the references below it. -/
theorem Fits.of_references (h : t.Fits mark) (hsymbols : mark.symbols ≤ u.symbols.size)
    (hreferences : mark.references ≤ u.references.size)
    (hsame : ∀ n < mark.references, u.references[n]? = t.references[n]?) : u.Fits mark where
  symbols_le := hsymbols
  references_le := hreferences
  targets hn hr := by
    rw [hsame _ hn] at hr
    exact h.targets hn hr
  named i hi := by
    obtain ⟨n, r, hn, hr, hsymbol⟩ := h.named i hi
    rw [← hsame n hn] at hr
    exact ⟨n, r, hn, hr, hsymbol⟩

/-- **A checkpoint keeps fitting when the table grows.** -/
theorem Fits.grow (h : t.Fits mark) (hgrow : t.Grows u) : u.Fits mark := by
  have hsymbols : mark.symbols ≤ u.symbols.size := Nat.le_trans h.symbols_le hgrow.symbols_le
  rcases hgrow.references with ⟨hsame, -⟩ | ⟨r, hpush, -⟩
  · have hreferences : mark.references ≤ u.references.size := hsame ▸ h.references_le
    exact h.of_references hsymbols hreferences fun n _ => by rw [hsame]
  · have hreferences : mark.references ≤ u.references.size := by
      rw [hpush, Array.size_push]
      exact Nat.le_succ_of_le h.references_le
    have hold : ∀ n < mark.references, u.references[n]? = t.references[n]? := by
      intro n hn
      have hlt : n < t.references.size := Nat.lt_of_lt_of_le hn h.references_le
      rw [hpush, Array.getElem?_push, if_neg (Nat.ne_of_lt hlt)]
    exact h.of_references hsymbols hreferences hold

/-- What has just grown fits as a whole. -/
theorem Fits.grow_checkpoint (h : t.Fits t.checkpoint) (hgrow : t.Grows u) (hu : u.Sound) :
    u.Fits u.checkpoint where
  symbols_le := Nat.le_refl _
  references_le := Nat.le_refl _
  targets _ hr := hu.targets hr
  named i hi := by
    have hold : i < t.symbols.size → ∃ n r, n < u.references.size ∧ u.references[n]? = some r ∧
        r.symbol = i := by
      intro hlt
      obtain ⟨n, r, hn, hr, hsymbol⟩ := (h.grow hgrow).named i hlt
      exact ⟨n, r, Nat.lt_of_lt_of_le hn (h.grow hgrow).references_le, hr, hsymbol⟩
    have hlt : i < u.symbols.size := hi
    rcases hgrow.references with ⟨-, hsize⟩ | ⟨r, hpush, hsize | ⟨hsize, hr⟩⟩
    · exact hold (hsize ▸ hlt)
    · exact hold (hsize ▸ hlt)
    · by_cases hnew : i = t.symbols.size
      · -- the new symbol is what the new reference points to
        have hn : t.references.size < u.references.size := by simp [hpush]
        have hget : u.references[t.references.size]? = some r := by simp [hpush]
        exact ⟨t.references.size, r, hn, hget, hr.trans hnew.symm⟩
      · exact hold (by omega)

/-- **A checkpoint keeps fitting when the table is rolled back to one that is not smaller.** -/
theorem Fits.rollback (h : t.Fits mark) (hlimit : t.Fits limit) (hwithin : mark.Within limit) :
    (t.rollback limit).Fits mark := by
  obtain ⟨hsymbols, hreferences⟩ := hwithin
  have hsize : (t.rollback limit).symbols.size = limit.symbols := by
    have := hlimit.symbols_le
    simp [SymbolTable.rollback]
    omega
  have hnumber : (t.rollback limit).references.size = limit.references := by
    have := hlimit.references_le
    simp [SymbolTable.rollback]
    omega
  have hsame : ∀ n < mark.references, (t.rollback limit).references[n]? = t.references[n]? := by
    intro n hn
    rw [references_rollback, if_pos (Nat.lt_of_lt_of_le hn hreferences)]
  exact h.of_references (hsize ▸ hsymbols) (hnumber ▸ hreferences) hsame

/-- A table that is rolled back has the size of the checkpoint. -/
theorem Fits.checkpoint_rollback (h : t.Fits mark) : (t.rollback mark).checkpoint = mark := by
  have hsymbols := h.symbols_le
  have hreferences := h.references_le
  simp [checkpoint, SymbolTable.rollback, Nat.min_eq_left hsymbols, Nat.min_eq_left hreferences]

/-! ## 4. A rollback keeps a table sound -/

theorem numbersOf_rollback (h : t.Fits mark) (i : Nat) :
    (t.rollback mark).numbersOf i = (t.numbersOf i).filter (· < mark.references) := by
  have hsize : (t.rollback mark).references.size = mark.references :=
    congrArg Checkpoint.references h.checkpoint_rollback
  have hrange : (List.range t.references.size).filter (· < mark.references) =
      List.range mark.references := by
    obtain ⟨extra, hextra⟩ := Nat.exists_eq_add_of_le h.references_le
    rw [hextra, List.range_add, List.filter_append]
    have hbelow : (List.range mark.references).filter (· < mark.references) =
        List.range mark.references := by
      rw [List.filter_eq_self]
      intro n hn
      exact decide_eq_true (List.mem_range.mp hn)
    have habove : ((List.range extra).map (mark.references + ·)).filter (· < mark.references) =
        [] := by
      simp [List.filter_eq_nil_iff]
    rw [hbelow, habove, List.append_nil]
  unfold numbersOf
  rw [List.filter_filter, List.filter_congr (fun n _ => Bool.and_comm _ _), ← List.filter_filter,
    hrange, hsize]
  apply List.filter_congr
  intro n hn
  rw [references_rollback, if_pos (List.mem_range.mp hn)]

/-- The keys that are forgotten are those of the symbols that are cut off. -/
theorem Sound.mem_drop_keys_iff (h : t.Sound) {k : SymbolKey} :
    k ∈ (t.symbols.toList.map Symbol.key).drop mark.symbols ↔
      ∃ j, mark.symbols ≤ j ∧ t.keys[k]? = some j := by
  simp only [List.mem_drop_iff_getElem, List.getElem_map, List.length_map, Array.length_toList,
    Array.getElem_toList]
  constructor
  · rintro ⟨j, hj, rfl⟩
    have hj : mark.symbols + j < t.symbols.size := by omega
    exact ⟨_, Nat.le_add_right _ j, h.keys.mpr ⟨_, Array.getElem?_eq_getElem hj, rfl⟩⟩
  · rintro ⟨j, hj, hkey⟩
    obtain ⟨s, hs, rfl⟩ := h.keys.mp hkey
    obtain ⟨hlt, rfl⟩ := Array.getElem?_eq_some_iff.mp hs
    obtain ⟨d, rfl⟩ := Nat.exists_eq_add_of_le hj
    exact ⟨d, by omega, rfl⟩

/-- A key that is left leads to the symbol that it led to, which is left as well. -/
theorem Sound.keys_rollback_eq_some_iff (h : t.Sound) {k : SymbolKey} {i : Nat} :
    (t.rollback mark).keys[k]? = some i ↔ i < mark.symbols ∧ t.keys[k]? = some i := by
  rw [keys_rollback]
  split
  · rename_i hdropped
    obtain ⟨j, hj, hkey⟩ := h.mem_drop_keys_iff.mp hdropped
    refine iff_of_false nofun fun ⟨hi, hkey'⟩ => ?_
    cases hkey.symm.trans hkey'
    exact Nat.not_lt_of_le hj hi
  · rename_i hkept
    refine ⟨fun hkey => ⟨Nat.lt_of_not_le fun hi => ?_, hkey⟩, And.right⟩
    exact hkept (h.mem_drop_keys_iff.mpr ⟨i, hi, hkey⟩)

/-- **A table that is rolled back to a checkpoint that fits is sound.** -/
theorem Sound.rollback (h : t.Sound) (hfits : t.Fits mark) : (t.rollback mark).Sound where
  ids := by
    intro i s hs
    -- what is left of a symbol has the identity and the key of the symbol itself
    obtain ⟨-, s', hs', rfl⟩ := symbols_rollback_eq_some_iff.mp hs
    exact (h.ids hs' :)
  keys := by
    intro k i
    rw [h.keys_rollback_eq_some_iff, h.keys]
    constructor
    · rintro ⟨hi, s, hs, rfl⟩
      exact ⟨_, symbols_rollback_eq_some_iff.mpr ⟨hi, s, hs, rfl⟩, rfl⟩
    · rintro ⟨s, hs, rfl⟩
      obtain ⟨hi, s', hs', rfl⟩ := symbols_rollback_eq_some_iff.mp hs
      exact ⟨hi, s', hs', rfl⟩
  numbers := by
    intro i s hs
    obtain ⟨-, s', hs', rfl⟩ := symbols_rollback_eq_some_iff.mp hs
    rw [numbersOf_rollback hfits, ← h.numbers hs']
    exact Array.toList_filter
  targets := by
    intro n r hr
    obtain ⟨hn, hr'⟩ := references_rollback_eq_some_iff.mp hr
    have hsize : (t.rollback mark).symbols.size = mark.symbols :=
      congrArg Checkpoint.symbols hfits.checkpoint_rollback
    rw [hsize]
    exact hfits.targets hn hr'
  spots := by
    intro p n hp
    rw [spots_rollback] at hp
    obtain ⟨hget, hn⟩ := Option.filter_eq_some_iff.mp hp
    obtain ⟨r, hr, hmem⟩ := h.spots hget
    exact ⟨r, references_rollback_eq_some_iff.mpr ⟨of_decide_eq_true hn, hr⟩, hmem⟩

/-! ## 5. All tables -/

/-- **What a table that arises keeps up:** it is sound, and it and all its checkpoints fit. -/
theorem Reached.sound_and_fits {marks : List Checkpoint} (h : Reached t marks) :
    t.Sound ∧ t.Fits t.checkpoint ∧ ∀ mark ∈ marks, t.Fits mark := by
  -- on the history: a checkpoint that fits still does when the table grows or is cut above it
  induction h with
  | empty => exact ⟨sound_empty, fits_empty, fun _ hmark => absurd hmark List.not_mem_nil⟩
  | operate h op ih =>
    obtain ⟨hsound, hwhole, hmarks⟩ := ih
    have hgrow := hsound.grows_apply op
    have hsound' := hsound.grow hgrow
    exact ⟨hsound', hwhole.grow_checkpoint hgrow hsound', fun m hm => (hmarks m hm).grow hgrow⟩
  | checkpoint h ih =>
    obtain ⟨hsound, hwhole, hmarks⟩ := ih
    refine ⟨hsound, hwhole, ?_⟩
    intro m hm
    rcases List.mem_cons.mp hm with rfl | hm
    · exact hwhole
    · exact hmarks m hm
  | rollback h hmark ih =>
    obtain ⟨hsound, -, hmarks⟩ := ih
    have hfits := hmarks _ hmark
    have hwhole := hfits.rollback hfits ⟨Nat.le_refl _, Nat.le_refl _⟩
    refine ⟨hsound.rollback hfits, ?_, ?_⟩
    · rw [hfits.checkpoint_rollback]
      exact hwhole
    · intro m hm
      obtain ⟨hm, hwithin⟩ := List.mem_filter.mp hm
      exact (hmarks m hm).rollback hfits (of_decide_eq_true hwithin)

/-- A token covers the characters from its start to just before its stop, and in any case the one at
    its start. -/
def Covers (token : Token) (p : Spot) : Prop :=
  p.file = token.span.file ∧
    ((⟨p.line, p.column⟩ : Place) = token.span.start ∨
      token.span.start ≤ (⟨p.line, p.column⟩ : Place) ∧ (⟨p.line, p.column⟩ : Place) < token.span.stop)

theorem covers_of_mem_spotsOf {token : Token} {p : Spot} (h : p ∈ spotsOf token.span) :
    Covers token p := by
  unfold spotsOf at h
  split at h
  · rename_i hline
    obtain ⟨column, hcolumn, rfl⟩ := List.mem_map.mp h
    have hrange := List.mem_range'_1.mp hcolumn
    refine ⟨rfl, ?_⟩
    by_cases hstart : column = token.span.start.column
    · left
      rw [hstart]
    · right
      have hlt : column < token.span.stop.column := by omega
      have hle : token.span.start.column ≤ column := hrange.1
      exact ⟨Or.inr ⟨rfl, hle⟩, Or.inr ⟨hline, hlt⟩⟩
  · rw [List.mem_singleton.mp h]
    exact ⟨rfl, Or.inl rfl⟩

/-- The parts of a table agree, said of each part by itself. -/
structure Coherent (t : SymbolTable) : Prop where
  /-- The number of a symbol is its position. -/
  ids : ∀ {i : Nat} {s : Symbol}, t.symbols[i]? = some s → s.id = i
  /-- The keys are the kinds and small names of the symbols, each with the number of its symbol. -/
  keys : ∀ {k : SymbolKey} {i : Nat},
    t.keys[k]? = some i ↔ ∃ s, t.symbols[i]? = some s ∧ k = ⟨s.kind, Text.fold s.name⟩
  /-- There are as many keys as symbols. -/
  keys_size : t.keys.size = t.symbols.size
  /-- No two symbols share a key. -/
  distinct : ∀ {i j : Nat} {a b : Symbol}, t.symbols[i]? = some a → t.symbols[j]? = some b →
    a.kind = b.kind → Text.fold a.name = Text.fold b.name → i = j
  /-- A symbol lists its references in their order. -/
  increasing : ∀ s ∈ t.symbols, s.references.toList.Pairwise (· < ·)
  /-- Every symbol has a reference. -/
  nonempty : ∀ s ∈ t.symbols, s.references ≠ #[]
  /-- A symbol lists the references that point to it and no others. -/
  references : ∀ {i : Nat} {s : Symbol}, t.symbols[i]? = some s → ∀ n : Nat,
    n ∈ s.references ↔ ∃ r, t.references[n]? = some r ∧ r.symbol = i
  /-- A reference points to a symbol that is there. -/
  targets : ∀ r ∈ t.references, r.symbol < t.symbols.size
  /-- A spot leads to a reference whose token covers it. -/
  spots : ∀ {p : Spot} {n : Nat}, t.spots[p]? = some n →
    ∃ r, t.references[n]? = some r ∧ Covers r.token p

theorem mem_numbersOf (t : SymbolTable) (i n : Nat) :
    n ∈ t.numbersOf i ↔ ∃ r, t.references[n]? = some r ∧ r.symbol = i := by
  rw [numbersOf, List.mem_filter, List.mem_range, Option.any_eq_true]
  constructor
  · rintro ⟨-, r, hr, hsymbol⟩
    exact ⟨r, hr, eq_of_beq hsymbol⟩
  · rintro ⟨r, hr, rfl⟩
    obtain ⟨hn, -⟩ := Array.getElem?_eq_some_iff.mp hr
    exact ⟨hn, r, hr, beq_self_eq_true _⟩

/-- In a sound table no two symbols have one key. -/
theorem Sound.eq_of_key (h : t.Sound) {i j : Nat} {a b : Symbol} (ha : t.symbols[i]? = some a)
    (hb : t.symbols[j]? = some b) (hkey : a.key = b.key) : i = j := by
  have hi := h.keys.mpr ⟨a, ha, rfl⟩
  have hj := h.keys.mpr ⟨b, hb, rfl⟩
  rw [hkey, hj] at hi
  exact (Option.some.inj hi).symm

theorem Sound.size_keys (h : t.Sound) : t.keys.size = t.symbols.size := by
  have hnodup : (t.symbols.toList.map Symbol.key).Nodup := by
    rw [List.Nodup, List.pairwise_iff_getElem]
    intro i j hi hj hij hkey
    simp only [List.getElem_map, Array.getElem_toList] at hkey
    simp only [List.length_map, Array.length_toList] at hi hj
    have := h.eq_of_key (Array.getElem?_eq_getElem hi) (Array.getElem?_eq_getElem hj) hkey
    omega
  have hmem : ∀ k, k ∈ t.keys.keys ↔ k ∈ t.symbols.toList.map Symbol.key := by
    intro k
    rw [Std.ExtTreeMap.mem_keys, Std.ExtTreeMap.mem_iff_isSome_getElem?, Option.isSome_iff_exists,
      List.mem_map]
    constructor
    · rintro ⟨i, hi⟩
      obtain ⟨s, hs, hkey⟩ := h.keys.mp hi
      exact ⟨s, Array.mem_toList_iff.mpr (Array.mem_of_getElem? hs), hkey⟩
    · rintro ⟨s, hs, hkey⟩
      obtain ⟨i, hi⟩ := Array.mem_iff_getElem?.mp (Array.mem_toList_iff.mp hs)
      exact ⟨i, h.keys.mpr ⟨s, hi, hkey⟩⟩
  have hperm := (List.perm_ext_iff_of_nodup Std.ExtTreeMap.nodup_keys hnodup).mpr hmem
  have hlength := hperm.length_eq
  rwa [Std.ExtTreeMap.length_keys, List.length_map, Array.length_toList] at hlength

/-- **Every table that arises is coherent.** -/
theorem Reached.coherent {marks : List Checkpoint} (h : Reached t marks) : t.Coherent := by
  -- a table that arises is sound and whole, and that is all that coherence asks for
  obtain ⟨hsound, hwhole, -⟩ := h.sound_and_fits
  have hmem {i : Nat} {s : Symbol} (hs : t.symbols[i]? = some s) (n : Nat) :
      n ∈ s.references ↔ ∃ r, t.references[n]? = some r ∧ r.symbol = i := by
    rw [← Array.mem_toList_iff, hsound.numbers hs, mem_numbersOf]
  exact {
    ids := hsound.ids
    keys := by
      intro k i
      rw [hsound.keys]
      constructor
      · rintro ⟨s, hs, rfl⟩
        exact ⟨s, hs, rfl⟩
      · rintro ⟨s, hs, rfl⟩
        exact ⟨s, hs, rfl⟩
    keys_size := hsound.size_keys
    distinct := by
      intro i j a b ha hb hkind hname
      have hkey : a.key = b.key := by
        rw [Symbol.key, Symbol.key, hkind, hname]
      exact hsound.eq_of_key ha hb hkey
    increasing := by
      intro s hs
      obtain ⟨i, hi⟩ := Array.mem_iff_getElem?.mp hs
      rw [hsound.numbers hi]
      exact List.pairwise_lt_range.filter _
    nonempty := by
      intro s hs hnil
      obtain ⟨i, hi⟩ := Array.mem_iff_getElem?.mp hs
      obtain ⟨hlt, -⟩ := Array.getElem?_eq_some_iff.mp hi
      -- each symbol was created at a token that refers to it, and keeps that reference
      obtain ⟨n, r, -, hr, hsymbol⟩ := hwhole.named i hlt
      have hn := (hmem hi n).mpr ⟨r, hr, hsymbol⟩
      rw [hnil] at hn
      exact Array.not_mem_empty n hn
    references := hmem
    targets := by
      intro r hr
      obtain ⟨n, hn⟩ := Array.mem_iff_getElem?.mp hr
      exact hsound.targets hn
    spots := by
      intro p n hp
      obtain ⟨r, hr, hmem⟩ := hsound.spots hp
      exact ⟨r, hr, covers_of_mem_spotsOf hmem⟩ }

/-- A label that was referred to is forgotten by a rollback and then declared under another name. -/
theorem coherent_forgotten_label :
    let total : Token := ⟨.ident, "Total", .onLine 1 0 5 0, false⟩
    let done : Token := ⟨.ident, "Done", .onLine 2 5 9 0, false⟩
    let exit : Token := ⟨.ident, "EXIT", .onLine 2 5 9 0, false⟩
    let before := (Operation.referenceVariable total).apply .empty
    let after := (Operation.declareLabel exit).apply
      (((Operation.referenceLabel done).apply before).rollback before.checkpoint)
    Reached after [before.checkpoint] ∧ after.symbols.toList.map Symbol.name = ["Total", "EXIT"] ∧
      after.Coherent := by
  intro total done exit before after
  have hbefore : Reached before [before.checkpoint] := .checkpoint (.operate .empty _)
  have hback : Reached (((Operation.referenceLabel done).apply before).rollback before.checkpoint)
      [before.checkpoint] :=
    .rollback (.operate hbefore _) List.mem_cons_self
  have hafter : Reached after [before.checkpoint] := .operate hback _
  exact ⟨hafter, by decide +kernel, hafter.coherent⟩

end SymbolTable

end BasicCheck
