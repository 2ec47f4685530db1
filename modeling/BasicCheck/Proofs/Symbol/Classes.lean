import BasicCheck.Proofs.Symbol.Indexed
import BasicCheck.Proofs.Symbol.Kept

/-!
# Classes of names

An equate, a parameter, a common variable and a matrix are what only a declaration makes of a name
(`Meaning.isBound`); any other variable comes into being where it is first used. A name that is bound
to an equate should not be a variable as well. It is one (`SymbolTable.Mixed`) only where a variable is
named whether or not there is an equate (`NamedApart`), and then it is not bound as a variable
(`SymbolTable.Exclusive`).

Which tokens were read while a table grew tells what has come of it (`SymbolTable.Stems`): nothing that
was there has changed, what is bound since was named by one of the tokens, and so was whatever has been
mixed. A further symbol keeps that so if it is only bound where nothing else has its name
(**`Stems.create`**), and a rollback keeps it in any case (**`Fixes.stems_rollback`**).
-/

namespace BasicCheck

/-! ## 1. Names that are bound -/

/-- What only a declaration makes of a name: an equate, a parameter, a common variable, a matrix. -/
def Meaning.isBound : Meaning → Bool
  | .equate _ | .variable .parameter _ | .variable .common _ | .variable _ (.matrix _ _) => true
  | _ => false

/-- What is bound is an equate or a variable. -/
theorem Meaning.kind_of_isBound {meaning : Meaning} (h : meaning.isBound) :
    meaning.kind = .equate ∨ meaning.kind = .variable := by
  cases meaning with
  | equate value => exact Or.inl rfl
  | «variable» scope shape => exact Or.inr rfl
  | _ => cases h

/-- The rows and columns that a matrix was declared with. -/
def Meaning.dimensions : Meaning → List Expr
  | .variable _ (.matrix rows cols) => rows.toList ++ cols.toList
  | _ => []

namespace Symbol

def isBound (s : Symbol) : Bool := s.meaning.isBound

def dimensions (s : Symbol) : List Expr := s.meaning.dimensions

end Symbol

/-- A matrix is bound. -/
theorem Symbol.isBound_of_isMatrix {s : Symbol} (h : s.isMatrix) : s.isBound := by
  unfold isMatrix at h
  split at h
  · rename_i scope rows cols heq
    rw [isBound, heq]
    cases scope <;> rfl
  · cases h

/-- A parameter and a common variable are bound. -/
theorem Symbol.isBound_of_scope? {s : Symbol} {scope : Scope} (h : s.scope? = some scope)
    (hscope : scope = .parameter ∨ scope = .common) : s.isBound := by
  unfold scope? at h
  split at h
  · rename_i heq
    cases h
    rw [isBound, heq]
    rcases hscope with rfl | rfl <;> rfl
  · cases h

/-- An equate is bound. -/
theorem Symbol.isBound_of_kind {s : Symbol} (h : s.kind = .equate) : s.isBound := by
  obtain ⟨_, _, _, meaning, _⟩ := s
  cases meaning with
  | equate value => rfl
  | _ => cases h

/-- The words, and the sign, behind which a variable is named whether or not there is an equate. -/
def Kind.namesVariable : Kind → Bool
  | .keyword .FOR | .keyword .NEXT | .keyword .MAT | .keyword .MATREAD | .keyword .MATWRITE
  | .keyword .INTO | .atSign => true
  | _ => false

/-- A name that stands for a variable among some tokens, whether or not there is an equate: it is a
    word of the language or a variable of the system, or it stands right behind one of the words that
    name a variable. -/
def NamedApart (tokens : List Token) (name : String) : Prop :=
  (∃ w ∈ tokens, w.folded = name ∧ (w.kind.isKeyword ∨ w.kind = .systemVariable)) ∨
    ∃ k w : Token, [k, w] <:+: tokens ∧ k.kind.namesVariable ∧ w.folded = name

theorem NamedApart.mono {tokens more : List Token} {name : String} (h : NamedApart tokens name)
    (hwithin : tokens <:+: more) : NamedApart more name := by
  rcases h with ⟨w, hw, hname⟩ | ⟨k, w, hpair, hname⟩
  · exact Or.inl ⟨w, hwithin.subset hw, hname⟩
  · exact Or.inr ⟨k, w, hpair.trans hwithin, hname⟩

/-- A matrix is no label. -/
theorem Symbol.kind_ne_label_of_isMatrix {s : Symbol} (h : s.isMatrix) : s.kind ≠ .label := by
  intro hlabel
  rcases Meaning.kind_of_isBound (isBound_of_isMatrix h) with hk | hk <;>
    exact absurd (hk.symm.trans hlabel) (by decide)

namespace SymbolTable

variable {t u v : SymbolTable}

/-! ## 2. Mixed names -/

/-- There is a symbol with a given key. -/
def Has (t : SymbolTable) (k : SymbolKey) : Prop :=
  ∃ (i : Nat) (s : Symbol), t.symbols[i]? = some s ∧ s.key = k

theorem Sound.contains_iff (h : t.Sound) {kind : SymbolKind} {name : String} :
    t.contains kind name = true ↔ t.Has ⟨kind, Text.fold name⟩ := by
  unfold contains find?
  rw [Option.isSome_iff_exists]
  exact exists_congr fun i => h.keys

/-- A matrix is found by its name, and so is only a matrix. -/
theorem isMatrix_iff {name : String} :
    t.isMatrix name = true ↔ ∃ b, t.lookup? .variable name = some b ∧ b.isMatrix := by
  unfold isMatrix
  exact Option.any_eq_true _ _

theorem Sound.lookup?_eq_some_iff (h : t.Sound) {kind : SymbolKind}
    {name : String} {b : Symbol} : t.lookup? kind name = some b ↔
      ∃ n : Nat, t.symbols[n]? = some b ∧ b.key = ⟨kind, Text.fold name⟩ := by
  unfold lookup?
  rw [Option.bind_eq_some_iff]
  constructor
  · rintro ⟨n, hn, hb⟩
    obtain ⟨b', hb', hkey⟩ := h.keys.mp hn
    cases hb.symm.trans hb'
    exact ⟨n, hb, hkey⟩
  · rintro ⟨n, hb, hkey⟩
    exact ⟨n, h.keys.mpr ⟨b, hb, hkey⟩, hb⟩

/-- A matrix is a variable that is there. -/
theorem contains_of_isMatrix {name : String} (h : t.isMatrix name = true) :
    t.contains .variable name = true := by
  obtain ⟨b, hb, -⟩ := isMatrix_iff.mp h
  obtain ⟨id, hid, -⟩ := Option.bind_eq_some_iff.mp hb
  rw [contains, hid]
  rfl

/-- A name is both that of an equate and that of a variable. -/
def Mixed (t : SymbolTable) (name : String) : Prop :=
  t.Has ⟨.equate, name⟩ ∧ t.Has ⟨.variable, name⟩

/-- No equate has the name of a variable that is bound. -/
def Exclusive (t : SymbolTable) : Prop :=
  ∀ {i j : Nat} {a b : Symbol}, t.symbols[i]? = some a → t.symbols[j]? = some b →
    a.kind = .equate → b.kind = .variable → b.isBound → Text.fold a.name ≠ Text.fold b.name

theorem exclusive_empty : empty.Exclusive := fun h => by simp [empty] at h

/-- What stands at a place is noted there as a name of values, that is of an equate or a variable. -/
def Refers (t : SymbolTable) (span : Span) (name : String) : Prop :=
  ∃ (n : Nat) (r : Reference) (s : Symbol), t.references[n]? = some r ∧ r.token.span = span ∧
    t.symbols[r.symbol]? = some s ∧ (s.key = ⟨.variable, name⟩ ∨ s.key = ⟨.equate, name⟩)

/-- A further reference is noted. -/
theorem refers_addReference {id : Nat} {s : Symbol} (hs : t.symbols[id]? = some s) (token : Token)
    (hkey : s.key = ⟨.variable, token.folded⟩ ∨ s.key = ⟨.equate, token.folded⟩) :
    (t.addReference id token).Refers token.span token.folded := by
  refine ⟨t.references.size, ⟨id, token⟩, { s with references := s.references.push t.references.size },
    ?_, rfl, ?_, hkey⟩
  · rw [references_addReference, Array.getElem?_push, if_pos rfl]
  · rw [symbols_addReference, if_pos rfl, hs]
    rfl

theorem refers_create (t : SymbolTable) (token : Token) {meaning : Meaning}
    (hkind : meaning.kind = .variable ∨ meaning.kind = .equate) :
    (t.create token meaning).Refers token.span token.folded := by
  rw [create_eq]
  refine refers_addReference (s := ⟨t.symbols.size, token.text, token, meaning, #[]⟩) ?_ token ?_
  · rw [symbols_addSymbol, Array.getElem?_push, if_pos rfl]
  · exact hkind.imp (fun h => by rw [← h]; rfl) fun h => by rw [← h]; rfl

/-- A declaration is noted unless the name is taken. -/
theorem refers_declare {token : Token} {meaning : Meaning}
    (hkind : meaning.kind = .variable ∨ meaning.kind = .equate)
    (hdone : (t.declare token meaning).1 = true) :
    (t.declare token meaning).2.Refers token.span token.folded := by
  unfold declare at hdone ⊢
  split at hdone
  · cases hdone
  · rename_i hfree
    rw [if_neg hfree]
    exact refers_create t token hkind

theorem Sound.refers_referenceVariable (ht : t.Sound) (token : Token) :
    (t.referenceVariable token).2.Refers token.span token.folded := by
  unfold referenceVariable referenceOrCreate
  split
  · rename_i id hid
    obtain ⟨s, hs, hkey⟩ := ht.keys.mp hid
    exact refers_addReference hs token (Or.inl hkey)
  · exact refers_create t token (Or.inl rfl)

/-- An equate that is found is noted. -/
theorem Sound.refers_reference? (ht : t.Sound) {token : Token}
    (hfound : (t.reference? .equate token).1.isSome) :
    (t.reference? .equate token).2.Refers token.span token.folded := by
  cases hid : t.find? .equate token.text with
  | none => simp [reference?, hid] at hfound
  | some id =>
    obtain ⟨s, hs, hkey⟩ := ht.keys.mp hid
    simp only [reference?, hid]
    exact refers_addReference hs token (Or.inr hkey)

/-! ## 3. What stays as it is -/

/-- All symbols of a table are those of another one, with the same references; labels apart, they have
    the same tokens and the same meanings. -/
structure Fixes (t u : SymbolTable) : Prop where
  symbols : ∀ {i : Nat} {s : Symbol}, t.symbols[i]? = some s →
    ∃ s' : Symbol, u.symbols[i]? = some s' ∧ s'.key = s.key ∧
      (s.kind ≠ .label → s'.token = s.token ∧ s'.meaning = s.meaning)
  references : ∀ {n : Nat} {r : Reference}, t.references[n]? = some r → u.references[n]? = some r

namespace Fixes

theorem refl (t : SymbolTable) : t.Fixes t := ⟨fun hs => ⟨_, hs, rfl, fun _ => ⟨rfl, rfl⟩⟩, id⟩

theorem trans (h : t.Fixes u) (g : u.Fixes v) : t.Fixes v where
  symbols {i s} hs := by
    obtain ⟨s', hs', hkey, hsame⟩ := h.symbols hs
    obtain ⟨s'', hs'', hkey', hsame'⟩ := g.symbols hs'
    refine ⟨s'', hs'', hkey'.trans hkey, fun hkind => ?_⟩
    have hkind' : s'.kind = s.kind := congrArg SymbolKey.kind hkey
    obtain ⟨htoken, hmeaning⟩ := hsame hkind
    obtain ⟨htoken', hmeaning'⟩ := hsame' (hkind' ▸ hkind)
    exact ⟨htoken'.trans htoken, hmeaning'.trans hmeaning⟩
  references hr := g.references (h.references hr)

theorem addReference (t : SymbolTable) (id : Nat) (token : Token) :
    t.Fixes (t.addReference id token) where
  symbols {i s} hs := by
    rw [symbols_addReference, hs]
    split
    · exact ⟨_, rfl, rfl, fun _ => ⟨rfl, rfl⟩⟩
    · exact ⟨s, rfl, rfl, fun _ => ⟨rfl, rfl⟩⟩
  references := (Keeps.addReference t id token).references

theorem addSymbol (t : SymbolTable) (token : Token) (meaning : Meaning) :
    t.Fixes (t.addSymbol token meaning) where
  symbols {i s} hs := by
    obtain ⟨hi, -⟩ := Array.getElem?_eq_some_iff.mp hs
    refine ⟨s, ?_, rfl, fun _ => ⟨rfl, rfl⟩⟩
    rw [symbols_addSymbol, Array.getElem?_push, if_neg (Nat.ne_of_lt hi)]
    exact hs
  references := id

theorem create (t : SymbolTable) (token : Token) (meaning : Meaning) :
    t.Fixes (t.create token meaning) := by
  rw [create_eq]
  exact (addSymbol t token meaning).trans (addReference _ _ token)

theorem declareAt {id : Nat} (hlabel : ∀ s, t.symbols[id]? = some s → s.kind = .label)
    (token : Token) : t.Fixes (t.declareAt id token) where
  symbols {i s} hs := by
    obtain ⟨s', hs', hkey, -⟩ := (Keeps.declareAt hlabel token).symbols hs
    refine ⟨s', hs', hkey, fun hkind => ?_⟩
    have hother : id ≠ i := by
      rintro rfl
      exact hkind (hlabel s hs)
    rw [symbols_declareAt, if_neg hother, hs] at hs'
    rw [← Option.some.inj hs']
    exact ⟨rfl, rfl⟩
  references hr := hr

/-- What is rolled back to a table that it has all of is that table, references to it apart. -/
theorem rollback (h : t.Fixes u) : t.Fixes (u.rollback t.checkpoint) where
  symbols {i s} hs := by
    obtain ⟨hi, -⟩ := Array.getElem?_eq_some_iff.mp hs
    obtain ⟨s', hs', hsame⟩ := h.symbols hs
    have hlt : i < t.checkpoint.symbols := hi
    rw [symbols_rollback, if_pos hlt, hs']
    exact ⟨_, rfl, hsame⟩
  references {n r} hr := by
    obtain ⟨hn, -⟩ := Array.getElem?_eq_some_iff.mp hr
    have hlt : n < t.checkpoint.references := hn
    rw [references_rollback, if_pos hlt]
    exact h.references hr

/-- What is found at the position of an earlier symbol is that symbol. -/
theorem exists_of_lt (h : t.Fixes u) {i : Nat} {s : Symbol} (hs : u.symbols[i]? = some s)
    (hi : i < t.symbols.size) : ∃ s' : Symbol, t.symbols[i]? = some s' ∧ s.key = s'.key ∧
      (s'.kind ≠ .label → s.token = s'.token ∧ s.meaning = s'.meaning) := by
  have hthere := Array.getElem?_eq_getElem hi
  obtain ⟨s', hs', hsame⟩ := h.symbols hthere
  cases hs.symm.trans hs'
  exact ⟨_, hthere, hsame⟩

/-- A matrix at the position of an earlier symbol was that matrix. -/
theorem isMatrix_of_lt (h : t.Fixes u) {i : Nat} {s : Symbol} (hs : u.symbols[i]? = some s)
    (hi : i < t.symbols.size) (hmatrix : s.isMatrix) : ∃ s' : Symbol, t.symbols[i]? = some s' ∧
      s.key = s'.key ∧ s'.isMatrix ∧ s.token = s'.token ∧ s.dimensions = s'.dimensions := by
  obtain ⟨s', hs', hkey, hsame⟩ := h.exists_of_lt hs hi
  have hkind : s.kind = s'.kind := congrArg SymbolKey.kind hkey
  obtain ⟨htoken, hmeaning⟩ := hsame (hkind ▸ Symbol.kind_ne_label_of_isMatrix hmatrix)
  refine ⟨s', hs', hkey, ?_, htoken, by rw [Symbol.dimensions, hmeaning, Symbol.dimensions]⟩
  rw [Symbol.isMatrix, ← hmeaning]
  exact hmatrix

theorem refers (h : t.Fixes u) {span : Span} {name : String} (hr : t.Refers span name) :
    u.Refers span name := by
  obtain ⟨n, r, x, hn, hspan, hx, hkey⟩ := hr
  obtain ⟨x', hx', hkey', -⟩ := h.symbols hx
  exact ⟨n, r, x', h.references hn, hspan, hx', hkey' ▸ hkey⟩

end Fixes

/-! ## 4. What comes of a table -/

/-- One table comes of another one while some tokens are read behind given ones. -/
structure Stems (t : SymbolTable) (front read : List Token) (u : SymbolTable) : Prop where
  fixes : t.Fixes u
  /-- What is bound since has the name of an identifier that has been read. -/
  bound : ∀ {i : Nat} {s : Symbol}, u.symbols[i]? = some s → t.symbols.size ≤ i → s.isBound →
    s.token ∈ read ∧ s.token.kind = .ident ∧ s.token.folded = Text.fold s.name
  exclusive : t.Exclusive → u.Exclusive
  /-- A name that is mixed since has been named as a variable in any case. -/
  mixed : ∀ {name : String}, u.Mixed name → t.Mixed name ∨ NamedApart (front ++ read) name

variable {front front' read read' : List Token}

/-- Nothing comes of a table without a further symbol. -/
theorem Fixes.stems (h : t.Fixes u) (hsize : u.symbols.size ≤ t.symbols.size) :
    t.Stems front read u where
  fixes := h
  bound hs hi _ := by
    obtain ⟨hlt, -⟩ := Array.getElem?_eq_some_iff.mp hs
    omega
  exclusive ht i j a b ha hb hequate hvariable hbound := by
    obtain ⟨hi, -⟩ := Array.getElem?_eq_some_iff.mp ha
    obtain ⟨hj, -⟩ := Array.getElem?_eq_some_iff.mp hb
    obtain ⟨a', ha', hkeya, -⟩ := h.exists_of_lt ha (by omega)
    obtain ⟨b', hb', hkeyb, hsame⟩ := h.exists_of_lt hb (by omega)
    have hkinda : a.kind = a'.kind := congrArg SymbolKey.kind hkeya
    have hkindb : b.kind = b'.kind := congrArg SymbolKey.kind hkeyb
    have hmeaning : b.meaning = b'.meaning := (hsame (by rw [← hkindb, hvariable]; decide)).2
    have hnamea : Text.fold a.name = Text.fold a'.name := congrArg SymbolKey.name hkeya
    have hnameb : Text.fold b.name = Text.fold b'.name := congrArg SymbolKey.name hkeyb
    rw [hnamea, hnameb]
    refine ht ha' hb' (hkinda ▸ hequate) (hkindb ▸ hvariable) ?_
    rw [Symbol.isBound, ← hmeaning]
    exact hbound
  mixed hmixed := by
    -- there are no more symbols than before, so each key was there before
    have hback {k : SymbolKey} (hk : u.Has k) : t.Has k := by
      obtain ⟨i, s, hs, rfl⟩ := hk
      obtain ⟨hi, -⟩ := Array.getElem?_eq_some_iff.mp hs
      obtain ⟨s', hs', hkey, -⟩ := h.exists_of_lt hs (by omega)
      exact ⟨i, s', hs', hkey.symm⟩
    exact Or.inl ⟨hback hmixed.1, hback hmixed.2⟩

theorem Stems.refl (t : SymbolTable) : t.Stems front read t := (Fixes.refl t).stems (Nat.le_refl _)

/-- What comes of a table that has come of another one has come of the first. -/
theorem Stems.trans (h : t.Stems front read u) (g : u.Stems front' read' v)
    (hwithin : front' ++ read' <:+: front ++ (read ++ read')) : t.Stems front (read ++ read') v where
  fixes := h.fixes.trans g.fixes
  bound {i s} hs hi hbound := by
    by_cases hlt : i < u.symbols.size
    · obtain ⟨s', hs', hkey, hsame⟩ := g.fixes.exists_of_lt hs hlt
      have hkind : s'.kind ≠ .label := by
        have hkind' : s'.kind = s.kind := (congrArg SymbolKey.kind hkey).symm
        rw [hkind', Symbol.kind]
        rcases Meaning.kind_of_isBound hbound with heq | heq <;> rw [heq] <;> decide
      obtain ⟨htoken, hmeaning⟩ := hsame hkind
      rw [Symbol.isBound, hmeaning] at hbound
      obtain ⟨hmem, hident, hname⟩ := h.bound hs' hi hbound
      rw [htoken, show Text.fold s.name = Text.fold s'.name from congrArg SymbolKey.name hkey]
      exact ⟨List.mem_append_left _ hmem, hident, hname⟩
    · obtain ⟨hmem, hident⟩ := g.bound hs (Nat.le_of_not_lt hlt) hbound
      exact ⟨List.mem_append_right _ hmem, hident⟩
  exclusive ht := g.exclusive (h.exclusive ht)
  mixed hmixed := by
    rcases g.mixed hmixed with hmixed | hnamed
    · refine (h.mixed hmixed).imp_right fun hnamed => hnamed.mono ?_
      rw [← List.append_assoc]
      exact List.infix_append' [] _ _
    · exact Or.inr (hnamed.mono hwithin)

/-- The symbols of a table with a further one. -/
theorem symbols_create {token : Token} {meaning : Meaning} {i : Nat} {s : Symbol}
    (hs : (t.create token meaning).symbols[i]? = some s) :
    (∃ s' : Symbol, t.symbols[i]? = some s' ∧ s.key = s'.key ∧ s.token = s'.token ∧
      s.meaning = s'.meaning) ∨
    i = t.symbols.size ∧ s.key = ⟨meaning.kind, token.folded⟩ ∧ s.token = token ∧
      s.meaning = meaning := by
  rw [create_eq] at hs
  obtain ⟨s', hs', -, hkey⟩ := exists_symbols_addReference hs
  obtain ⟨s'', hs'', htoken, hmeaning⟩ := exists_token_addReference hs
  cases hs'.symm.trans hs''
  rw [symbols_addSymbol, Array.getElem?_push] at hs'
  split at hs'
  · rename_i hi
    cases hs'
    exact Or.inr ⟨hi, hkey, htoken, hmeaning⟩
  · exact Or.inl ⟨s', hs', hkey, htoken, hmeaning⟩

/-- **A further symbol** is bound only if its token has been read and nothing else has its name, and
    a variable is mixed with an equate only if it is named in any case. -/
theorem Stems.create (h : t.Stems front read u) {token : Token} {meaning : Meaning}
    (hbound : meaning.isBound → token ∈ read ∧ token.kind = .ident)
    (hequate : meaning.kind = .equate → ¬ u.Has ⟨.variable, token.folded⟩)
    (hvariable : meaning.kind = .variable → ¬ u.Has ⟨.equate, token.folded⟩ ∨
      meaning.isBound = false ∧ NamedApart (front ++ read) token.folded) :
    t.Stems front read (u.create token meaning) where
  fixes := h.fixes.trans (.create u token meaning)
  bound {i s} hs hi hisBound := by
    rcases symbols_create hs with ⟨s', hs', hkey, htoken, hmeaning⟩ | ⟨rfl, hkey, htoken, hmeaning⟩
    · rw [Symbol.isBound, hmeaning] at hisBound
      rw [htoken, show Text.fold s.name = Text.fold s'.name from congrArg SymbolKey.name hkey]
      exact h.bound hs' hi hisBound
    · rw [Symbol.isBound, hmeaning] at hisBound
      rw [htoken, show Text.fold s.name = token.folded from congrArg SymbolKey.name hkey]
      obtain ⟨hmem, hident⟩ := hbound hisBound
      exact ⟨hmem, hident, rfl⟩
  exclusive ht := by
    intro i j a b ha hb hkinda hkindb hisBound hname
    -- either both symbols are old, or one is the new one and the hypothesis about its kind speaks of
    -- the other
    rcases symbols_create ha with ⟨a', ha', hkeya, -, hmeaninga⟩ | ⟨-, hkeya, -, hmeaninga⟩ <;>
      rcases symbols_create hb with ⟨b', hb', hkeyb, -, hmeaningb⟩ | ⟨-, hkeyb, -, hmeaningb⟩
    · have hnamea : Text.fold a.name = Text.fold a'.name := congrArg SymbolKey.name hkeya
      have hnameb : Text.fold b.name = Text.fold b'.name := congrArg SymbolKey.name hkeyb
      rw [Symbol.kind, hmeaninga] at hkinda
      rw [Symbol.kind, hmeaningb] at hkindb
      rw [Symbol.isBound, hmeaningb] at hisBound
      exact h.exclusive ht ha' hb' hkinda hkindb hisBound (by rw [← hnamea, ← hnameb, hname])
    · have hnameb : Text.fold b.name = token.folded := congrArg SymbolKey.name hkeyb
      rw [Symbol.isBound, hmeaningb] at hisBound
      rcases hvariable (hmeaningb ▸ hkindb) with hno | ⟨hno, -⟩
      · refine hno ⟨i, a', ha', hkeya.symm.trans ?_⟩
        rw [Symbol.key, hkinda, hname, hnameb]
      · rw [hno] at hisBound
        cases hisBound
    · have hnamea : Text.fold a.name = token.folded := congrArg SymbolKey.name hkeya
      refine hequate (hmeaninga ▸ hkinda) ⟨j, b', hb', hkeyb.symm.trans ?_⟩
      rw [Symbol.key, hkindb, ← hname, hnamea]
    · rw [Symbol.kind, hmeaninga] at hkinda
      rw [Symbol.kind, hmeaningb, hkinda] at hkindb
      cases hkindb
  mixed {name} hmixed := by
    obtain ⟨⟨i, a, ha, hkeya'⟩, ⟨j, b, hb, hkeyb'⟩⟩ := hmixed
    rcases symbols_create ha with ⟨a', ha', hkeya, -, -⟩ | ⟨-, hkeya, -, -⟩ <;>
      rcases symbols_create hb with ⟨b', hb', hkeyb, -, -⟩ | ⟨-, hkeyb, -, -⟩
    · exact h.mixed ⟨⟨i, a', ha', hkeya.symm.trans hkeya'⟩, ⟨j, b', hb', hkeyb.symm.trans hkeyb'⟩⟩
    · obtain ⟨hkind, hname⟩ := SymbolKey.mk.inj (hkeyb.symm.trans hkeyb')
      rcases hvariable hkind with hno | ⟨-, hnamed⟩
      · refine absurd ⟨i, a', ha', hkeya.symm.trans ?_⟩ hno
        rw [hkeya', hname]
      · exact Or.inr (hname ▸ hnamed)
    · obtain ⟨hkind, hname⟩ := SymbolKey.mk.inj (hkeya.symm.trans hkeya')
      refine absurd ⟨j, b', hb', hkeyb.symm.trans ?_⟩ (hequate hkind)
      rw [hkeyb', hname]
    · obtain ⟨hkind, -⟩ := SymbolKey.mk.inj (hkeya.symm.trans hkeya')
      obtain ⟨hkind', -⟩ := SymbolKey.mk.inj (hkeyb.symm.trans hkeyb')
      rw [hkind] at hkind'
      cases hkind'

theorem Stems.addReference (h : t.Stems front read u) (id : Nat) (token : Token) :
    t.Stems front read (u.addReference id token) := by
  have hstems : u.Stems [] [] (u.addReference id token) :=
    (Fixes.addReference u id token).stems (Nat.le_of_eq Array.size_modify)
  have hall := h.trans hstems (List.nil_infix)
  rwa [List.append_nil] at hall

/-- **A table that is rolled back** to an earlier one comes to no more than that. -/
theorem Fixes.stems_rollback (h : t.Fixes u) : t.Stems front read (u.rollback t.checkpoint) := by
  refine h.rollback.stems ?_
  simp only [SymbolTable.rollback, SymbolTable.checkpoint, Array.size_map, Array.take_eq_extract,
    Array.size_extract]
  omega

/-! ## 5. Operations -/

/-- A declaration that binds nothing and makes no variable. -/
theorem stems_declare (t : SymbolTable) (token : Token) {meaning : Meaning}
    (hplain : meaning.isBound = false) (hkind : meaning.kind ≠ .variable) :
    t.Stems front read (t.declare token meaning).2 := by
  unfold declare
  split
  · exact .refl t
  · refine (Stems.refl t).create (fun hbound => ?_) (fun hequate => ?_) fun hvariable => ?_
    · rw [hplain] at hbound
      cases hbound
    · cases meaning with
      | equate value => cases hplain
      | _ => cases hequate
    · exact absurd hvariable hkind

theorem stems_reference? (t : SymbolTable) (kind : SymbolKind) (token : Token) :
    t.Stems front read (t.reference? kind token).2 := by
  unfold reference?
  split
  · exact (Stems.refl t).addReference _ token
  · exact .refl t

/-- A reference to a variable that may come into being with it. -/
theorem Sound.stems_referenceVariable (ht : t.Sound) {token : Token}
    (h : t.contains .equate token.text = false ∨ t.contains .variable token.text = true ∨
      NamedApart (front ++ read) token.folded) :
    t.Stems front read (t.referenceVariable token).2 := by
  unfold referenceVariable referenceOrCreate
  split
  · exact (Stems.refl t).addReference _ token
  · rename_i hfree
    have hunbound : (Meaning.variable (if token.kind = .systemVariable then .system else .own)
        .dynamic).isBound = false := by
      split <;> rfl
    refine (Stems.refl t).create (fun hbound => ?_) (fun hequate => by cases hequate) fun _ => ?_
    · rw [hunbound] at hbound
      cases hbound
    · rcases h with hno | hthere | hnamed
      · refine Or.inl fun hhas => ?_
        rw [ht.contains_iff.mpr hhas] at hno
        cases hno
      · rw [contains, show t.find? .variable token.text = none from hfree] at hthere
        cases hthere
      · exact Or.inr ⟨hunbound, hnamed⟩

/-- A reference to a routine or a label that may come into being with it. -/
theorem stems_referenceOrCreate (t : SymbolTable) (token : Token) {meaning : Meaning}
    (hplain : meaning.isBound = false) (hkind : meaning.kind ≠ .variable) :
    t.Stems front read (t.referenceOrCreate token meaning).2 := by
  unfold referenceOrCreate
  split
  · exact (Stems.refl t).addReference _ token
  · rename_i hfree
    have hdeclare : t.Stems front read (t.declare token meaning).2 :=
      stems_declare t token hplain hkind
    have hnone : t.contains meaning.kind token.text = false := by
      rw [contains, hfree]
      rfl
    rwa [declare, hnone] at hdeclare

theorem Sound.stems_declareLabel (ht : t.Sound) (token : Token) :
    t.Stems front read (t.declareLabel token).2 := by
  unfold declareLabel
  split
  · exact (Stems.refl t).create nofun nofun nofun
  · rename_i id hid
    split
    · have hlabel : ∀ s, t.symbols[id]? = some s → s.kind = .label := by
        intro s hs
        obtain ⟨s', hs', hkey⟩ := ht.keys.mp hid
        cases hs.symm.trans hs'
        exact congrArg SymbolKey.kind hkey
      exact ((Fixes.declareAt hlabel token).stems (Nat.le_of_eq Array.size_modify)).addReference _ _
    · exact .refl t

end SymbolTable

end BasicCheck
