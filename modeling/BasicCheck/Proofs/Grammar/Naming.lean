import BasicCheck.Parse.Action
import BasicCheck.Proofs.Grammar.Expression

/-!
# Names outside expressions

A declaration, a counting loop and the statements about whole matrices read the name of a variable by
itself. What comes of such a name is accounted for from the state in front of it on, and an expression
that was read between a name and its declaration (`Held`) may be a dimension of the matrix that is then
declared. A name that stands for a value is noted wherever it stands (`Placed`), unless there is an
error.
-/

namespace BasicCheck

namespace Grammar

open Parse

variable {o k s u v : State} {t : Token} {e : Expr} {i : Ident} {meaning : Meaning}

/-! ## 1. Expressions on the way -/

/-- A state behind an expression that was read from `k` on. What has come of the matrices since is
    accounted for, but the expression may be a dimension of a matrix whose name was read right before. -/
structure Sequel (e : Expr) (k s u : State) : Prop extends Past s u where
  fixes : s.symbols.Whole → s.symbols.Fixes u.symbols
  matrices : s.symbols.Whole → ∀ {read : List Token}, s.rest.tokens = read ++ u.rest.tokens →
    ∀ {n : Nat} {b : Symbol}, u.symbols.symbols[n]? = some b → s.symbols.symbols.size ≤ n →
      b.isMatrix → b.token ∈ read ∨ e ∈ b.dimensions ∧ k.last = some b.token

instance : CoeOut (Sequel e k s u) (Past s u) := ⟨Sequel.toPast⟩

theorem Sequel.of_onward (h : Onward s u) : Sequel e k s u where
  toPast := h
  fixes := h.fixes
  matrices hs _ htokens _ _ hb hn hmatrix :=
    Or.inl ((h.stems hs htokens).bound hb hn (Symbol.isBound_of_isMatrix hmatrix)).1

theorem Sequel.before (h : Sequel e k s u) (g : Onward u v) : Sequel e k s v where
  toPast := h.toPast.trans g
  fixes hs := (h.fixes hs).trans (g.fixes (h.symbols hs).1)
  matrices hs read htokens n b hb hn hmatrix := by
    obtain ⟨front, hfront⟩ := h.reads
    obtain ⟨more, hmore⟩ := g.reads
    have hu : u.symbols.Whole := (h.symbols hs).1
    rw [(hfront.trans hmore).eq htokens]
    by_cases hlt : n < u.symbols.symbols.size
    · obtain ⟨b', hb', -, hmatrix', htoken, hdimensions⟩ := (g.fixes hu).isMatrix_of_lt hb hlt hmatrix
      rw [htoken, hdimensions]
      exact (h.matrices hs hfront.tokens hb' hn hmatrix').imp_left (List.mem_append_left _)
    · have hbound := (g.stems hu hmore.tokens).bound hb (Nat.le_of_not_lt hlt)
        (Symbol.isBound_of_isMatrix hmatrix)
      exact Or.inl (List.mem_append_right _ hbound.1)

/-- An expression was read on the way. -/
def Held (e : Expr) (s u : State) : Prop := ∃ k m, Onward s k ∧ Derives e k m ∧ Sequel e k m u

theorem Derives.held (h : Derives e s u) : Held e s u :=
  ⟨s, u, .refl s, h, .of_onward (.refl u)⟩

namespace Held

theorem before (h : Held e s u) (g : Onward u v) : Held e s v := by
  obtain ⟨k, m, honward, hderives, hsequel⟩ := h
  exact ⟨k, m, honward, hderives, hsequel.before g⟩

theorem after (h : Onward o s) (g : Held e s u) : Held e o u := by
  obtain ⟨k, m, honward, hderives, hsequel⟩ := g
  exact ⟨k, m, h.trans honward, hderives, hsequel⟩

theorem consumes (h : Held e s u) (hs : s.Regular) : Consumes s u := by
  obtain ⟨k, m, honward, hderives, hsequel⟩ := h
  exact .after honward ((hderives.consumes (honward.regular hs)).before hsequel)

end Held

/-! ## 2. Names on the way -/

/-- A name stands where a word was read. If it stands for a value, it is noted as long as there is no
    error. -/
structure Placed (i : Ident) (s u : State) : Prop where
  stands : Stands i.span s u
  refers : i.role.isValue → u.Clean → s.symbols.Whole → u.symbols.Refers i.span i.folded

namespace Placed

theorem of_names (h : Names i s u) : Placed i s u := ⟨h.stands, fun _ _ hs => h.refers hs⟩

/-- A name that does not stand for a value. -/
theorem of_opens (h : Opens s t u) (name : String) {role : Role} (hrole : role.isValue = false) :
    Placed ⟨name, role, t.span⟩ s u :=
  ⟨.of_opens h, fun hvalue => by
    rw [hrole] at hvalue
    cases hvalue⟩

/-- A name of which nothing more is told, because there is an error. -/
theorem of_not_clean (h : Stands i.span s u) (hu : ¬ u.Clean) : Placed i s u :=
  ⟨h, fun _ hclean => absurd hclean hu⟩

theorem behind (h : Placed i s u) (g : Past u v) (hfixes : u.symbols.Whole → u.symbols.Fixes v.symbols) :
    Placed i s v where
  stands := h.stands.before g
  refers hvalue hclean hs :=
    (hfixes (h.stands.past.symbols hs).1).refers (h.refers hvalue (g.clean hclean) hs)

theorem before (h : Placed i s u) (g : Onward u v) : Placed i s v := h.behind g g.fixes

theorem after (h : Past o s) (g : Placed i s u) : Placed i o u :=
  ⟨.after h g.stands, fun hvalue hclean ho => g.refers hvalue hclean (h.symbols ho).1⟩

end Placed

/-- The name of a variable has just been read. -/
structure Named (s : State) (t : Token) (u : State) : Prop where
  kind : t.kind = .ident ∨ t.kind = .systemVariable
  opens : Opens s t u
  last : u.last = some t

theorem tries_expectVariable : Tries s expectVariable (Named s) := by
  have hread (hk : s.current.kind = .ident ∨ s.current.kind = .systemVariable) :
      Tries s (liftM advance) (Named s) := by
    have hword : s.current.kind.IsWord := by
      rcases hk with hk | hk <;> rw [hk] <;> decide
    refine Tries.regular fun hs => Tries.step (goes_advance.mono fun t u _ h => ?_)
    obtain ⟨rfl, rfl⟩ := h
    exact ⟨hk, ⟨rfl, hword, .refl _⟩, by rw [hs.advance_of_isWord hword]⟩
  refine Tries.look (currentKind_eq s) ?_
  split
  · rename_i hk
    exact hread (Or.inl hk)
  · rename_i hk
    exact hread (Or.inr hk)
  · exact tries_failHere rfl

/-! ## 3. Variables behind a word that names one -/

/-- The token that was read last is of a kind that names a variable. -/
def Led (s : State) : Prop := ∃ k, s.last = some k ∧ k.kind.namesVariable

theorem led_advance (hs : s.Regular) (hk : s.current.kind.namesVariable) : Led s.advance.2 := by
  have hword : s.current.kind.IsWord := by
    constructor <;>
      · intro heq
        rw [heq] at hk
        cases hk
  rw [hs.advance_of_isWord hword]
  exact ⟨s.current, rfl, hk⟩

/-- A word that names a variable is read over. -/
theorem tries_led {kind : Kind} (hk : kind.namesVariable) :
    Tries s (discard (expect kind)) fun _ u => Led u := by
  refine Tries.regular fun hs => Tries.dropped ((tries_expect kind).mono fun _ u _ hread => ?_)
  obtain ⟨hkind, -, rfl⟩ := hread
  exact led_advance hs (hkind ▸ hk)

/-- A variable is noted whose name was read right behind a word that names one. -/
theorem since_noteVariable (hled : Led o) (ht : Opens o t s) :
    GoesWith (Since o) s (noteVariable t) fun _ u =>
      s.symbols.Whole → u.symbols.Refers t.span t.folded := by
  rintro - ⟨ho, hos⟩
  obtain ⟨k, hk, hnames⟩ := hled
  exact ⟨⟨ho, hos.nameVariable ht ho hk hnames⟩, past_noteVariable t,
    fun hs => hs.sound.refers_referenceVariable t⟩

/-- **A variable by itself** is read and noted. -/
theorem names_variableIdent (role : Role) (hled : Led s) :
    Tries s (variableIdent role) fun i u => Names i s u := by
  refine Tries.of_since (tries_expectVariable.since fun t u1 h1 ht => ?_)
  refine TriesWith.after (lasting_since s) (since_noteVariable hled ht.opens)
    fun _ u2 h2 hpast hnoted => Tries.pure ?_
  exact ⟨h2.2, (Stands.of_opens ht.opens).before hpast, fun hs => hnoted (h1.symbols hs).1⟩

/-! ## 4. Declarations -/

/-- A name is declared where nothing has it; otherwise there is an error. -/
structure Declares (t : Token) (meaning : Meaning) (s u : State) : Prop extends Past s u where
  fixes : s.symbols.Fixes u.symbols
  /-- Nothing else comes into being. -/
  alone : ∀ {n : Nat} {b : Symbol}, u.symbols.symbols[n]? = some b →
    s.symbols.symbols.size ≤ n → b.token = t ∧ b.meaning = meaning
  refers : s.symbols.Whole → u.Clean → u.symbols.Refers t.span t.folded

namespace Declares

/-- An expression that was read before a name is declared, but not as a matrix. -/
theorem held (h : Declares t meaning s u) (he : Held e o s)
    (hplain : ∀ b : Symbol, b.isMatrix → b.meaning ≠ meaning) : Held e o u := by
  obtain ⟨k, m, honward, hderives, hsequel⟩ := he
  refine ⟨k, m, honward, hderives, hsequel.toPast.trans h.toPast,
    fun hm => (hsequel.fixes hm).trans h.fixes, ?_⟩
  intro hm read htokens n b hb hn hmatrix
  obtain ⟨front, hfront⟩ := hsequel.reads
  obtain ⟨more, hmore⟩ := h.reads
  rw [(hfront.trans hmore).eq htokens]
  by_cases hlt : n < s.symbols.symbols.size
  · obtain ⟨b', hb', -, hmatrix', htoken, hdimensions⟩ := h.fixes.isMatrix_of_lt hb hlt hmatrix
    rw [htoken, hdimensions]
    exact (hsequel.matrices hm hfront.tokens hb' hn hmatrix').imp_left (List.mem_append_left _)
  · exact absurd (h.alone hb (Nat.le_of_not_lt hlt)).2 (hplain b hmatrix)

/-- A dimension of the matrix that is declared, read right behind its name. -/
theorem dimension (h : Declares t meaning s u) (hk : Onward o k) (hlast : k.last = some t)
    (he : Derives e k s) (hin : e ∈ meaning.dimensions) : Held e o u := by
  refine ⟨k, s, hk, he, h.toPast, fun _ => h.fixes, fun _ _ _ _ _ hb hn _ => Or.inr ?_⟩
  obtain ⟨htoken, hmeaning⟩ := h.alone hb hn
  rw [Symbol.dimensions, hmeaning, htoken]
  exact ⟨hin, hlast⟩

/-- The name itself is placed. -/
theorem name (h : Declares t meaning s u) (hopens : Opens o t s) (role : Role) :
    Placed ⟨t.text, role, t.span⟩ o u where
  stands := (Stands.of_opens hopens).before h.toPast
  refers _ hclean ho := h.refers (hopens.past.symbols ho).1 hclean

/-- Nothing is declared. -/
theorem of_same (hpast : Past s u) (hsame : u.symbols = s.symbols)
    (hrefers : s.symbols.Whole → ¬ u.Clean) : Declares t meaning s u where
  toPast := hpast
  fixes := hsame ▸ .refl _
  alone hb hn := by
    obtain ⟨hlt, -⟩ := Array.getElem?_eq_some_iff.mp hb
    rw [hsame] at hlt
    omega
  refers hs hclean := absurd hclean (hrefers hs)

/-- A name that is free is declared. -/
theorem of_declare (hkind : meaning.kind = .variable ∨ meaning.kind = .equate)
    (hfree : s.symbols.Sound → s.symbols.contains meaning.kind t.text = false) :
    Declares t meaning s { s with symbols := (s.symbols.declare t meaning).2 } := by
  cases htaken : s.symbols.contains meaning.kind t.text with
  | true =>
    rw [show (s.symbols.declare t meaning).2 = s.symbols by rw [SymbolTable.declare, htaken]; rfl]
    refine .of_same (.refl s) rfl fun hs _ => ?_
    rw [hfree hs.sound] at htaken
    cases htaken
  | false =>
    have hdeclare : (s.symbols.declare t meaning).2 = s.symbols.create t meaning := by
      rw [SymbolTable.declare, htaken]
      rfl
    refine ⟨.noted (SymbolTable.follows_declare _ t meaning), hdeclare ▸ .create _ _ _,
      fun {n b} hb hn => ?_, fun _ _ => hdeclare ▸ SymbolTable.refers_create _ t hkind⟩
    dsimp only at hb
    rw [hdeclare] at hb
    rcases SymbolTable.symbols_create hb with ⟨b', hb', -⟩ | ⟨-, -, htoken, hmeaning⟩
    · obtain ⟨hlt, -⟩ := Array.getElem?_eq_some_iff.mp hb'
      omega
    · exact ⟨htoken, hmeaning⟩

end Declares

/-- What keeps a name from being declared is an error. -/
theorem severity_of_conflict? {symbols : SymbolTable} {wanted : Declared} {cause : Cause}
    (h : conflict? symbols t wanted = some cause) : cause.severity = .error := by
  unfold conflict? at h
  dsimp only at h
  split at h
  · cases h
    rfl
  split at h
  · cases h
    rfl
  split at h
  · split at h
    · cases h
      rfl
    · cases h
  · split at h
    · cases h
      rfl
    split at h <;> cases h <;> rfl

/-- A name can be declared if it belongs to neither the system nor an equate nor a variable. -/
theorem of_conflict?_eq_none {symbols : SymbolTable} {wanted : Declared}
    (h : conflict? symbols t wanted = none) : t.kind ≠ .systemVariable ∧
      symbols.contains .equate t.text = false ∧ symbols.lookup? .variable t.text = none := by
  unfold conflict? at h
  dsimp only at h
  split at h
  · cases h
  rename_i hkind
  split at h
  · cases h
  split at h
  · rename_i hnone
    split at h
    · cases h
    · rename_i hno
      exact ⟨hkind, eq_false_of_ne_true hno, hnone⟩
  · split at h
    · cases h
    split at h <;> cases h

/-- Where no symbol is found there is none. -/
theorem contains_eq_false_of_lookup? {symbols : SymbolTable} (hs : symbols.Sound) {kind : SymbolKind}
    {name : String} (h : symbols.lookup? kind name = none) : symbols.contains kind name = false := by
  unfold SymbolTable.lookup? at h
  unfold SymbolTable.contains
  cases hid : symbols.find? kind name with
  | none => rfl
  | some id =>
    obtain ⟨s, hs, -⟩ := hs.keys.mp hid
    rw [hid] at h
    exact absurd (hs.symm.trans h) nofun

/-- Where there is a conflict nothing is declared. -/
theorem declareAs_of_conflict {wanted : Declared} {cause : Cause}
    (h : conflict? s.symbols t wanted = some cause) (f : SymbolTable → Bool × SymbolTable) :
    declareAs wanted t f s = report cause t.span s := by
  unfold declareAs
  refine (step_bind (p := MonadState.get) rfl).trans ?_
  rw [h]

theorem declareAs_of_no_conflict {wanted : Declared} (h : conflict? s.symbols t wanted = none)
    (f : SymbolTable → Bool × SymbolTable) :
    declareAs wanted t f s = ((), { s with symbols := (f s.symbols).2 }) := by
  unfold declareAs
  refine (step_bind (p := MonadState.get) rfl).trans ?_
  rw [h]
  rfl

/-- **A declaration** binds a name that was read before, or there is an error. -/
theorem since_declareAs (wanted : Declared) {f : SymbolTable → Bool × SymbolTable}
    (hf : ∀ symbols, f symbols = symbols.declare t meaning)
    (hkind : meaning.kind = .variable ∨ meaning.kind = .equate)
    (ht : (t.kind = .ident ∨ t.kind = .systemVariable) ∧ Opens o t s) :
    GoesWith (Since o) s (declareAs wanted t f) fun _ u => Declares t meaning s u := by
  rintro hs ⟨ho, hos⟩
  cases hconflict : conflict? s.symbols t wanted with
  | some cause =>
    rw [declareAs_of_conflict hconflict]
    obtain ⟨honward, -, hreport⟩ := goes_report cause t.span hs
    refine ⟨⟨ho, hos.trans honward⟩, honward, .of_same honward (symbols_report cause t.span) fun _ => ?_⟩
    exact hreport (severity_of_conflict? hconflict)
  | none =>
    rw [declareAs_of_no_conflict hconflict, hf]
    obtain ⟨hsystem, hequate, hvariable⟩ := of_conflict?_eq_none hconflict
    have hfree (hs : s.symbols.Sound) := contains_eq_false_of_lookup? hs hvariable
    have honward := hos.declare meaning ht.2 ho (ht.1.resolve_right hsystem)
      (fun _ hs => hfree hs) fun _ _ => hequate
    refine ⟨⟨ho, honward⟩, .noted (SymbolTable.follows_declare _ t meaning), .of_declare hkind fun hs => ?_⟩
    rcases hkind with hkind | hkind <;> rw [hkind]
    · exact hfree hs
    · exact hequate

end Grammar

end BasicCheck
