import BasicCheck.Proofs.Grammar.Past
import BasicCheck.Proofs.Symbol.Classes

/-!
# What comes of the names on the way

A state that lies behind another one lies onward of it if what has come of the table of symbols is
accounted for by the tokens that were read (`Onward`): what is bound since was named by one of them, and
no name is mixed since that did not stand where a variable is named in any case. This holds from one
step to the next, with one kind of exception. A declaration binds its name when everything behind the
name has been read, and a counting loop or a `mat` names a variable whose name has been read; so these
are accounted for only from the state in front of the name on (`Onward.declare`,
`Onward.nameVariable`).
-/

namespace BasicCheck

/-- An identifier that stands for a value, that is for an equate or a variable. -/
def Role.isValue : Role → Bool
  | .assignment | .reference => true
  | _ => false

namespace SymbolTable

variable {t u : SymbolTable} {front : List Token}

/-- A table turns into another one without anything being read: nothing is bound, and no name is
    mixed. -/
structure Advances (t : SymbolTable) (front : List Token) (u : SymbolTable) : Prop where
  follows : t.Follows u
  stems : t.Whole → t.Stems front [] u

theorem advances_declare (t : SymbolTable) (token : Token) {meaning : Meaning}
    (hplain : meaning.isBound = false) (hkind : meaning.kind ≠ .variable) :
    t.Advances front (t.declare token meaning).2 :=
  ⟨follows_declare t token meaning, fun _ => stems_declare t token hplain hkind⟩

theorem advances_reference? (t : SymbolTable) (kind : SymbolKind) (token : Token) :
    t.Advances front (t.reference? kind token).2 :=
  ⟨follows_reference? t kind token, fun _ => stems_reference? t kind token⟩

theorem advances_referenceOrCreate (t : SymbolTable) (token : Token) {meaning : Meaning}
    (hplain : meaning.isBound = false) (hkind : meaning.kind ≠ .variable) :
    t.Advances front (t.referenceOrCreate token meaning).2 :=
  ⟨follows_referenceOrCreate t token meaning, fun _ => stems_referenceOrCreate t token hplain hkind⟩

theorem advances_referenceVariable (t : SymbolTable) {token : Token}
    (h : t.contains .equate token.text = false ∨ t.contains .variable token.text = true ∨
      NamedApart front token.folded) : t.Advances front (t.referenceVariable token).2 := by
  refine ⟨follows_referenceOrCreate t token _, fun ht => ht.sound.stems_referenceVariable ?_⟩
  rwa [List.append_nil]

theorem advances_declareLabel (t : SymbolTable) (token : Token) :
    t.Advances front (t.declareLabel token).2 :=
  ⟨follows_declareLabel t token, fun ht => ht.sound.stems_declareLabel token⟩

end SymbolTable

namespace Grammar

open Parse

variable {o s u v : State} {t : Token}

/-! ## 1. Onward of a state -/

/-- One state lies behind another, and what has come of the names is accounted for. -/
structure Onward (s u : State) : Prop extends Past s u where
  stems : s.symbols.Whole → ∀ {read : List Token}, s.rest.tokens = read ++ u.rest.tokens →
    s.symbols.Stems s.last.toList read u.symbols

instance : CoeOut (Onward s u) (Past s u) := ⟨Onward.toPast⟩

/-- The token that was read last is among those that were read. -/
theorem Reads.last_infix {read more : List Token} (h : Reads s read u) :
    u.last.toList ++ more <:+: s.last.toList ++ (read ++ more) := by
  rw [h.last]
  by_cases hnil : read = []
  · subst hnil
    exact List.infix_refl _
  · rw [← List.dropLast_concat_getLast hnil, List.getLast?_concat, Option.some_or]
    exact ⟨s.last.toList ++ read.dropLast, [], by simp⟩

namespace Onward

/-- Nothing has come of a table that is still the same. -/
theorem of_symbols (h : Past s u) (hsame : u.symbols = s.symbols) : Onward s u :=
  ⟨h, fun _ _ _ => by rw [hsame]; exact .refl _⟩

theorem refl (s : State) : Onward s s := of_symbols (.refl s) rfl

theorem trans (h : Onward s u) (g : Onward u v) : Onward s v where
  toPast := h.toPast.trans g.toPast
  stems hs read htokens := by
    obtain ⟨front, hfront⟩ := h.reads
    obtain ⟨more, hmore⟩ := g.reads
    rw [(hfront.trans hmore).eq htokens]
    have hu : u.symbols.Whole := (h.symbols hs).1
    exact (h.stems hs hfront.tokens).trans (g.stems hu hmore.tokens) hfront.last_infix

theorem advance (s : State) : Onward s s.advance.2 := of_symbols (.advance s) s.symbols_advance

/-- Only something that is recorded tells two states apart. -/
theorem recorded {diagnostics : Array Diagnostic} {regions : Array Region}
    (hfaults : s.diagnostics.toList <+: diagnostics.toList) :
    Onward s { s with diagnostics, regions } :=
  of_symbols (.recorded hfaults) rfl

/-- Only the record of the run has grown. -/
theorem kept {recoveries : Array Recovery} {begun : Nat} (h : s.begun ≤ begun) :
    Onward s { s with recoveries, begun } :=
  of_symbols (.kept h) rfl

/-- What is done within a loop is done between the state before it and the state behind it. -/
theorem leave (h : Onward s.enter u) : Onward s u.leave :=
  ⟨h.toPast.leave, fun hs _ htokens => h.stems hs htokens⟩

/-- The table has changed since, by something that is accounted for by what was read before. -/
theorem notedSince (h : Onward s u) {symbols : SymbolTable} (hfollows : u.symbols.Follows symbols)
    (hstems : s.symbols.Whole → ∀ {read : List Token}, s.rest.tokens = read ++ u.rest.tokens →
      s.symbols.Stems s.last.toList read symbols) : Onward s { u with symbols } :=
  ⟨h.toPast.trans (.noted hfollows), fun hs _ htokens => hstems hs htokens⟩

/-- Only the table of symbols has changed. -/
theorem noted {symbols : SymbolTable} (h : s.symbols.Advances s.last.toList symbols) :
    Onward s { s with symbols } := by
  refine (refl s).notedSince h.follows fun hs read htokens => ?_
  rw [(Reads.refl s).eq htokens]
  exact h.stems hs

/-- **An attempt that is taken back** leads onward of the state from which it was made. -/
theorem takeBack (h : Onward s u) (hpast : Past s (u.takeBack s.snapshot s.toReading)) :
    Onward s (u.takeBack s.snapshot s.toReading) where
  toPast := hpast
  stems hs _ _ := by
    obtain ⟨front, hfront⟩ := h.reads
    exact (h.stems hs hfront.tokens).fixes.stems_rollback

/-- What was fixed on the way. -/
theorem fixes (h : Onward s u) (hs : s.symbols.Whole) : s.symbols.Fixes u.symbols := by
  obtain ⟨read, hread⟩ := h.reads
  exact (h.stems hs hread.tokens).fixes

end Onward

/-- As long as there is no error, only separators are read on the way. -/
structure Gap (s u : State) : Prop where
  onward : Onward s u
  blank : u.Clean → ∀ read, s.rest.tokens = read ++ u.rest.tokens → ∀ t ∈ read, t.kind.isSeparator

namespace Gap

theorem past (h : Gap s u) : Past s u := h.onward

theorem refl (s : State) : Gap s s where
  onward := .refl s
  blank _ read h := by
    rw [(Reads.refl s).eq h]
    exact List.forall_mem_nil _

theorem trans (h : Gap s u) (g : Gap u v) : Gap s v where
  onward := h.onward.trans g.onward
  blank hv read htokens := by
    obtain ⟨read₁, hread₁⟩ := h.past.reads
    obtain ⟨read₂, hread₂⟩ := g.past.reads
    rw [(hread₁.trans hread₂).eq htokens]
    have hbefore := h.blank (g.past.clean hv) read₁ hread₁.tokens
    have hbehind := g.blank hv read₂ hread₂.tokens
    exact List.forall_mem_append.mpr ⟨hbefore, hbehind⟩

/-- Behind an error anything may be read. -/
theorem of_not_clean (h : Onward s u) (hu : ¬ u.Clean) : Gap s u :=
  ⟨h, fun hclean => absurd hclean hu⟩

/-- A separator is read. -/
theorem advance (hk : s.current.kind.isSeparator) : Gap s s.advance.2 where
  onward := .advance s
  blank _ _ htokens := forall_mem_of_advance (P := (·.isSeparator)) hk htokens

end Gap

/-- A property that holds on wherever reading goes on. -/
def Lasting (I : State → Prop) : Prop := ∀ {s u}, Onward s u → I s → I u

/-! ## 2. Declarations -/

/-- A word that is read first is among what was read. -/
theorem Opens.mem_read (h : Opens s t u) (hs : s.Regular) {read : List Token}
    (htokens : s.rest.tokens = read ++ u.rest.tokens) : t ∈ read := by
  have hword : s.current.kind.IsWord := h.next ▸ h.word
  obtain ⟨more, hmore⟩ := h.behind.reads
  have hall := (Reads.advance hs hword).trans hmore
  rw [hall.eq htokens, h.next]
  exact List.mem_append_left _ (List.mem_singleton_self _)

/-- **A name is bound** that has been read on the way, unless something else has it. -/
theorem Onward.declare (h : Onward s u) (meaning : Meaning) (ht : Opens s t u) (hs : s.Regular)
    (hident : t.kind = .ident)
    (hequate : meaning.kind = .equate → u.symbols.Sound →
      u.symbols.contains .variable t.text = false)
    (hvariable : meaning.kind = .variable → u.symbols.Sound →
      u.symbols.contains .equate t.text = false) :
    Onward s { u with symbols := (u.symbols.declare t meaning).2 } := by
  refine h.notedSince (SymbolTable.follows_declare _ t meaning) fun hwhole read htokens => ?_
  have hstems := h.stems hwhole htokens
  have hsound : u.symbols.Sound := (h.symbols hwhole).1.sound
  unfold SymbolTable.declare
  split
  · exact hstems
  · refine hstems.create (fun _ => ⟨ht.mem_read hs htokens, hident⟩) (fun hkind hhas => ?_)
      fun hkind => Or.inl fun hhas => ?_
    · have hno := hequate hkind hsound
      rw [hsound.contains_iff.mpr hhas] at hno
      cases hno
    · have hno := hvariable hkind hsound
      rw [hsound.contains_iff.mpr hhas] at hno
      cases hno

/-! ## 3. Variables that are named in any case -/

/-- A word that is read behind the token that was read last stands behind it. -/
theorem Opens.pair_within (h : Opens s t u) (hs : s.Regular) {k : Token} (hk : s.last = some k)
    {read : List Token} (htokens : s.rest.tokens = read ++ u.rest.tokens) :
    [k, t] <:+: s.last.toList ++ read := by
  have hword : s.current.kind.IsWord := h.next ▸ h.word
  obtain ⟨more, hmore⟩ := h.behind.reads
  have hall := (Reads.advance hs hword).trans hmore
  rw [hall.eq htokens, h.next, hk]
  exact ⟨[], more, by simp⟩

/-- **A variable is named** right behind a word that names one, whether or not there is an equate. -/
theorem Onward.nameVariable (h : Onward s u) (ht : Opens s t u) (hs : s.Regular) {k : Token}
    (hk : s.last = some k) (hnames : k.kind.namesVariable) :
    Onward s { u with symbols := (u.symbols.referenceVariable t).2 } := by
  refine h.notedSince (SymbolTable.follows_referenceOrCreate _ t _) fun hwhole read htokens => ?_
  have hsound : u.symbols.Sound := (h.symbols hwhole).1.sound
  have hapart : NamedApart (s.last.toList ++ read) t.folded :=
    Or.inr ⟨k, t, ht.pair_within hs hk htokens, hnames, rfl⟩
  have hnamed : u.symbols.Stems (s.last.toList ++ read) [] (u.symbols.referenceVariable t).2 :=
    hsound.stems_referenceVariable (Or.inr (Or.inr (by rwa [List.append_nil])))
  have hstems := (h.stems hwhole htokens).trans hnamed (by
    simp only [List.append_nil, List.infix_refl])
  rwa [List.append_nil] at hstems

/-! ## 4. Words on the way -/

/-- A word is read on the way, of which something holds where it comes next. -/
def Meets (P : State → Token → Prop) (s u : State) : Prop :=
  ∃ m t, Onward s m ∧ m.current = t ∧ t.kind.IsWord ∧ Onward m.advance.2 u ∧ P m t

namespace Meets

variable {P Q : State → Token → Prop}

theorem of_next (hk : s.current.kind.IsWord) (h : P s s.current) : Meets P s s.advance.2 :=
  ⟨s, s.current, .refl s, rfl, hk, .refl _, h⟩

theorem before (h : Meets P s u) (g : Onward u v) : Meets P s v := by
  obtain ⟨m, t, hm, hnext, hword, hbehind, hP⟩ := h
  exact ⟨m, t, hm, hnext, hword, hbehind.trans g, hP⟩

theorem after (h : Onward o s) (g : Meets P s u) : Meets P o u := by
  obtain ⟨m, t, hm, hrest⟩ := g
  exact ⟨m, t, h.trans hm, hrest⟩

theorem mono (h : Meets P s u) (hPQ : ∀ m t, P m t → Q m t) : Meets Q s u := by
  obtain ⟨m, t, hm, hnext, hword, hbehind, hP⟩ := h
  exact ⟨m, t, hm, hnext, hword, hbehind, hPQ m t hP⟩

theorem onward (h : Meets P s u) : Onward s u := by
  obtain ⟨m, t, hm, -, -, hbehind, -⟩ := h
  exact hm.trans ((Onward.advance m).trans hbehind)

end Meets

/-- A word with a given span is read on the way. -/
abbrev Finds (span : Span) : State → State → Prop := Meets fun _ t => t.span = span

theorem Meets.past {P : State → Token → Prop} (h : Meets P s u) : Past s u := h.onward

theorem Meets.stands {span : Span} (h : Finds span s u) : Stands span s u := by
  obtain ⟨m, t, hm, hnext, hword, hbehind, hspan⟩ := h
  exact ⟨m, t, hm.toPast, ⟨hnext, hword, hbehind.toPast⟩, hspan⟩

/-- An identifier is read on the way, and noted as the name of an equate or a variable. -/
structure Names (i : Ident) (s u : State) : Prop where
  onward : Onward s u
  stands : Stands i.span s u
  refers : s.symbols.Whole → u.symbols.Refers i.span i.folded

namespace Names

variable {i : Ident}

theorem past (h : Names i s u) : Past s u := h.onward

theorem of_finds (h : Finds i.span s u)
    (hrefers : s.symbols.Whole → u.symbols.Refers i.span i.folded) : Names i s u :=
  ⟨h.onward, h.stands, hrefers⟩

theorem before (h : Names i s u) (g : Onward u v) : Names i s v :=
  ⟨h.onward.trans g, h.stands.before g, fun hs => (g.fixes (h.onward.symbols hs).1).refers (h.refers hs)⟩

theorem after (h : Onward o s) (g : Names i s u) : Names i o u :=
  ⟨h.trans g.onward, .after h g.stands, fun ho => g.refers (h.symbols ho).1⟩

end Names

/-- The name of an element of a matrix comes next. -/
def IsElement (name : Ident) (m : State) (t : Token) : Prop :=
  t.span = name.span ∧ t.text = name.name ∧ m.symbols.isMatrix t.text = true

/-- The name of a call comes next; if it is an identifier, it is not that of a matrix. -/
def IsCall (name : Ident) (m : State) (t : Token) : Prop :=
  t.span = name.span ∧ name.role.isValue = false ∧
    (t.kind = .ident → t.text = name.name ∧ m.symbols.isMatrix t.text = false)

/-- The name of an element of a matrix is read on the way. -/
structure Element (name : Ident) (s u : State) : Prop extends Names name s u where
  element : Meets (IsElement name) s u

namespace Element

variable {name : Ident}

theorem before (h : Element name s u) (g : Onward u v) : Element name s v :=
  ⟨h.toNames.before g, h.element.before g⟩

theorem after (h : Onward o s) (g : Element name s u) : Element name o u :=
  ⟨.after h g.toNames, .after h g.element⟩

end Element

/-- The name of a call is read on the way. -/
abbrev Called (name : Ident) : State → State → Prop := Meets (IsCall name)

theorem Meets.finds {name : Ident} (h : Called name s u) : Finds name.span s u :=
  h.mono fun _ _ hcall => hcall.1

end Grammar

end BasicCheck
