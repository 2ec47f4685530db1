import BasicCheck.Proofs.Grammar.Block
import BasicCheck.Proofs.Mention.Procedure

/-!
# What reading a procedure comes to

As long as there is no error, a header reads nothing but its own tokens and separators (`Headed`).
Behind it stands the body, which is written up to the end of the file: **`goes_procedure`** for any
tokens whatever, **`Procedure.exists_written`** for those of a text.
-/

namespace BasicCheck

namespace Parse.State

/-- There is no equate yet. -/
def Unequated (s : State) : Prop :=
  ∀ (n : Nat) (b : Symbol), s.symbols.symbols[n]? = some b → b.kind ≠ .equate

namespace Unequated

variable {s u : State}

theorem of_symbols (h : s.Unequated) (hsame : u.symbols = s.symbols) : u.Unequated := by
  intro n b hb
  rw [hsame] at hb
  exact h n b hb

theorem declare (h : s.Unequated) (t : Token) {meaning : Meaning} (hkind : meaning.kind ≠ .equate) :
    State.Unequated { s with symbols := (s.symbols.declare t meaning).2 } := by
  intro n b hb
  dsimp only [SymbolTable.declare] at hb
  split at hb
  · exact h n b hb
  · rcases SymbolTable.symbols_create hb with ⟨b', hb', hkey, -⟩ | ⟨-, hkey, -⟩
    · have hsame : b.kind = b'.kind := congrArg SymbolKey.kind hkey
      exact hsame ▸ h n b' hb'
    · have hsame : b.kind = meaning.kind := congrArg SymbolKey.kind hkey
      exact hsame ▸ hkind

theorem contains_eq_false (h : s.Unequated) (hs : s.symbols.Sound) (name : String) :
    s.symbols.contains .equate name = false := by
  refine eq_false_of_ne_true fun hthere => ?_
  obtain ⟨n, b, hb, hkey⟩ := hs.contains_iff.mp hthere
  exact h n b hb (congrArg SymbolKey.kind hkey)

end Unequated

end Parse.State

namespace Grammar

open Parse

variable {o s u : State}

theorem Stays.refl (s : State) : Stays s s := ⟨rfl, rfl, rfl, rfl⟩

theorem Stays.trans {v : State} (h : Stays s u) (g : Stays u v) : Stays s v :=
  ⟨g.rest.trans h.rest, g.last.trans h.last, g.split.trans h.split, g.eof.trans h.eof⟩

theorem Stays.current (h : Stays s u) : u.current = s.current := by
  unfold State.current
  rw [h.split, h.rest, h.eof]

theorem Stays.reads (h : Stays s u) {read : List Token} (g : Reads o read s) : Reads o read u where
  tokens := by rw [h.rest, g.tokens]
  last := by rw [h.last, g.last]
  split hnil := by
    rw [h.split]
    exact g.split hnil

/-! ## 1. Headers -/

/-- The line of a header has been read so far. -/
def Heading (o s : State) : Prop :=
  ∃ front t words, Reads o (front ++ t :: words) s ∧ (∀ f ∈ front, f.kind = .newline) ∧
    t.kind.opensHeader ∧ ∀ w ∈ t :: words, w.kind.isSeparator = false

/-- Nothing but a header and separators has been read. -/
def Headed (o s : State) : Prop :=
  ∃ read, Reads o read s ∧ ∀ t ∈ read, t.kind.isSeparator ∨ t ∈ headerTokens read

/-- What is kept along a line as long as there is no equate: neither recording a fault nor declaring a
    parameter nor reading on ends it. -/
structure AlongLine (I : State → Prop) : Prop where
  unequated : ∀ {s}, I s → s.Unequated
  stays : ∀ {s u}, I s → Stays s u → u.Unequated → I u
  advance : ∀ {s}, I s → s.Regular → s.current.kind.IsWord →
    s.current.kind.isSeparator = false → I s.advance.2

namespace Heading

theorem stays (h : Heading o s) (g : Stays s u) : Heading o u := by
  obtain ⟨front, t, words, hread, hline⟩ := h
  exact ⟨front, t, words, g.reads hread, hline⟩

/-- The line goes on as long as no separator is read. -/
theorem advance (h : Heading o s) (hs : s.Regular) (hk : s.current.kind.IsWord)
    (hline : s.current.kind.isSeparator = false) : Heading o s.advance.2 := by
  obtain ⟨front, t, words, hread, hfront, hopens, hwords⟩ := h
  refine ⟨front, t, words ++ [s.current], ?_, hfront, hopens, ?_⟩
  · have hall := hread.trans (Reads.advance hs hk)
    rwa [List.append_assoc, List.cons_append] at hall
  · rw [← List.cons_append]
    exact List.forall_mem_append.mpr ⟨hwords, List.forall_mem_singleton.mpr hline⟩

theorem alongLine (o : State) : AlongLine fun u => Heading o u ∧ u.Unequated where
  unequated h := h.2
  stays h hstays hno := ⟨h.1.stays hstays, hno⟩
  advance h hs hk hline := ⟨h.1.advance hs hk hline, h.2.of_symbols (State.symbols_advance _)⟩

/-- What has been read so far stands in front of the header or belongs to it. -/
theorem headed (h : Heading o s) : Headed o s := by
  obtain ⟨front, t, words, hread, hfront, hopens, hwords⟩ := h
  refine ⟨_, hread, fun w hw => ?_⟩
  rcases List.mem_append.mp hw with hin | hin
  · rw [hfront w hin]
    exact Or.inl rfl
  · exact Or.inr (subset_headerTokens hfront hopens hwords hin)

end Heading

theorem Headed.advance (h : Headed o s) (hs : s.Regular) (hk : s.current.kind.isSeparator) :
    Headed o s.advance.2 := by
  obtain ⟨read, hread, hall⟩ := h
  refine ⟨read ++ [s.current], hread.trans (.advance hs (Kind.isWord_of_isSeparator hk)), ?_⟩
  refine List.forall_mem_append.mpr ⟨fun t ht => ?_, List.forall_mem_singleton.mpr (Or.inl hk)⟩
  exact (hall t ht).imp_right fun hin => headerTokens_subset_append _ _ hin

section Lines

variable {I : State → Prop} (hI : AlongLine I) (h : I s)

include hI h

theorem goes_lineConsume {kind : Kind} (hword : kind.IsWord) (hline : kind.isSeparator = false) :
    Goes s (consume kind) fun _ u => I u := by
  refine Goes.regular fun hs => (goes_consume kind).mono fun found u _ hfound => ?_
  rcases hfound with ⟨-, rfl, rfl⟩ | ⟨-, -, rfl⟩
  · exact hI.advance h hs hword hline
  · exact h

theorem tries_lineName : Tries s expectIdent fun t u =>
    t.kind = .ident ∧ Opens s t u ∧ I u := by
  refine Tries.regular fun hs => tries_nextIdent.mono fun t u _ hread => ?_
  obtain ⟨hk, rfl, rfl⟩ := hread
  have hident : s.current.kind.IsWord ∧ s.current.kind.isSeparator = false := by
    rw [hk]
    decide
  exact ⟨hk, ⟨rfl, hident.1, .refl _⟩, hI.advance h hs hident.1 hident.2⟩

theorem goes_lineReport {cause : Cause} (hcause : cause.severity = .error) (span : Span) :
    Goes s (report cause span) fun _ u => ¬ u.Clean ∧ I u := by
  intro hs
  obtain ⟨honward, hstays, hreport⟩ := goes_report cause span hs
  have hno := (hI.unequated h).of_symbols (symbols_report cause span)
  exact ⟨honward, hreport hcause, hI.stays h hstays hno⟩

omit hI h in
/-- A parameter is bound where there is no equate. -/
theorem since_declareParameter {t : Token} (ht : t.kind = .ident) (hopens : Opens o t s)
    (hno : s.Unequated) (isMatrix : Bool) :
    GoesWith (Since o) s (trySymbols (·.declareParameter t isMatrix)) fun done u =>
      Stays s u ∧ u.Unequated ∧ (done = true → u.symbols.Refers t.span t.folded) := by
  rintro - ⟨ho, hos⟩
  have honward := hos.declare (.variable .parameter (if isMatrix then .matrix none none else .dynamic))
    hopens ho ht (fun hk => by cases hk) fun _ hs => hno.contains_eq_false hs t.text
  refine ⟨⟨ho, honward⟩, .noted (SymbolTable.follows_declare _ t _), ⟨rfl, rfl, rfl, rfl⟩,
    hno.declare t (fun hk => by cases hk), fun hdone => ?_⟩
  exact SymbolTable.refers_declare (Or.inl rfl) hdone

/-- Parameters that have been read since a state. -/
def Lists (o : State) (found : List Parameter) (u : State) : Prop := Has o [] (found.map (·.name)) u

theorem tries_parameterTurn (found : Array Parameter) (hfound : Lists o found.toList s) :
    Tries s (parameterTurn found) (Turns (fun found u => I u ∧ Lists o found.toList u)
      (fun found u => I u ∧ Lists o found u) s) := by
  refine Tries.look (sees_eq s _) ?_
  split
  · exact Tries.pure ⟨h, hfound⟩
  · refine Tries.after (goes_lineConsume hI h (Kind.isWord_keyword _) rfl) fun isMatrix u1 h1 hline =>
      ?_
    refine Tries.regular fun hu1 => Tries.of_since ((tries_lineName hI hline).since
      fun t u2 h2 hname => ?_)
    obtain ⟨hident, hopens, hline⟩ := hname
    have hconsumes : Consumes u1 u2 := hopens.consumes hu1
    -- the turn ends in the same way whether the name is declared or reported as taken
    have hend (isMatrix : Bool) {u : State} (hu : Past u2 u) (hsince : Onward u1 u) (hline : I u)
        (hplaced : Placed ⟨t.text, .assignment, t.span⟩ u1 u) :
        Tries u (do
          let parameters := found.push ⟨⟨t.text, .assignment, t.span⟩, isMatrix⟩
          if ← consume .comma then return .again parameters
          else return .done parameters.toList : Parser (Turn (Array Parameter) (List Parameter)))
          (Turns (fun found u => I u ∧ Lists o found.toList u) (fun found u => I u ∧ Lists o found u)
            s) := by
      have hall : Lists o (found.push ⟨⟨t.text, .assignment, t.span⟩, isMatrix⟩).toList u := by
        have hread := (Has.before hfound h1).append (.name hsince hplaced)
        simpa [Lists] using hread
      refine Tries.after (goes_lineConsume hI hline (by decide) rfl) fun _ v hv hline => ?_
      split
      · refine Tries.pure ⟨⟨hline, hall.before hv⟩, .after h1 (hconsumes.before (hu.trans hv))⟩
      · exact Tries.pure ⟨hline, hall.before hv⟩
    refine TriesWith.after (lasting_since u1)
      (since_declareParameter hident hopens (hI.unequated hline) isMatrix)
      fun done u3 h3 hpast hdeclared => ?_
    obtain ⟨hstays, hno, hrefers⟩ := hdeclared
    have hline := hI.stays hline hstays hno
    have hstands := (Stands.of_opens hopens).before hpast
    dsimp only
    split
    · rename_i hdone
      exact hend isMatrix hpast h3.2 hline ⟨hstands, fun _ _ _ => hrefers hdone⟩
    · refine Tries.after (goes_lineReport hI hline rfl _) fun _ u4 h4 hreport => ?_
      refine hend isMatrix (hpast.trans h4) (h3.2.trans h4) hreport.2 ?_
      exact .of_not_clean (hstands.before h4) hreport.1

theorem tries_parameters : Tries s parameters fun found u => I u ∧ Lists s found u := by
  refine Tries.after (goes_lineConsume hI h (by decide) rfl) fun found u1 h1 hline => ?_
  split
  · refine Tries.bind (Q := fun found u => I u ∧ Lists s found u)
      (Tries.tryLoop parameterTurn (J := fun found u => I u ∧ Lists s found.toList u)
        ⟨hline, .of_onward h1⟩ fun found u _ hu => tries_parameterTurn hI hu.1 found hu.2)
      fun found u2 _ hread => ?_
    refine Tries.regular fun hu2 => ?_
    have hclose : Tries u2 (discard (expect .rightParen)) fun _ u => I u := by
      refine Tries.dropped ((tries_expect .rightParen).mono fun t u _ hclose => ?_)
      obtain ⟨hk, -, rfl⟩ := hclose
      have hparen : u2.current.kind.IsWord ∧ u2.current.kind.isSeparator = false := by
        rw [hk]
        decide
      exact hI.advance hread.1 hu2 hparen.1 hparen.2
    exact hclose.bind fun _ u3 h3 hline => Tries.pure ⟨hline, Has.before hread.2 h3⟩
  · exact Tries.pure ⟨hline, .of_onward h1⟩

end Lines

/-- A turn of the loop over parameters consumes something, whatever there is already. -/
theorem proceeds_parameterTurn (found : Array Parameter) :
    Proceeds s (parameterTurn found).run (Owes (Turns (fun _ _ => True) (fun _ _ => True) s)) := by
  refine TriesWith.look (sees_eq s _) ?_
  split
  · exact .of_goes lasting_true (Tries.pure trivial)
  · refine TriesWith.behind lasting_true (Tries.step (goes_consume _)) fun isMatrix u1 h1 _ => ?_
    have hname : Tries u1 expectIdent fun _ u => Consumes u1 u :=
      Tries.regular fun hu1 => tries_expectIdent.mono fun _ _ _ ht => ht.2.consumes hu1
    refine TriesWith.behind lasting_true hname fun t u2 h2 hconsumes => ?_
    have hend (found : Array Parameter) {u : State} (hu : Past u2 u) :
        Tries u (do
          if ← consume .comma then return .again found
          else return .done found.toList : Parser (Turn (Array Parameter) (List Parameter)))
          (Turns (fun _ _ => True) (fun _ _ => True) s) := by
      refine Tries.after (goes_consume _) fun _ v hv _ => ?_
      split
      · exact Tries.pure ⟨trivial, .after h1 (hconsumes.before (hu.trans hv))⟩
      · exact Tries.pure trivial
    have hdeclare : Proceeds u2 (trySymbols (·.declareParameter t isMatrix)) fun _ _ => True :=
      fun _ _ => ⟨trivial, .noted (SymbolTable.follows_declare _ t _), trivial⟩
    refine TriesWith.after lasting_true hdeclare fun done u3 _ h3 _ => ?_
    dsimp only
    split
    · exact hend _ h3
    · exact Tries.after (goes_report _ _) fun _ u4 h4 _ => hend _ (h3.trans h4)

theorem tries_headerAfter (kind : ProcedureKind) (h : Heading o s) (hno : s.Unequated) :
    Tries s (headerAfter kind) fun head u => Headed o u ∧ Lists s head.parameters u := by
  have hheading := Heading.alongLine o
  refine (tries_lineName hheading ⟨h, hno⟩).bind fun t u1 h1 hname => ?_
  refine Tries.bind (Q := fun _ u => Stays u1 u ∧ u.Unequated) ?_ fun _ u2 h2 hdeclared => ?_
  · have hdeclare {meaning : Meaning} (hplain : meaning.isBound = false)
        (hvariable : meaning.kind ≠ .variable) (hequate : meaning.kind ≠ .equate) :
        Goes u1 (trySymbols (·.declare t meaning)) fun _ u => Stays u1 u ∧ u.Unequated :=
      fun hu1 => ⟨.noted (SymbolTable.advances_declare _ t hplain hvariable), ⟨rfl, rfl, rfl, rfl⟩,
        hname.2.2.2.declare t hequate⟩
    refine (Tries.step ?_).dropped
    cases kind <;> exact hdeclare rfl nofun nofun
  refine (tries_parameters hheading ⟨hname.2.2.1.stays hdeclared.1, hdeclared.2⟩).bind
    fun found u3 h3 hread => ?_
  refine Tries.regular fun hu3 => tries_expectSeparator.bind fun _ u4 h4 hend => Tries.pure ⟨?_, ?_⟩
  · rcases hend with ⟨hseparator, rfl⟩ | ⟨-, rfl⟩
    · exact hread.1.1.headed.advance hu3 hseparator
    · exact hread.1.1.headed
  · exact .after (h1.trans h2) (Has.before hread.2 h4)

/-- Only empty lines have been read. -/
theorem goes_emptyLines : Goes s skipNewlines fun _ u =>
    u.symbols = s.symbols ∧ ∃ read, Reads s read u ∧ ∀ t ∈ read, t.kind = .newline := by
  refine (goes_skipWhile (· == .newline) rfl).mono fun _ u honward h => ?_
  obtain ⟨read, hread⟩ := honward.reads
  exact ⟨h.2.symbols, read, hread, fun t ht => eq_of_beq (h.2.read read hread.tokens t ht)⟩

/-- A word that opens a header is read behind empty lines. -/
theorem goes_openHeader {read : List Token} (hread : Reads o read s)
    (hempty : ∀ t ∈ read, t.kind = .newline) (hk : s.current.kind.opensHeader) :
    Goes s (discard advance) fun _ u => u = s.advance.2 ∧ Heading o u := by
  have hword := Kind.isWord_of_opensHeader hk
  refine Goes.regular fun hs => goes_skip.mono fun _ u _ hu => ⟨hu, ?_⟩
  rw [hu]
  refine ⟨read, s.current, [], hread.trans (.advance hs hword), hempty, hk, ?_⟩
  exact List.forall_mem_singleton.mpr (Kind.not_isSeparator_of_opensHeader hk)

/-- **A header** reads nothing but itself and separators, if there is no error. -/
theorem goes_header (hno : s.Unequated) : Goes s header fun head u =>
    (u.Clean → Headed s u) ∧ Lists s head.parameters u := by
  have hrecover {u : State} {p : Parser Header} (hu : Onward s u)
      (hp : Tries u p fun head v => Headed s v ∧ Lists u head.parameters v) :
      Goes u (recover .anonymous p) fun head v =>
        (v.Clean → Headed s v) ∧ Lists s head.parameters v := by
    refine (goes_recover hp).mono fun head v hv h => ?_
    rcases h with hread | ⟨rfl, hfault, -⟩
    · exact ⟨fun _ => hread.1, .after hu hread.2⟩
    · exact ⟨fun hclean => absurd hclean hfault, .of_onward (hu.trans hv)⟩
  refine goes_emptyLines.bind fun _ u1 h1 hblank => Goes.look (sees_eq u1 _) ?_
  obtain ⟨hsymbols, read, hread, hempty⟩ := hblank
  have hno1 : u1.Unequated := hno.of_symbols hsymbols
  have hno2 : u1.advance.2.Unequated := hno1.of_symbols u1.symbols_advance
  -- a header opens with the word for its kind, or with `compile` and that word
  cases hcompiled : u1.current.kind == Kind.keyword .COMPILE with
  | true =>
    have hk : u1.current.kind = .keyword .COMPILE := eq_of_beq hcompiled
    have hopens : u1.current.kind.opensHeader := by
      rw [hk]
      rfl
    refine Goes.look (nextKind_eq u1) ?_
    dsimp only
    split
    · rename_i kind hkind
      refine Goes.regular fun hu1 => (goes_openHeader hread hempty hopens).bind fun _ u2 h2 hopened =>
        ?_
      obtain ⟨rfl, hline⟩ := hopened
      have hnext : u1.advance.2.current.kind.opensHeader := by
        rw [Mentions.current_advance hu1.ended (Kind.isWord_of_opensHeader hopens)]
        exact Mentions.opensHeader_of_procedureKind? hkind
      refine Goes.regular fun hu2 => goes_skip.bind fun _ u3 h3 hskip => ?_
      subst hskip
      refine hrecover (h1.trans (h2.trans h3)) (tries_headerAfter kind ?_ ?_)
      · refine hline.advance hu2 (Kind.isWord_of_opensHeader hnext) ?_
        exact Kind.not_isSeparator_of_opensHeader hnext
      · exact hno2.of_symbols (State.symbols_advance _)
    · exact goes_skip.bind fun _ u2 h2 _ => hrecover (h1.trans h2) (tries_failHere rfl)
  | false =>
    refine Goes.look (currentKind_eq u1) ?_
    dsimp only
    split
    · rename_i kind hkind
      have hopens := Mentions.opensHeader_of_procedureKind? hkind
      refine (goes_openHeader hread hempty hopens).bind fun _ u2 h2 hopened => ?_
      obtain ⟨rfl, hline⟩ := hopened
      exact hrecover (h1.trans h2) (tries_headerAfter kind hline hno2)
    · refine Goes.pure ⟨fun _ => ⟨read, hread, fun t ht => ?_⟩, .of_onward h1⟩
      rw [hempty t ht]
      exact Or.inl rfl

/-! ## 2. Procedures -/

theorem goes_reportAll (found : List (String × Span)) :
    Goes s (found.forM fun (label, span) => report (.undefinedLabel label) span) fun _ u =>
      Stays s u ∧ u.symbols = s.symbols := by
  induction found generalizing s with
  | nil => exact Goes.pure ⟨.refl s, rfl⟩
  | cons first rest ih =>
    have hfirst : Goes s (report (.undefinedLabel first.1) first.2) fun _ u =>
        Stays s u ∧ u.symbols = s.symbols := fun hs =>
      ⟨(goes_report _ _ hs).1, (goes_report _ _ hs).2.1, symbols_report _ _⟩
    refine hfirst.bind fun _ u1 _ h1 => ih.mono fun _ u2 _ h2 => ?_
    exact ⟨h1.1.trans h2.1, h2.2.trans h1.2⟩

/-- A body stands behind a header and reaches to the end of the file. -/
structure Body (s : State) (head : Header) (body : Block) (m v u : State) : Prop where
  headed : m.Clean → Headed s m
  parameters : Lists s head.parameters m
  written : Written (.block body) m v
  ended : v.current.kind = .endOfFile
  behind : Past v u
  stays : Stays v u
  symbols : u.symbols = v.symbols

theorem Body.front {head : Header} {body : Block} {m v : State} (h : Body s head body m v u) :
    Past s m :=
  h.parameters.past

/-- **A procedure** is read up to the end of the file, whatever the tokens are. -/
theorem goes_procedure (hno : s.Unequated) :
    Goes s procedure fun found u => ∃ m v, Body s found.1 found.2 m v u := by
  refine (goes_header hno).bind fun head u1 h1 hheaded => ?_
  refine (goes_block writes_statement .file).bind fun body u2 _ hbody => ?_
  refine Goes.look (p := MonadState.get) rfl ?_
  refine (goes_reportAll _).bind fun _ u3 h3 hstays => Goes.pure ⟨u1, u2, ?_⟩
  exact ⟨hheaded.1, hheaded.2, hbody.1, hbody.2 rfl, h3, hstays.1, hstays.2⟩

theorem regular_opening (primary : List Token) (faults : List Fault) :
    (State.opening primary faults).Regular :=
  .of_whole rfl rfl

theorem unequated_opening (primary : List Token) (faults : List Fault) :
    (State.opening primary faults).Unequated :=
  fun _ _ hb => absurd hb nofun

end Grammar

namespace Procedure

open Parse Grammar

/-- The state before the first of the tokens of a text. -/
def opening (source : String) (file : Nat) : State :=
  .opening (Lexed.ofText source file).primary (Lexed.ofText source file).faults

/-- **The body of a text is written** behind its header, up to the end of the file. -/
theorem exists_written (source : String) (file : Nat) :
    ∃ m v, Grammar.Body (opening source file) (ofText source file).header (ofText source file).body
      m v (readText source file).2 := by
  have hgoes := goes_procedure (unequated_opening (Lexed.ofText source file).primary
    (Lexed.ofText source file).faults)
  have hfound := (hgoes (regular_opening _ _)).2
  rw [show procedure _ = readText source file from rfl] at hfound
  rw [header_ofText, body_ofText]
  exact hfound

/-- A text without errors leaves none behind its last token. -/
theorem clean_readText {source : String} {file : Nat}
    (h : (ofText source file).hasErrors = false) : (readText source file).2.Clean := by
  intro d hd
  rw [hasErrors, List.any_eq_false] at h
  refine Bool.eq_false_iff.mpr (h d ?_)
  simpa only [ofText, ofTokens, readText, List.mem_mergeSort] using hd

end Procedure

end BasicCheck
