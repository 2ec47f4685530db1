import Mathlib.Data.List.TakeWhile
import BasicCheck.Proofs.Mention.Block
import BasicCheck.Proofs.Parse.References

/-!
# The mentions of procedures

What a header notes it notes for the tokens of the header, which are told by their kinds
(`headerTokens`). Together with the body this says where everything is that is noted while a text is
read: if there is no error, every reference behind the header is the place of exactly one identifier
of the body, and of the same name, unless it stands in a clause of a search that a later clause
replaces (**`Procedure.exists_ident_of_mem_references`**).
-/

namespace BasicCheck

/-! ## 1. Headers -/

/-- Words that open a header. -/
def Kind.opensHeader : Kind → Bool
  | .keyword .COMPILE | .keyword .FUNCTION | .keyword .SUBROUTINE | .keyword .INSERT => true
  | _ => false

theorem Kind.not_isSeparator_of_opensHeader {kind : Kind} (h : kind.opensHeader) :
    kind.isSeparator = false := by
  cases kind with
  | keyword word => rfl
  | _ => cases h

theorem Kind.isWord_of_opensHeader {kind : Kind} (h : kind.opensHeader) : kind.IsWord := by
  cases kind with
  | keyword word => exact isWord_keyword word
  | _ => cases h

/-- The tokens of a header: those of the first line that is not empty, if it opens with a word that
    opens a header. -/
def headerTokens (tokens : List Token) : List Token :=
  match tokens.dropWhile (·.kind == .newline) with
  | [] => []
  | t :: rest =>
    if t.kind.opensHeader then (t :: rest).takeWhile (!·.kind.isSeparator) else []

/-- What is read further on leaves the tokens of a header among those of the header. -/
theorem headerTokens_subset_append (tokens more : List Token) :
    headerTokens tokens ⊆ headerTokens (tokens ++ more) := by
  unfold headerTokens
  intro x hx
  split at hx
  · exact absurd hx List.not_mem_nil
  · rename_i t rest hrest
    split at hx
    · rename_i hopens
      have hall : (tokens ++ more).dropWhile (·.kind == .newline) = t :: (rest ++ more) := by
        rw [List.dropWhile_append, hrest]
        rfl
      rw [hall]
      dsimp only
      rw [if_pos hopens, ← List.cons_append, List.takeWhile_append]
      split
      · exact List.mem_append_left _ ((List.takeWhile_prefix _).subset hx)
      · exact hx
    · exact absurd hx List.not_mem_nil

/-- A header in front of which only empty lines stand. -/
theorem subset_headerTokens {front words : List Token} {t : Token}
    (hfront : ∀ f ∈ front, f.kind = .newline) (hopens : t.kind.opensHeader)
    (hwords : ∀ w ∈ t :: words, w.kind.isSeparator = false) :
    t :: words ⊆ headerTokens (front ++ t :: words) := by
  have hdrop : (front ++ t :: words).dropWhile (·.kind == .newline) = t :: words := by
    have ht : (t.kind == .newline) = false := by
      cases hk : t.kind <;> simp_all [Kind.opensHeader]
    rw [List.dropWhile_append, List.dropWhile_eq_nil_iff.mpr (by simpa using hfront)]
    simp [ht]
  have htake : (t :: words).takeWhile (!·.kind.isSeparator) = t :: words :=
    List.takeWhile_eq_self_iff.mpr (by simpa using hwords)
  unfold headerTokens
  rw [hdrop]
  dsimp only
  rw [if_pos hopens, htake]
  exact List.Subset.refl _

namespace Mentions

open Parse SymbolTable

variable {s u : State} {m k : Stretch} {I : Stretch → Prop}

/-- Whatever is noted stands where a token of the header stands. -/
def Headed (m : Stretch) : Prop := ∀ x ∈ m.noted, ∃ t ∈ headerTokens m.read, t.span = x.span

theorem lasting_headed : Lasting Headed := by
  intro m k hk hm x hx
  rw [Stretch.noted_append, hk, List.append_nil] at hx
  obtain ⟨t, ht, hspan⟩ := hm x hx
  exact ⟨t, headerTokens_subset_append _ _ ht, hspan⟩

/-- The line of the header is being read. -/
structure Opened (m : Stretch) : Prop where
  line : ∃ front t words, m.read = front ++ t :: words ∧ (∀ f ∈ front, f.kind = .newline) ∧
    t.kind.opensHeader ∧ ∀ w ∈ t :: words, w.kind.isSeparator = false
  headed : Headed m

namespace Opened

/-- The line goes on as long as no separator is read. -/
theorem read (h : Opened m) {w : Token} (hw : w.kind.isSeparator = false) :
    Opened (m ++ .reading w) ∧ w ∈ headerTokens (m ++ .reading w).read := by
  obtain ⟨⟨front, t, words, hread, hfront, hopens, hwords⟩, hheaded⟩ := h
  have hread' : (m ++ .reading w).read = front ++ t :: (words ++ [w]) := by
    simp [hread]
  have hwords' : ∀ v ∈ t :: (words ++ [w]), v.kind.isSeparator = false := by
    rw [← List.cons_append]
    exact List.forall_mem_append.mpr ⟨hwords, List.forall_mem_singleton.mpr hw⟩
  refine ⟨⟨⟨front, t, words ++ [w], hread', hfront, hopens, hwords'⟩,
    lasting_headed m _ rfl hheaded⟩, ?_⟩
  rw [hread']
  exact subset_headerTokens hfront hopens hwords' (by simp)

theorem report (h : Opened m) (f : Fault) : Opened (m ++ .reporting f) := by
  refine ⟨?_, lasting_headed m _ rfl h.headed⟩
  have hread : (m ++ .reporting f).read = m.read := List.append_nil _
  rw [hread]
  exact h.line

theorem note (h : Opened m) {t : Token} (ht : t ∈ headerTokens m.read) :
    Opened (m ++ .noting t.mention) := by
  have hread : (m ++ .noting t.mention).read = m.read := List.append_nil _
  refine ⟨by rw [hread]; exact h.line, List.forall_mem_append.mpr ⟨?_, ?_⟩⟩
  · rw [hread]
    exact h.headed
  · rw [hread]
    exact List.forall_mem_singleton.mpr ⟨t, ht, rfl⟩

end Opened

theorem does_consume_word' {kind : Kind} (hk : kind.IsWord) (hline : kind.isSeparator = false) :
    Does s Opened (consume kind) fun _ => Opened :=
  does_consume_word hk (fun t m ht hm => (hm.read (by rwa [ht])).1) fun _ hm => hm

/-- A name of the header. -/
theorem tries_headerName : Tries s Opened expectIdent fun t m =>
    Opened m ∧ t ∈ headerTokens m.read := by
  refine Tries.look (sees_eq s .ident) ?_
  split
  · rename_i hsees
    have hk : s.current.kind = .ident := eq_of_beq hsees
    refine Tries.step (does_word (by rw [hk]; decide) fun m hm => hm.read ?_)
    rw [hk]
    rfl
  · exact tries_failHere rfl

/-- A name of the header is declared. -/
theorem does_headerDeclare {f : SymbolTable → Bool × SymbolTable} {t : Token}
    (hf : NotesOnly (fun symbols => (f symbols).2) t) :
    Does s (fun m => Opened m ∧ t ∈ headerTokens m.read) (trySymbols f) fun _ => Opened := by
  have hrun : trySymbols f s = ((f s.symbols).1, { s with symbols := (f s.symbols).2 }) := rfl
  exact does_change hrun hf (fun _ hm => hm.1) fun _ hm => hm.1.note hm.2

theorem tries_parameterTurn (parameters : Array Parameter) :
    Tries s Opened (parameterTurn parameters) (Turns (fun _ => Opened) fun _ => Opened) := by
  refine Tries.look (sees_eq s _) ?_
  split
  · exact Tries.pure fun _ h => h
  · refine Tries.after (does_consume_word' (Kind.isWord_keyword _) rfl) fun isMatrix u1 => ?_
    refine tries_headerName.bind fun t u2 => ?_
    have hdeclare : NotesOnly (fun symbols => (symbols.declareParameter t isMatrix).2) t :=
      notesOnly_declare t _
    refine Tries.after (does_headerDeclare hdeclare) fun done u3 => ?_
    have hend (found : Array Parameter) (u : State) : Tries u Opened (do
        if ← consume .comma then return .again found
        else return .done found.toList : Parser (Turn (Array Parameter) (List Parameter)))
        (Turns (fun _ => Opened) fun _ => Opened) := by
      refine Tries.after (does_consume_word' (by decide) rfl) fun _ _ => ?_
      split
      · exact Tries.pure fun _ h => h
      · exact Tries.pure fun _ h => h
    dsimp only
    split
    · exact hend _ u3
    · exact Tries.after (does_reportFault _ fun _ hm => hm.report _) fun _ u4 => hend _ u4

theorem tries_parameters : Tries s Opened parameters fun _ => Opened := by
  refine Tries.after (does_consume_word' (by decide) rfl) fun found u1 => ?_
  split
  · have hturns : Tries u1 Opened (tryLoop parameterTurn #[]) fun _ => Opened :=
      Tries.tryLoop (J := fun _ => Opened) fun found _ => tries_parameterTurn found
    refine hturns.bind fun found u2 => ?_
    refine Tries.bind (Q := fun _ => Opened) (Tries.dropped ?_) fun _ _ => Tries.pure fun _ h => h
    refine Tries.look (sees_eq u2 _) ?_
    split
    · rename_i hsees
      have hk : u2.current.kind = .rightParen := eq_of_beq hsees
      refine Tries.step (does_word (by rw [hk]; decide) fun m hm => (hm.read ?_).1)
      rw [hk]
      rfl
    · exact Tries.look (current_eq u2) (tries_failHere rfl)
  · exact Tries.pure fun _ h => h

theorem tries_headerAfter (kind : ProcedureKind) :
    Tries s Opened (headerAfter kind) fun _ => Headed := by
  refine tries_headerName.bind fun t u1 => ?_
  refine (Tries.step (does_headerDeclare (t := t) ?_)).dropped.bind fun _ u2 => ?_
  · cases kind
    · exact notesOnly_declare t .function
    · exact notesOnly_declare t .subroutine
    · exact notesOnly_declare t .insert
  refine tries_parameters.bind fun found u3 => ?_
  refine Tries.bind (Q := fun _ => Headed) ?_ fun _ _ => Tries.pure fun _ h => h
  exact (tries_expectSeparator lasting_headed).pre fun m hm => hm.headed

theorem opensHeader_of_procedureKind? {kind : Kind} {found : ProcedureKind}
    (h : procedureKind? kind = some found) : kind.opensHeader := by
  unfold procedureKind? at h
  split at h
  · rfl
  · rfl
  · rfl
  · cases h

/-- Only empty lines have been read. -/
structure Blank (m : Stretch) : Prop where
  read : ∀ t ∈ m.read, t.kind = .newline
  noted : m.noted = []

theorem Blank.open (h : Blank m) {t : Token} (ht : t.kind.opensHeader) :
    Opened (m ++ .reading t) := by
  have hnoted : (m ++ .reading t).noted = [] := by
    rw [Stretch.noted_append, h.noted]
    rfl
  refine ⟨⟨m.read, t, [], rfl, h.read, ht, ?_⟩, ?_⟩
  · exact List.forall_mem_singleton.mpr (Kind.not_isSeparator_of_opensHeader ht)
  · intro x hx
    rw [hnoted] at hx
    exact absurd hx List.not_mem_nil

theorem does_skipNewlines : Does s Blank skipNewlines fun _ => Blank := by
  refine Does.loop (J := fun _ => Blank) (fun _ u => ?_) fun _ _ h => h
  refine Does.look (currentKind_eq u) ?_
  split
  · rename_i hsees
    have hk : u.current.kind = .newline := eq_of_beq hsees
    have hread : Does u Blank advance fun _ => Blank :=
      does_word (by rw [hk]; decide) fun m hm => ⟨by
        rw [Stretch.read_append, Stretch.read_reading]
        exact List.forall_mem_append.mpr ⟨hm.read, List.forall_mem_singleton.mpr hk⟩, by
        rw [Stretch.noted_append, hm.noted]
        rfl⟩
    exact hread.dropped.bind fun _ _ => Does.pure fun _ h => h
  · exact Does.pure fun _ h => h

/-- Behind a word comes what stood behind it. -/
theorem current_advance (heof : s.eof.kind = .endOfFile) (hk : s.current.kind.IsWord) :
    s.advance.2.current.kind = (s.next?.map (·.kind)).getD .endOfFile := by
  have hrest := (State.rest_of_isWord heof hk).2
  unfold State.current State.next? State.advance at *
  cases hsplit : s.split with
  | some whole =>
    rw [hsplit] at hk
    exact absurd rfl hk.2
  | none =>
    rw [hrest]
    cases htail : s.rest.tokens.tail with
    | nil => simp [Unread.tail, hsplit, htail, heof]
    | cons t rest => simp [Unread.tail, hsplit, htail]

/-- A word is read whose successor is known. -/
theorem does_wordThen {α : Type} {f : Unit → Step α} {J : Stretch → Prop}
    {Q : α → Stretch → Prop} (hk : s.current.kind.IsWord)
    (hread : ∀ m, I m → J (m ++ .reading s.current))
    (hf : ∀ u, u.current.kind = (s.next?.map (·.kind)).getD .endOfFile → Does u J (f ()) Q) :
    Does s I (discard advance >>= f) Q := by
  intro heof
  obtain ⟨-, hsince | ⟨hno, -⟩⟩ := since_advance heof
  · obtain ⟨k, hk', hQ⟩ := hf s.advance.2 (current_advance heof hk) (by rw [hsince.eof, heof])
    have hrun : (discard advance >>= f) s = f () s.advance.2 := rfl
    rw [hrun]
    refine ⟨.reading s.current ++ k, hsince.append hk', fun m hm => ?_⟩
    rw [← Stretch.append_assoc]
    exact hQ _ (hread m hm)
  · exact absurd hk hno

/-- **A header** notes nothing but its own tokens, if there is no error. -/
theorem does_header : Does s Blank header fun _ m => m.Clean → Headed m := by
  have hrecover {I : Stretch → Prop} (u : State) {p : Parser Header}
      (hp : Tries u I p fun _ => Headed) :
      Does u I (recover .anonymous p) fun _ m => m.Clean → Headed m :=
    does_recover (hp.mono fun _ _ h _ => h) fun _ hno hclean => absurd hclean hno
  refine does_skipNewlines.bind fun _ u1 => Does.look (sees_eq u1 _) ?_
  cases hcompiled : u1.current.kind == Kind.keyword .COMPILE with
  | true =>
    have hk : u1.current.kind = .keyword .COMPILE := eq_of_beq hcompiled
    have hopens : u1.current.kind.opensHeader := by
      rw [hk]
      rfl
    refine Does.look (nextKind_eq u1) ?_
    dsimp only
    split
    · rename_i kind hkind
      refine does_wordThen (Kind.isWord_of_opensHeader hopens) (fun m hm => hm.open hopens)
        fun u2 hu2 => ?_
      have hnext := opensHeader_of_procedureKind? hkind
      rw [← hu2] at hnext
      refine Does.bind (Q := fun _ => Opened) (Does.dropped ?_) fun _ u3 =>
        hrecover u3 (tries_headerAfter kind)
      exact does_word (Kind.isWord_of_opensHeader hnext) fun m hm =>
        (hm.read (Kind.not_isSeparator_of_opensHeader hnext)).1
    · refine does_wordThen (Kind.isWord_of_opensHeader hopens) (fun m hm => hm.open hopens)
        fun u2 _ => hrecover u2 (tries_failHere rfl)
  | false =>
    refine Does.look (currentKind_eq u1) ?_
    dsimp only
    split
    · rename_i kind hkind
      have hopens := opensHeader_of_procedureKind? hkind
      refine Does.bind (Q := fun _ => Opened) (Does.dropped ?_) fun _ u2 =>
        hrecover u2 (tries_headerAfter kind)
      exact does_word (Kind.isWord_of_opensHeader hopens) fun m hm => hm.open hopens
    · refine Does.pure fun m hm _ x hx => ?_
      rw [hm.noted] at hx
      exact absurd hx List.not_mem_nil

/-! ## 2. Procedures -/

/-- Whatever is noted stands in the header or is named in a statement of a tree, or it is in a
    clause that is replaced in one of them. -/
def Found (body : Block) (m : Stretch) : Prop :=
  ∀ x ∈ m.noted, (∃ t ∈ headerTokens m.read, t.span = x.span) ∨
    ∃ st ∈ Block.all body, x ∈ st.mentions ∨ st.Replaces m.read x.span

theorem Found.before {body : Block} (h : Found body m) (hk : k.noted = []) :
    Found body (m ++ k) := by
  intro x hx
  rw [Stretch.noted_append, hk, List.append_nil] at hx
  rcases h x hx with ⟨t, ht, hspan⟩ | ⟨st, hst, hmention⟩
  · exact Or.inl ⟨t, headerTokens_subset_append _ _ ht, hspan⟩
  · exact Or.inr ⟨st, hst, hmention.imp_right fun hr => hr.before k.read⟩

theorem does_reportAll (hI : Lasting I) (found : List (String × Span)) :
    Does s I (found.forM fun (label, span) => report (.undefinedLabel label) span) fun _ => I := by
  induction found generalizing s with
  | nil => exact Does.pure fun _ h => h
  | cons first rest ih => exact (does_report _ _ hI).bind fun _ u1 => ih

/-- **A procedure** accounts for whatever is noted while it is read, if there is no error. -/
theorem does_procedure :
    Does s (· = ∅) procedure fun found m => m.Clean → Found found.2 m := by
  have hblank (m : Stretch) (hm : m = ∅) : Blank m := by
    rw [hm]
    exact ⟨List.forall_mem_nil _, rfl⟩
  refine Does.bind (does_header.pre hblank) fun head u1 => ?_
  have hbody : Does u1 (fun m => m.Clean → Headed m) (block statement .file)
      fun body m => m.Clean → Found body m := by
    refine (does_block tells_statement .file).frame .nothing fun body m k hm hk hclean => ?_
    refine List.forall_mem_append.mpr ⟨fun x hx => ?_, fun x hx => ?_⟩
    · obtain ⟨t, ht, hspan⟩ := hm hclean.left x hx
      exact Or.inl ⟨t, headerTokens_subset_append _ _ ht, hspan⟩
    · rcases hk hclean.right x hx with hin | ⟨st, hst, hmention⟩
      · exact absurd hin List.not_mem_nil
      · exact Or.inr ⟨st, hst, hmention.imp_right fun hr => hr.behind m.read⟩
  refine hbody.bind fun body u2 => Does.look (p := MonadState.get) rfl ?_
  have hlasting : Lasting fun m => m.Clean → Found body m :=
    fun m k hk hm hclean => (hm hclean.left).before hk
  exact (does_reportAll hlasting _).bind fun _ _ => Does.pure fun _ h => h

end Mentions

namespace Procedure

open Parse Mentions

variable {source : String} {file : Nat}

/-- What is done while a text is read. -/
theorem exists_since_readText (source : String) (file : Nat) :
    ∃ m, Since (.opening (Lexed.ofText source file).primary (Lexed.ofText source file).faults) m
        (readText source file).2 ∧ (m.Clean → Found (readText source file).1.2 m) := by
  obtain ⟨m, hm, hfound⟩ := does_procedure
    (s := .opening (Lexed.ofText source file).primary (Lexed.ofText source file).faults) rfl
  simp only [readText]
  exact ⟨m, hm, hfound ∅ rfl⟩

/-- What is noted in the table of a text, if there is no error. -/
theorem found_of_mem_references (h : (ofText source file).hasErrors = false) {r : Reference}
    (hr : r ∈ (ofText source file).symbols.references) :
    (∃ t ∈ headerTokens (Lexed.ofText source file).primary, t.span = r.token.span) ∨
      ∃ st ∈ Block.all (ofText source file).body, r.token.mention ∈ st.mentions ∨
        st.Replaces (Lexed.ofText source file).primary r.token.span := by
  obtain ⟨m, hm, hfound⟩ := exists_since_readText source file
  have hclean : m.Clean := by
    intro d hd
    have hmem : d ∈ (readText source file).2.diagnostics.toList := by
      rw [hm.faults]
      exact List.mem_append_right _ hd
    rw [hasErrors, List.any_eq_false] at h
    refine Bool.eq_false_iff.mpr (h d ?_)
    simpa only [ofText, ofTokens, readText, List.mem_mergeSort] using hmem
  have hnoted : r.token.mention ∈ m.noted := by
    have hmem : r.token.mention ∈ (readText source file).2.symbols.mentions := by
      rw [symbols_ofText] at hr
      exact List.mem_map_of_mem (Array.mem_toList_iff.mpr hr)
    rw [hm.noted] at hmem
    exact (List.mem_append.mp hmem).resolve_left List.not_mem_nil
  have hread : (Lexed.ofText source file).primary =
      m.read ++ (readText source file).2.rest.tokens := hm.tokens
  rw [body_ofText, hread]
  rcases hfound hclean r.token.mention hnoted with ⟨t, ht, hspan⟩ | ⟨st, hst, hmention⟩
  · exact Or.inl ⟨t, headerTokens_subset_append _ _ ht, hspan⟩
  · exact Or.inr ⟨st, hst, hmention.imp_right fun hr => hr.before _⟩

/-- The only member of a list with its key. -/
theorem filter_eq_singleton {α κ : Type} [DecidableEq κ] {key : α → κ} {as : List α}
    (h : (as.map key).Nodup) {a : α} (ha : a ∈ as) : as.filter (key · = key a) = [a] := by
  induction as with
  | nil => exact absurd ha List.not_mem_nil
  | cons b rest ih =>
    rw [List.map_cons, List.nodup_cons] at h
    obtain ⟨hb, hrest⟩ := h
    rcases List.mem_cons.mp ha with rfl | ha
    · have hnone : rest.filter (key · = key a) = [] := by
        refine List.filter_eq_nil_iff.mpr fun c hc heq => hb ?_
        rw [← of_decide_eq_true heq]
        exact List.mem_map_of_mem hc
      rw [List.filter_cons, if_pos (decide_eq_true rfl), hnone]
    · have hne : key b ≠ key a := fun heq => hb (heq ▸ List.mem_map_of_mem ha)
      rw [List.filter_cons, if_neg (by simpa using hne), ih hrest ha]

/-- Where no word opens two clauses, no clause is replaced. -/
theorem not_replaces {tokens : List Token}
    (hdelimiter : tokens.countP (·.kind == .keyword .USING) ≤ 1)
    (horder : tokens.countP (·.kind == .keyword .BY) ≤ 1) (st : Statement) (span : Span) :
    ¬ st.Replaces tokens span := by
  rintro ⟨test, thenArm, elseArm, whole, rfl, before, opening, behind, rfl, -, -, hr⟩
  obtain ⟨-, -, -, -, -, -, first, name, second, last, hsub, hfirst, hsecond, -⟩ := hr
  have hwhole : [first, second].Sublist (before ++ opening :: behind) := by
    have hpair : [first, second].Sublist [first, name, second, last] := by
      simp
    have htail : behind.Sublist (opening :: behind) := List.sublist_cons_self _ _
    exact ((hpair.trans hsub).trans htail).trans (List.sublist_append_right _ _)
  rcases hfirst with hfirst | hfirst
  · have hcount := hwhole.countP_le (p := (·.kind == Kind.keyword .USING))
    have htwo : [first, second].countP (·.kind == Kind.keyword .USING) = 2 := by
      simp [hsecond, hfirst]
    omega
  · have hcount := hwhole.countP_le (p := (·.kind == Kind.keyword .BY))
    have htwo : [first, second].countP (·.kind == Kind.keyword .BY) = 2 := by
      simp [hsecond, hfirst]
    omega

/-- **Every reference behind the header is an identifier of the body**, exactly one, and of the same
    name, if there is no error and the reference is in no clause of a search that is replaced. -/
theorem exists_ident_of_mem_references (h : (ofText source file).hasErrors = false) {r : Reference}
    (hr : r ∈ (ofText source file).symbols.references)
    (hheader : ∀ t ∈ headerTokens (Lexed.ofText source file).primary, t.span ≠ r.token.span)
    (hkept : ∀ st ∈ Block.all (ofText source file).body,
      ¬ st.Replaces (Lexed.ofText source file).primary r.token.span) :
    ∃ i, ((Block.all (ofText source file).body).flatMap Statement.idents).filter
        (·.span = r.token.span) = [i] ∧ i.folded = r.token.folded := by
  rcases found_of_mem_references h hr with ⟨t, ht, hspan⟩ | ⟨st, hst, hmention | hreplaced⟩
  · exact absurd hspan (hheader t ht)
  · obtain ⟨i, hi, heq⟩ := List.mem_map.mp hmention
    have hspan : i.span = r.token.span := congrArg Mention.span heq
    have hall : i ∈ (Block.all (ofText source file).body).flatMap Statement.idents :=
      List.mem_flatMap.mpr ⟨st, hst, hi⟩
    refine ⟨i, ?_, congrArg Mention.name heq⟩
    rw [← hspan]
    exact filter_eq_singleton (nodup_idents source file) hall
  · exact absurd hreplaced (hkept st hst)

/-- A search with a clause of each kind. -/
def searchText : String := "locate x in l by a using b setting p then null\n"

/-- What a clause names is an identifier of the search. -/
theorem exists_ident_of_search :
    ∃ r ∈ (ofText searchText 0).symbols.references, r.token.folded = "a" ∧
      ∃ i, ((Block.all (ofText searchText 0).body).flatMap Statement.idents).filter
        (·.span = r.token.span) = [i] ∧ i.folded = r.token.folded := by
  have hfound : (ofText searchText 0).symbols.references.any (·.token.folded == "a") = true := by
    decide +kernel
  obtain ⟨r, hr, hname⟩ := Array.any_eq_true'.mp hfound
  have hheader : headerTokens (Lexed.ofText searchText 0).primary = [] := by
    decide +kernel
  refine ⟨r, hr, eq_of_beq hname,
    exists_ident_of_mem_references (by decide +kernel) hr ?_ fun st _ => ?_⟩
  · rw [hheader]
    exact List.forall_mem_nil _
  · exact not_replaces (by decide +kernel) (by decide +kernel) st _

/-- A search with two clauses of one kind. -/
def repeatedText : String := "locate x in l using a using b setting p then null\n"

/-- **A name is lost** with the clause of a search that another one of the same kind replaces: it is
    noted, and no identifier stands where it stands. -/
theorem exists_reference_without_ident :
    (ofText repeatedText 0).hasErrors = false ∧
      ∃ r ∈ (ofText repeatedText 0).symbols.references,
        (∀ t ∈ headerTokens (Lexed.ofText repeatedText 0).primary, t.span ≠ r.token.span) ∧
        ∀ i ∈ (Block.all (ofText repeatedText 0).body).flatMap Statement.idents,
          i.span ≠ r.token.span := by
  have hfound : (ofText repeatedText 0).symbols.references.any (fun r =>
      ((Block.all (ofText repeatedText 0).body).flatMap Statement.idents).all
        (·.span ≠ r.token.span)) = true := by
    decide +kernel
  obtain ⟨r, hr, hlost⟩ := Array.any_eq_true'.mp hfound
  have hheader : headerTokens (Lexed.ofText repeatedText 0).primary = [] := by
    decide +kernel
  refine ⟨by decide +kernel, r, hr, ?_, fun i hi => ?_⟩
  · rw [hheader]
    exact List.forall_mem_nil _
  · exact of_decide_eq_true (List.all_eq_true.mp hlost i hi)

end Procedure

end BasicCheck
