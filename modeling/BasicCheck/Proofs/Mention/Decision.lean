import BasicCheck.Proofs.Mention.Action
import BasicCheck.Proofs.Parse.Decision

/-!
# The mentions of decisions

Whatever is noted while a decision is read is named in it (**`settles_decisionAfter?`**), with one
exception. The clauses of a search may be repeated, and only the last of each kind is kept, so that
what the earlier ones name is noted and then lost. It is told by the tokens: behind the word that
opens the clause stands the name, behind it the same word again, and behind that the position that
the search sets (`Decision.Replaces`).
-/

namespace BasicCheck

namespace Decision

/-- The mentions of the identifiers of a decision. -/
def mentions (d : Decision) : List Mention := d.idents.map Ident.mention

theorem mentions_eq (d : Decision) :
    d.mentions = d.names.map Ident.mention ++ d.expressions.flatMap Expr.mentions := by
  rw [mentions, idents, List.map_append, Expr.map_mention_flatMap]

end Decision

/-- The words that open the clauses of a search. -/
def Kind.OpensClause (kind : Kind) : Prop := kind = .keyword .USING ∨ kind = .keyword .BY

/-- A clause of a search is replaced by a later one that stands in front of the position, and a
    token of the earlier one has a given span. -/
def Decision.Replaces (d : Decision) (tokens : List Token) (span : Span) : Prop :=
  ∃ needle haystack delimiter order position, d = .locate needle haystack delimiter order position ∧
    ∃ first name second last : Token, [first, name, second, last].Sublist tokens ∧
      first.kind.OpensClause ∧ second.kind = first.kind ∧ name.span = span ∧
      last.span ∈ position.idents.map Ident.span

namespace Mentions

open Parse

variable {s : State} {js ks : List Mention} {m k : Stretch}

attribute [local simp] Decision.mentions_eq Decision.names Decision.expressions

/-! ## 1. Parts -/

theorem reads_fileAndKey : Reads fileAndKey fun found => found.1.mentions ++ found.2.mentions := by
  intro s
  refine (reads_expression s).bind fun file u1 => ?_
  refine (tries_expect _ lasting_covers).dropped.bind fun _ u2 => ?_
  exact reads_expression.covers.bind fun key _ => Tries.pure fun _ h => h

theorem reads_columnIf (wanted : Bool) :
    Reads (columnIf wanted) fun e => e.toList.flatMap Expr.mentions := by
  intro s
  unfold columnIf
  split
  · refine (tries_expect _ lasting_covers).dropped.bind fun _ u1 => ?_
    exact (reads_expression u1).bind fun e _ => Tries.pure fun m h => by simpa using h
  · exact Tries.pure fun _ h => h

/-! ## 2. Decisions but searches -/

theorem reads_readDecision (form : ReadForm) : Reads (readDecision form) Decision.mentions := by
  intro s
  refine (reads_target s).bind fun left u1 => ?_
  refine (tries_expect _ lasting_covers).dropped.bind fun _ u2 => ?_
  refine reads_fileAndKey.covers.bind fun found u3 => ?_
  obtain ⟨file, key⟩ := found
  refine (reads_columnIf _).covers.bind fun column _ => Tries.pure fun m h => ?_
  simpa using h

theorem reads_matReadDecision : Reads matReadDecision Decision.mentions := by
  intro s
  refine (reads_variableIdent .assignment s).bind fun name u1 => ?_
  refine (tries_expect _ lasting_covers).dropped.bind fun _ u2 => ?_
  refine reads_fileAndKey.covers.bind fun found u3 => ?_
  obtain ⟨file, key⟩ := found
  exact Tries.pure fun m h => by simpa using h

theorem reads_readNextDecision : Reads readNextDecision Decision.mentions := by
  intro s
  refine (reads_target s).bind fun left u1 => ?_
  refine (reads_expressionAfter? .USING).covers.bind fun cursor _ => Tries.pure fun m h => ?_
  simpa using h

theorem reads_writeDecision (form : WriteForm) : Reads (writeDecision form) Decision.mentions := by
  intro s
  refine (reads_expression s).bind fun value u1 => ?_
  refine (tries_expectOnOrTo lasting_covers).bind fun _ u2 => ?_
  refine reads_fileAndKey.covers.bind fun found u3 => ?_
  obtain ⟨file, key⟩ := found
  refine (reads_columnIf _).covers.bind fun column _ => Tries.pure fun m h => ?_
  simpa using h

theorem reads_matWriteDecision : Reads matWriteDecision Decision.mentions := by
  intro s
  refine (reads_variableIdent .reference s).bind fun name u1 => ?_
  refine (tries_expectOnOrTo lasting_covers).bind fun _ u2 => ?_
  refine reads_fileAndKey.covers.bind fun found u3 => ?_
  obtain ⟨file, key⟩ := found
  exact Tries.pure fun m h => by simpa using h

theorem reads_openDecision : Reads openDecision Decision.mentions := by
  intro s
  refine (reads_expression s).bind fun first u1 => ?_
  refine Tries.after (does_consume _ lasting_covers) fun both u2 => ?_
  dsimp only
  split
  · have hsecond : Tries u2 (Covers first.mentions) (some <$> expression)
        fun second => Covers (first.mentions ++ second.toList.flatMap Expr.mentions) :=
      Tries.map (reads_expression.covers.mono fun e m h => by simpa using h)
    refine hsecond.bind fun second u3 => ?_
    refine (tries_expect _ lasting_covers).dropped.bind fun _ u4 => ?_
    refine reads_target.covers.bind fun handle u5 => ?_
    cases second with
    | some table => exact Tries.pure fun m h => by simpa using h
    | none => exact Tries.pure fun m h => by simpa using h
  · refine Tries.given ?_
    refine (tries_expect _ lasting_covers).dropped.bind fun _ u4 => ?_
    refine reads_target.covers.bind fun handle u5 => ?_
    exact Tries.pure fun m h => by simpa using h

theorem reads_osReadDecision : Reads osReadDecision Decision.mentions := by
  intro s
  refine (reads_target s).bind fun left u1 => ?_
  refine (tries_expect _ lasting_covers).dropped.bind fun _ u2 => ?_
  exact reads_expression.covers.bind fun path _ => Tries.pure fun m h => by simpa using h

theorem reads_osOpenDecision : Reads osOpenDecision Decision.mentions := by
  intro s
  refine (reads_expression s).bind fun path u1 => ?_
  refine (tries_expect _ lasting_covers).dropped.bind fun _ u2 => ?_
  exact reads_target.covers.bind fun handle _ => Tries.pure fun m h => by simpa using h

/-! ## 3. Searches -/

/-- A token stands in a clause of a search behind which another clause is opened by the same word.
    -/
def Superseded (tokens : List Token) (span : Span) : Prop :=
  ∃ first name second : Token, [first, name, second].Sublist tokens ∧
    first.kind.OpensClause ∧ second.kind = first.kind ∧ name.span = span

/-- Whatever is noted is among given mentions, or in a clause that a later one supersedes. -/
def Keeps (js : List Mention) (m : Stretch) : Prop :=
  m.Clean → ∀ x ∈ m.noted, x ∈ js ∨ Superseded m.read x.span

theorem Superseded.before {tokens : List Token} {span : Span} (h : Superseded tokens span)
    (more : List Token) : Superseded (tokens ++ more) span := by
  obtain ⟨first, name, second, hsub, hrest⟩ := h
  exact ⟨first, name, second, hsub.trans (List.sublist_append_left _ _), hrest⟩

theorem Covers.keeps (h : Covers js m) : Keeps js m :=
  fun hclean x hx => Or.inl ((h hclean).1 x hx)

theorem Keeps.append (h : Keeps js m) (g : Keeps ks k) : Keeps (js ++ ks) (m ++ k) := by
  intro hclean
  refine List.forall_mem_append.mpr ⟨fun x hx => ?_, fun x hx => ?_⟩
  · rcases h hclean.left x hx with hin | hlost
    · exact Or.inl (List.mem_append_left _ hin)
    · exact Or.inr (hlost.before k.read)
  · rcases g hclean.right x hx with hin | ⟨first, name, second, hsub, hrest⟩
    · exact Or.inl (List.mem_append_right _ hin)
    · exact Or.inr ⟨first, name, second, hsub.trans (List.sublist_append_right _ _), hrest⟩

theorem lasting_keeps : Lasting (Keeps js) := by
  intro m k hk hm
  have hnothing : Keeps [] k := fun _ => by
    rw [hk]
    exact List.forall_mem_nil _
  have hall := hm.append hnothing
  rwa [List.append_nil] at hall

/-- The names of a clause stand behind the word that opens it. -/
def Opens (word : Keyword) (clause : Option Expr) (tokens : List Token) : Prop :=
  ∀ x ∈ clause.toList.flatMap Expr.mentions, ∃ first name : Token, [first, name].Sublist tokens ∧
    first.kind = .keyword word ∧ name.span = x.span

/-- The clauses that have been read so far. -/
structure Searches (found : Option Expr × Option Expr) (m : Stretch) : Prop where
  noted : Keeps (found.1.toList.flatMap Expr.mentions ++ found.2.toList.flatMap Expr.mentions) m
  delimiter : m.Clean → Opens .USING found.1 m.read
  order : m.Clean → Opens .BY found.2 m.read

namespace Opens

variable {word : Keyword} {clause : Option Expr} {tokens : List Token}

theorem before (h : Opens word clause tokens) (more : List Token) :
    Opens word clause (tokens ++ more) := by
  intro x hx
  obtain ⟨first, name, hsub, hrest⟩ := h x hx
  exact ⟨first, name, hsub.trans (List.sublist_append_left _ _), hrest⟩

/-- A clause that has just been read. -/
theorem read {e : Expr} {t : Token} (ht : t.kind = .keyword word) (hk : Covers e.mentions k)
    (hclean : k.Clean) (tokens : List Token) :
    Opens word (some e) (tokens ++ [t] ++ k.read) := by
  intro x hx
  obtain ⟨name, hname, hspan⟩ := (hk hclean).2 x (by simpa using hx)
  refine ⟨t, name, ?_, ht, hspan⟩
  have hpair : [t, name].Sublist ([t] ++ k.read) :=
    List.Sublist.cons_cons t (List.singleton_sublist.mpr hname)
  rw [List.append_assoc]
  exact hpair.trans (List.sublist_append_right _ _)

/-- Behind the same word again the names of a clause are superseded. -/
theorem superseded (h : Opens word clause tokens) (hword : (Kind.keyword word).OpensClause)
    {t : Token} (ht : t.kind = .keyword word) {x : Mention}
    (hx : x ∈ clause.toList.flatMap Expr.mentions) : Superseded (tokens ++ [t]) x.span := by
  obtain ⟨first, name, hsub, hfirst, hspan⟩ := h x hx
  refine ⟨first, name, t, hsub.append (List.Sublist.refl [t]), ?_, ?_, hspan⟩
  · rwa [hfirst]
  · rw [hfirst, ht]

end Opens

/-- Another clause is read, in place of an earlier one of the same kind. -/
theorem Keeps.replace {word : Keyword} {clause : Option Expr} {e : Expr} {t : Token}
    (hword : (Kind.keyword word).OpensClause)
    (h : Keeps (clause.toList.flatMap Expr.mentions ++ js) m)
    (hopens : m.Clean → Opens word clause m.read) (ht : t.kind = .keyword word)
    (hk : Covers e.mentions k) : Keeps (e.mentions ++ js) (m ++ .reading t ++ k) := by
  have hread : Keeps js (m ++ .reading t) := by
    intro hclean x hx
    have hclean' : m.Clean := hclean.left
    rw [Stretch.noted_append, Stretch.noted_reading, List.append_nil] at hx
    rcases h hclean' x hx with hin | hlost
    · rcases List.mem_append.mp hin with hold | hin
      · exact Or.inr ((hopens hclean').superseded hword ht hold)
      · exact Or.inl hin
    · exact Or.inr (hlost.before [t])
  have hall := hread.append hk.keeps
  intro hclean x hx
  refine (hall hclean x hx).imp_left fun hin => ?_
  exact List.mem_append.mpr (List.mem_append.mp hin).symm

namespace Searches

variable {delimiter order : Option Expr} {e : Expr} {t : Token}

theorem nothing : Searches (none, none) ∅ :=
  ⟨fun _ => List.forall_mem_nil _, fun _ => List.forall_mem_nil _, fun _ => List.forall_mem_nil _⟩

theorem readDelimiter (h : Searches (delimiter, order) m) (ht : t.kind = .keyword .USING)
    (hk : Covers e.mentions k) : Searches (some e, order) (m ++ .reading t ++ k) where
  noted := by
    have hall := h.noted.replace (Or.inl rfl) h.delimiter ht hk
    simpa using hall
  delimiter hclean := Opens.read ht hk hclean.right m.read
  order hclean := by
    have horder := (h.order hclean.left.left).before ([t] ++ k.read)
    rwa [← List.append_assoc] at horder

theorem readOrder (h : Searches (delimiter, order) m) (ht : t.kind = .keyword .BY)
    (hk : Covers e.mentions k) : Searches (delimiter, some e) (m ++ .reading t ++ k) where
  noted := by
    have hswap : Keeps
        (order.toList.flatMap Expr.mentions ++ delimiter.toList.flatMap Expr.mentions) m :=
      fun hclean x hx => (h.noted hclean x hx).imp_left fun hin =>
        List.mem_append.mpr (List.mem_append.mp hin).symm
    have hall := hswap.replace (Or.inr rfl) h.order ht hk
    intro hclean x hx
    refine (hall hclean x hx).imp_left fun hin => ?_
    simpa [or_comm] using hin
  delimiter hclean := by
    have hdelimiter := (h.delimiter hclean.left.left).before ([t] ++ k.read)
    rwa [← List.append_assoc] at hdelimiter
  order hclean := Opens.read ht hk hclean.right m.read

end Searches

/-- Another clause is read behind its word. -/
theorem tries_clause {word : Keyword} {found : Option Expr × Option Expr}
    {next : Expr → Option Expr × Option Expr}
    (hnext : ∀ e t m k, Searches found m → t.kind = .keyword word → Covers e.mentions k →
      Searches (next e) (m ++ .reading t ++ k)) :
    Tries s (fun m' => ∃ m t, m' = m ++ .reading t ∧ t.kind = .keyword word ∧ Searches found m)
      expression fun e => Searches (next e) := by
  refine (reads_expression s).frame .nothing ?_
  rintro e _ k ⟨m, t, rfl, ht, hfound⟩ hk
  exact hnext e t m k hfound ht hk

/-- **The clauses of a search** lose no more than what later ones supersede. -/
theorem tries_searchOptions : Tries s (Searches (none, none)) searchOptions Searches := by
  refine Tries.tryLoop (J := Searches) fun found u1 => ?_
  obtain ⟨delimiter, order⟩ := found
  have hconsume (word : Keyword) (u : State) : Does u (Searches (delimiter, order))
      (consume (.keyword word)) fun seen m' => if seen then
        ∃ m t, m' = m ++ .reading t ∧ t.kind = .keyword word ∧ Searches (delimiter, order) m
      else Searches (delimiter, order) m' :=
    does_consume_word (Kind.isWord_keyword word)
      (fun t m ht hm => ⟨m, t, rfl, ht, hm⟩) fun m hm => hm
  refine Tries.after (hconsume .USING u1) fun seen u2 => ?_
  cases seen with
  | true =>
    exact (tries_clause fun e t m k hm ht hk => hm.readDelimiter ht hk).bind fun e _ =>
      Tries.pure fun _ h => h
  | false =>
    refine Tries.after (hconsume .BY u2) fun seen u3 => ?_
    cases seen with
    | true =>
      exact (tries_clause fun e t m k hm ht hk => hm.readOrder ht hk).bind fun e _ =>
        Tries.pure fun _ h => h
    | false => exact Tries.pure fun _ h => h

/-- Whatever is noted for a decision behind a word is named in it, or the word opens a search and it
    is in a clause that is replaced. -/
def Settles (word : Keyword) (d : Decision) (m : Stretch) : Prop :=
  m.Clean → ∀ x ∈ m.noted, x ∈ d.mentions ∨ word = .LOCATE ∧ d.Replaces m.read x.span

/-- **A search** names what is noted while it is read, but for clauses that are replaced. -/
theorem tries_locateDecision : Tries s (Covers []) locateDecision (Settles .LOCATE) := by
  refine (reads_expression s).bind fun needle u1 => ?_
  refine (tries_expect _ lasting_covers).dropped.bind fun _ u2 => ?_
  refine reads_expression.covers.bind fun haystack u3 => ?_
  refine Tries.bind (Q := fun (found : Option Expr × Option Expr) =>
      Keeps (needle.mentions ++ haystack.mentions ++
        (found.1.toList.flatMap Expr.mentions ++ found.2.toList.flatMap Expr.mentions)))
    (tries_searchOptions.frame .nothing fun found m k hm hk => hm.keeps.append hk.noted)
    fun found u4 => ?_
  obtain ⟨delimiter, order⟩ := found
  refine (tries_expect _ lasting_keeps).dropped.bind fun _ u5 => ?_
  refine Tries.bind
    (Q := fun position => Settles .LOCATE (.locate needle haystack delimiter order position))
    (tries_target.frame .nothing ?_) fun position _ => Tries.pure fun _ h => h
  rintro position m k hm ⟨hk, hne⟩ hclean x hx
  have hmentions : (Decision.locate needle haystack delimiter order position).mentions =
      needle.mentions ++ haystack.mentions ++
        (delimiter.toList.flatMap Expr.mentions ++ order.toList.flatMap Expr.mentions) ++
          position.mentions := by
    simp
  rw [hmentions]
  obtain ⟨hcovered, hstand⟩ := hk hclean.right
  -- what is noted stands in front of the position, where a clause may be replaced, or in the position
  rcases List.mem_append.mp hx with hx | hx
  · rcases hm hclean.left x hx with hin | ⟨first, name, second, hsub, hfirst, hsecond, hname⟩
    · exact Or.inl (List.mem_append_left _ hin)
    · -- the position names something, and it is read behind the clauses
      obtain ⟨y, hy⟩ := List.exists_mem_of_ne_nil _ hne
      obtain ⟨i, hi, rfl⟩ := List.mem_map.mp hy
      obtain ⟨last, hlast, hspan⟩ := hstand _ hy
      refine Or.inr ⟨rfl, needle, haystack, delimiter, order, position, rfl, first, name, second,
        last, ?_, hfirst, hsecond, hname, List.mem_map.mpr ⟨i, hi, hspan.symm⟩⟩
      exact hsub.append (List.singleton_sublist.mpr hlast)
  · exact Or.inl (List.mem_append_right _ (hcovered x hx))

/-! ## 4. The keywords of decisions -/

/-- A decision that names whatever is noted for it. -/
theorem Reads.settles {word : Keyword} {p : Parser Decision} (hp : Reads p Decision.mentions) :
    Tries s (Covers []) p (Settles word) :=
  (hp s).mono fun _ _ h hclean x hx => Or.inl ((h hclean).1 x hx)

theorem reads_pair {f : Expr × Expr → Decision}
    (hf : ∀ file key, (f (file, key)).mentions = file.mentions ++ key.mentions) :
    Reads (f <$> fileAndKey) Decision.mentions :=
  fun s => Tries.map ((reads_fileAndKey s).mono fun found m h => by rwa [hf])

/-- **Every decision behind its keyword** names what is noted while it is read, but for the clauses
    of searches that are replaced. -/
theorem settles_decisionAfter? {word : Keyword} {p : Parser Decision}
    (hp : decisionAfter? word = some p) : Tries s (Covers []) p (Settles word) := by
  have hcondition : Reads (Decision.condition <$> expression) Decision.mentions :=
    fun s => Tries.map ((reads_expression s).mono fun e m h => by simpa using h)
  unfold decisionAfter? at hp
  split at hp <;> cases hp
  · exact hcondition.settles
  · exact (reads_readDecision .read).settles
  · exact (reads_readDecision .readU).settles
  · exact (reads_readDecision .readO).settles
  · exact (reads_readDecision .readV).settles
  · exact reads_matReadDecision.settles
  · exact reads_readNextDecision.settles
  · exact (reads_writeDecision .write).settles
  · exact (reads_writeDecision .writeU).settles
  · exact (reads_writeDecision .writeV).settles
  · exact reads_matWriteDecision.settles
  · exact reads_openDecision.settles
  · exact (reads_pair fun file key => by simp).settles
  · exact (reads_pair fun file key => by simp).settles
  · exact (reads_pair fun file key => by simp).settles
  · exact tries_locateDecision
  · exact reads_osReadDecision.settles
  · exact reads_osOpenDecision.settles

end Mentions

end BasicCheck
