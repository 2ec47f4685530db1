import BasicCheck.Proofs.Mention.Stretch
import BasicCheck.Proofs.Parse.Expression

/-!
# The mentions of expressions

Whatever is noted while an expression is read is named in it (**`reads_expression`**). An attempt at
an index list that is taken back comes to nothing (`since_takeBack`), whatever it has noted.
-/

namespace BasicCheck

@[simp] theorem Ident.mention_mk (t : Token) (role : Role) :
    Ident.mention ⟨t.text, role, t.span⟩ = t.mention := rfl

namespace Expr

/-- The mentions of the identifiers of an expression. -/
def mentions (e : Expr) : List Mention := e.idents.map Ident.mention

theorem map_mention_flatMap (es : List Expr) :
    (es.flatMap idents).map Ident.mention = es.flatMap mentions := List.map_flatMap

theorem map_mention_identsOfAll (es : List Expr) :
    (identsOfAll es).map Ident.mention = es.flatMap mentions := by
  rw [identsOfAll_eq_flatMap, map_mention_flatMap]

@[simp] theorem mentions_variable (ident : Ident) :
    (Expr.variable ident).mentions = [ident.mention] := rfl

@[simp] theorem mentions_number (text : String) (span : Span) :
    (number text span).mentions = [] := rfl

@[simp] theorem mentions_string (value : String) (span : Span) :
    (string value span).mentions = [] := rfl

@[simp] theorem mentions_binary (op : BinOp) (left right : Expr) (span : Span) :
    (binary op left right span).mentions = left.mentions ++ right.mentions := List.map_append

@[simp] theorem mentions_negate (inner : Expr) (span : Span) :
    (negate inner span).mentions = inner.mentions := rfl

@[simp] theorem mentions_arrayIndex (base : Expr) (indexes : List Expr) (span : Span) :
    (arrayIndex base indexes span).mentions = base.mentions ++ indexes.flatMap mentions := by
  rw [← map_mention_identsOfAll]
  exact List.map_append

@[simp] theorem mentions_substring (base : Expr) (indexes : List Expr) (span : Span) :
    (substring base indexes span).mentions = base.mentions ++ indexes.flatMap mentions := by
  rw [← map_mention_identsOfAll]
  exact List.map_append

@[simp] theorem mentions_matrixIndex (name : Ident) (row : Expr) (col : Option Expr) (span : Span) :
    (matrixIndex name row col span).mentions =
      name.mention :: (row.mentions ++ col.toList.flatMap mentions) := by
  cases col with
  | none => simp [mentions, idents]
  | some col => simp [mentions, idents]

@[simp] theorem mentions_call (name : Ident) (args : List Expr) (span : Span) :
    (call name args span).mentions = name.mention :: args.flatMap mentions := by
  rw [← map_mention_identsOfAll]
  rfl

@[simp] theorem mentions_conditional (cond thenValue elseValue : Expr) (span : Span) :
    (conditional cond thenValue elseValue span).mentions =
      cond.mentions ++ thenValue.mentions ++ elseValue.mentions := by
  simp [mentions, idents]

@[simp] theorem mentions_property (object : Expr) (member : Ident) (span : Span) :
    (property object member span).mentions = object.mentions ++ [member.mention] := List.map_append

@[simp] theorem mentions_method (object : Expr) (member : Ident) (args : List Expr) (span : Span) :
    (method object member args span).mentions =
      object.mentions ++ member.mention :: args.flatMap mentions := by
  rw [← map_mention_identsOfAll]
  exact List.map_append

/-- Another role for the base identifier leaves all mentions as they are. -/
theorem mentions_setBaseRole (role : Role) (e : Expr) :
    (e.setBaseRole role).mentions = e.mentions := by
  have hrole (i : Ident) : Ident.mention { i with role } = i.mention := rfl
  fun_induction setBaseRole role e <;> simp_all

end Expr

namespace Mentions

open Parse

variable {s u : State} {I : Stretch → Prop} {js : List Mention} {k : Stretch}

/-! ## 1. The levels of binary operators -/

theorem tries_takeOperator (hI : Lasting I) : Tries s I takeOperator fun _ => I := by
  refine Tries.after (does_advance hI) fun token u1 => ?_
  split
  · exact Tries.pure fun _ h => h
  · exact Tries.throw rfl

theorem reads_chain {operand : Parser Expr} (ho : Reads operand Expr.mentions)
    (isOperator : Kind → Bool) : Reads (chain operand isOperator) Expr.mentions := by
  intro s
  refine (ho s).bind fun first u1 => ?_
  refine Tries.tryLoop (J := fun e : Expr => Covers e.mentions) fun left u2 => ?_
  refine Tries.look (currentKind_eq u2) ?_
  split
  · refine (tries_takeOperator lasting_covers).bind fun op u3 => ?_
    refine ho.covers.bind fun right u4 => Tries.pure fun m h => ?_
    simpa [binaryOf] using h
  · exact Tries.pure fun _ h => h

section Levels

variable {primary : Parser Expr} (hp : Reads primary Expr.mentions)

include hp

theorem reads_concatenations : Reads (concatenations primary) Expr.mentions :=
  reads_chain (reads_chain (reads_chain (reads_chain hp _) _) _) _

theorem reads_expressionOver : Reads (expressionOver primary) Expr.mentions :=
  reads_chain (reads_chain (reads_concatenations hp) _) _

/-! ## 2. Lists of expressions -/

theorem reads_argumentsOver :
    Reads (argumentsOver primary) fun args => args.flatMap Expr.mentions := by
  intro s
  refine (tries_expect .leftParen lasting_covers).dropped.bind fun _ u1 => ?_
  refine Tries.look (sees_eq u1 .rightParen) ?_
  dsimp only
  split
  · refine Tries.given ?_
    exact (tries_expect .rightParen lasting_covers).dropped.bind fun _ _ => Tries.pure fun _ h => h
  · refine (reads_commaList (reads_expressionOver hp) u1).bind fun args u2 => ?_
    exact (tries_expect .rightParen lasting_covers).dropped.bind fun _ _ => Tries.pure fun _ h => h

/-- Indexes beyond the second one are dropped, but this is an error. -/
theorem reads_rowAndColumn (start : Span) : Reads (rowAndColumn primary start) fun found =>
    found.1.mentions ++ found.2.toList.flatMap Expr.mentions := by
  intro s
  refine (reads_argumentsOver hp s).bind fun args u1 => ?_
  cases args with
  | nil => exact Tries.get (Tries.throw rfl)
  | cons row cols =>
    dsimp only
    split
    · refine Tries.look (spanFrom_eq u1 start) ?_
      refine Tries.after (does_reportError rfl _ (Q := fun _ m => ¬ m.Clean) fun _ h => h)
        fun _ u2 => Tries.pure fun _ h => .of_not_clean h
    · rename_i hfew
      have hcols : cols.head?.toList = cols := by
        match cols with
        | [] => rfl
        | [col] => rfl
        | _ :: _ :: _ => simp at hfew
      refine Tries.pure fun m h => ?_
      rwa [hcols]

/-! ## 3. Index lists -/

omit hp in
theorem does_splitGreaterEqual (hI : Lasting I) : Does s I splitGreaterEqual fun _ => I := by
  refine Does.lasts (fun heof => ?_) hI
  rcases splitGreaterEqual_cases s with ⟨hk, hsplit⟩ | hsame
  · have hword : s.current.kind.IsWord := hk.1 ▸ Kind.isWord_greaterEqual
    rw [hsplit]
    exact ⟨.reading s.current, ⟨rfl, (State.rest_of_isWord heof hword).2, by simp, by simp⟩,
      fun m hm => lasting_silent m _ rfl hm⟩
  · rw [hsame]
    exact ⟨∅, Since.refl s, fun m hm => lasting_silent m _ rfl hm⟩

omit hp in
theorem does_closeAngle (hI : Lasting I) : Does s I closeAngle fun _ => I := by
  refine (does_consume .greater hI).bind fun closed u1 => ?_
  split
  · exact Does.pure fun _ h => h
  · exact does_splitGreaterEqual hI

/-- What is noted for indexes that are closed is named in them. -/
theorem does_closedIndexes? : Does s (Covers []) (closedIndexes? primary) fun found m =>
    ∀ indexes, found = some indexes → Covers (indexes.flatMap Expr.mentions) m := by
  refine (does_advance lasting_covers).dropped.bind fun _ u1 => ?_
  refine Does.bind (reads_commaList (reads_concatenations hp) u1) fun items u2 => ?_
  cases items with
  | error fault => exact Does.pure fun _ _ => nofun
  | ok indexes =>
    refine (does_closeAngle lasting_covers).bind fun closed u3 => ?_
    split
    · refine Does.pure fun m h found hfound => ?_
      cases hfound
      exact h
    · exact Does.pure fun _ _ => nofun

omit hp in
/-- **An attempt that is taken back comes to nothing.** -/
theorem since_takeBack (h : Since s k u) : Since s ∅ (u.takeBack s.snapshot s.toReading) where
  eof := h.eof
  tokens := rfl
  noted := by
    have hlength : s.symbols.mentions.length = s.symbols.references.size := by
      simp [SymbolTable.mentions]
    have hback : (u.symbols.rollback s.symbols.checkpoint).mentions =
        u.symbols.mentions.take s.symbols.references.size := by
      simp [SymbolTable.mentions, SymbolTable.rollback, SymbolTable.checkpoint, List.map_take]
    show (u.symbols.rollback s.symbols.checkpoint).mentions = _
    rw [hback, h.noted, ← hlength, List.take_left]
    exact (List.append_nil _).symm
  faults := by
    have hback : (u.diagnostics.take s.diagnostics.size).toList =
        u.diagnostics.toList.take s.diagnostics.size := by
      simp
    show (u.diagnostics.take s.diagnostics.size).toList = _
    rw [hback, h.faults, ← Array.length_toList, List.take_left]
    exact (List.append_nil _).symm

/-- What is noted for an index list is named in it; if it is not closed, nothing is. -/
theorem does_angleIndexes? (base : Expr) : Does s (Covers []) (angleIndexes? primary base)
    fun found => Covers ((found.getD []).flatMap Expr.mentions) := by
  refine Does.look (p := MonadState.get) rfl fun heof => ?_
  obtain ⟨k, hk, hclosed⟩ := does_closedIndexes? hp heof
  rcases hr : closedIndexes? primary s with ⟨found, u⟩
  rw [hr] at hk hclosed
  dsimp only at hk hclosed ⊢
  rw [step_bind hr]
  cases found with
  | none =>
    refine ⟨∅, since_takeBack hk, fun m hm => ?_⟩
    rwa [Stretch.append_empty]
  | some indexes =>
    have hend : Does u (Covers (indexes.flatMap Expr.mentions)) (do
        if indexes.length > 3 then report (.tooManyIndexes "array" 3) (← spanFrom base.span)
        return some indexes) fun found => Covers ((found.getD []).flatMap Expr.mentions) := by
      dsimp only
      split
      · refine Does.look (spanFrom_eq u base.span) ?_
        exact (does_report _ _ lasting_covers).bind fun _ _ => Does.pure fun _ h => h
      · exact Does.pure fun _ h => h
    obtain ⟨l, hl, hcovers⟩ := hend (by rwa [hk.eof])
    refine ⟨k ++ l, hk.append hl, fun m hm => ?_⟩
    rw [← Stretch.append_assoc]
    exact hcovers _ (hclosed m hm indexes rfl)

/-! ## 4. Operands -/

theorem tries_substringOf (base : Expr) :
    Tries s (Covers base.mentions) (substringOf primary base) fun e => Covers e.mentions := by
  refine (Tries.step (does_advance lasting_covers)).dropped.bind fun _ u1 => ?_
  refine (reads_commaList (reads_expressionOver hp)).covers.bind fun indexes u2 => ?_
  refine (tries_expect .rightBracket lasting_covers).dropped.bind fun _ u3 => ?_
  refine Tries.look (spanFrom_eq u3 base.span) ?_
  dsimp only
  split
  · refine Tries.after (does_report _ _ lasting_covers) fun _ _ => Tries.pure fun m h => ?_
    rwa [Expr.mentions_substring]
  · refine Tries.pure fun m h => ?_
    rwa [Expr.mentions_substring]

theorem tries_memberOf (object : Expr) :
    Tries s (Covers object.mentions) (memberOf primary object) fun e => Covers e.mentions := by
  refine (Tries.step (does_advance lasting_covers)).dropped.bind fun _ u1 => ?_
  refine Tries.after does_next fun token u2 => ?_
  dsimp only
  split
  · rename_i hkind
    have hword := (Kind.isName_of_mayNameMember hkind).isWord
    refine Tries.pre (J := Covers (object.mentions ++ [token.mention])) ?_ fun m h => h hword
    refine Tries.look (sees_eq u2 .leftParen) ?_
    split
    · refine (reads_argumentsOver hp).covers.bind fun args u3 => ?_
      refine Tries.look (spanFrom_eq u3 object.span) (Tries.pure fun m h => ?_)
      simpa using h
    · refine Tries.look (spanFrom_eq u2 object.span) (Tries.pure fun m h => ?_)
      simpa using h
  · exact Tries.fails (p := throw _) rfl rfl

theorem tries_suffixes (base : Expr) :
    Tries s (Covers base.mentions) (suffixes primary base) fun e => Covers e.mentions := by
  refine Tries.tryLoop (J := fun e : Expr => Covers e.mentions) fun e u1 => ?_
  refine Tries.look (currentKind_eq u1) ?_
  split
  · split
    · refine Tries.after (Does.covers (does_angleIndexes? hp e)) fun found u2 => ?_
      cases found with
      | none => exact Tries.pure fun m h => by simpa using h
      | some indexes =>
        refine Tries.look (spanFrom_eq u2 e.span) (Tries.pure fun m h => ?_)
        simpa using h
    · exact Tries.pure fun _ h => h
  · exact (tries_substringOf hp e).bind fun _ _ => Tries.pure fun _ h => h
  · exact (tries_memberOf hp e).bind fun _ _ => Tries.pure fun _ h => h
  · exact Tries.pure fun _ h => h

theorem tries_callOf {name : Ident} :
    Tries s (Covers [name.mention]) (callOf primary name) fun e => Covers e.mentions := by
  refine (reads_argumentsOver hp).covers.bind fun args u1 => ?_
  refine Tries.look (spanFrom_eq u1 name.span) (Tries.pure fun m h => ?_)
  simpa using h

/-- A name, which comes next. -/
theorem tries_named (hk : s.current.kind = .ident) :
    Tries s (Covers []) (named primary) fun e => Covers e.mentions := by
  have hword : s.current.kind.IsWord := by
    rw [hk]
    decide
  refine Tries.after ((does_mention hword).mono fun _ _ h => h.2) fun token u1 => ?_
  rw [List.nil_append]
  have hmem : token.mention ∈ [token.mention] := List.mem_singleton_self _
  refine Tries.look (sees_eq u1 .leftParen) ?_
  split
  · refine Tries.get ?_
    split
    · refine Tries.after (does_noteVariable hmem) fun _ u2 => ?_
      refine (reads_rowAndColumn hp token.span).covers.bind fun found u3 => ?_
      obtain ⟨row, col⟩ := found
      refine Tries.look (spanFrom_eq u3 token.span) (Tries.pure fun m h => ?_)
      simpa using h
    · refine Tries.after (does_noteIfKnown .function hmem) fun known u2 => ?_
      dsimp only
      split
      · exact Tries.after (does_report _ _ lasting_covers) fun _ u3 => tries_callOf hp
      · exact tries_callOf hp
  · refine Tries.after (does_noteIfKnown .equate hmem) fun known u2 => ?_
    dsimp only
    split
    · exact Tries.pure fun _ h => h
    · exact Tries.after (does_noteVariable hmem) fun _ _ => Tries.pure fun _ h => h

theorem tries_conditional :
    Tries s (Covers []) (conditional primary) fun e => Covers e.mentions := by
  have hp' := reads_expressionOver hp
  refine Tries.after (does_advance lasting_covers) fun start u1 => ?_
  refine (hp' u1).bind fun cond u2 => ?_
  refine (tries_expect (.keyword .THEN) lasting_covers).dropped.bind fun _ u3 => ?_
  refine hp'.covers.bind fun thenValue u4 => ?_
  refine (tries_expect (.keyword .ELSE) lasting_covers).dropped.bind fun _ u5 => ?_
  refine hp'.covers.bind fun elseValue u6 => ?_
  refine Tries.look (spanFrom_eq u6 start.span) (Tries.pure fun m h => ?_)
  rwa [Expr.mentions_conditional]

/-- An operand that opens with a keyword, which comes next. -/
theorem tries_keywordOperand {word : Keyword} (hk : s.current.kind = .keyword word) :
    Tries s (Covers []) (keywordOperand primary word) fun e => Covers e.mentions := by
  have hword : s.current.kind.IsWord := by
    rw [hk]
    exact Kind.isWord_keyword word
  have hread : Tries s (Covers []) (discard (liftM advance : Parser Token))
      fun _ => Covers [s.current.mention] := by
    refine Tries.dropped (Tries.step ((does_mention hword).mono ?_))
    rintro t m ⟨rfl, hm⟩
    exact hm
  have hmem : s.current.mention ∈ [s.current.mention] := List.mem_singleton_self _
  refine Tries.look (current_eq s) (Tries.look (looks_seesFunctionKeyword s) ?_)
  split
  · refine hread.bind fun _ u1 => ?_
    refine (Tries.step (does_noteIfKnown .function hmem)).dropped.bind fun _ u2 => ?_
    exact tries_callOf hp
  · split
    · exact tries_conditional hp
    · split
      · refine hread.bind fun _ u1 => ?_
        exact Tries.after (does_noteVariable hmem) fun _ _ => Tries.pure fun _ h => h
      · exact tries_failHere rfl

/-- **One layer of operands** names what it notes if the operands within it do. -/
theorem reads_primaryLayer : Reads (primaryLayer primary) Expr.mentions := by
  intro s
  have hskip (u : State) : Tries u (Covers []) (discard (liftM advance : Parser Token))
      fun _ => Covers [] := (Tries.step (does_advance lasting_covers)).dropped
  have hliteral {literal : Expr} (hl : literal.mentions = []) : Tries s (Covers []) (do
      discard (liftM advance : Parser Token)
      suffixes primary literal) fun e => Covers e.mentions := by
    refine (hskip s).bind fun _ u1 => ?_
    rw [← hl]
    exact tries_suffixes hp literal
  have hread (hword : s.current.kind.IsWord) (name : String) :
      Tries s (Covers []) (discard (liftM advance : Parser Token))
        fun _ => Covers [⟨s.current.span, name⟩] :=
    Tries.dropped (Tries.step (does_word hword fun _ hm => hm.read s.current name))
  refine Tries.look (current_eq s) ?_
  split
  · exact hliteral rfl
  · exact hliteral rfl
  · exact hliteral rfl
  · refine (hskip s).bind fun _ u1 => (reads_expressionOver hp u1).bind fun inner u2 => ?_
    refine (tries_expect .rightParen lasting_covers).dropped.bind fun _ u3 => ?_
    exact tries_suffixes hp inner
  · exact (hskip s).bind fun _ u1 => (hp u1).bind fun inner _ => Tries.pure fun _ h => h
  · exact (hskip s).bind fun _ u1 => hp u1
  · rename_i hk
    have hword : s.current.kind.IsWord := by
      rw [hk]
      decide
    refine (hread hword (Text.fold "@")).bind fun _ u1 => Tries.look (sees_eq u1 .leftParen) ?_
    split
    · exact (tries_callOf hp).bind fun base _ => tries_suffixes hp base
    · exact tries_failHere rfl
  · rename_i hk
    have hword : s.current.kind.IsWord := by
      rw [hk]
      decide
    refine (hread hword s.current.folded).bind fun _ u1 => ?_
    refine Tries.after (does_noteVariable (t := s.current) (List.mem_singleton_self _))
      fun _ u2 => ?_
    exact tries_suffixes hp (.variable ⟨s.current.text, .reference, s.current.span⟩)
  · rename_i hk
    exact (tries_named hp hk).bind fun base _ => tries_suffixes hp base
  · rename_i hk
    exact (tries_keywordOperand hp hk).bind fun base _ => tries_suffixes hp base
  · exact Tries.throw rfl

end Levels

/-! ## 5. The grammar of expressions -/

/-- **An operand** names what is noted while it is read. -/
theorem reads_primary : Reads primary Expr.mentions := by
  intro s
  refine Tries.get ?_
  exact of_layers (Reads · Expr.mentions) primaryLayer (fun _ => Tries.throw rfl)
    (fun p hp => reads_primaryLayer hp) _ s

/-- **An expression** names what is noted while it is read. -/
theorem reads_expression : Reads expression Expr.mentions := reads_expressionOver reads_primary

theorem reads_arguments : Reads arguments fun args => args.flatMap Expr.mentions :=
  reads_argumentsOver reads_primary

/-- What can be assigned to names something. -/
theorem tries_target :
    Tries s (Covers []) target fun e m => Covers e.mentions m ∧ e.mentions ≠ [] := by
  refine Tries.look (current_eq s) ((reads_primary s).bind fun e u1 => ?_)
  split
  · rename_i hmember
    refine Tries.pure fun m h => ⟨h, ?_⟩
    cases e <;> simp [Expr.isMember] at hmember <;> simp
  · split
    · rename_i hbase
      obtain ⟨i, hi⟩ := Option.isSome_iff_exists.mp hbase
      have hmem : i.mention ∈ e.mentions := List.mem_map_of_mem (mem_idents_of_baseIdent? hi)
      refine Tries.pure fun m h => ?_
      rw [Expr.mentions_setBaseRole]
      exact ⟨h, List.ne_nil_of_mem hmem⟩
    · exact Tries.throw rfl

theorem reads_target : Reads target Expr.mentions := fun _ => tries_target.mono fun _ _ h => h.1

end Mentions

end BasicCheck
