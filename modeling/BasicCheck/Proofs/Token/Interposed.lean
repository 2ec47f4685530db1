import BasicCheck.Proofs.Token.Lossless

/-!
# Comments and continuations between tokens

Wherever blanks stand in front of a primary token, a block comment or a continuation may be put
behind them: the primary tokens and the faults of the text stay what they are, and those behind the
place move along (**`Lexed.interposed`**).

What was read in front of the place does not change, for no reader looks further than one blank
behind the lexeme that it finds (`Lexeme.read_append`). What is read behind it does not change either:
a comment leaves the context of the lexer as it was, whether a statement may start there or not, and
the blanks in front of it have been noticed already (`Piece.ofChars_interposed`).
-/

namespace BasicCheck

/-! ## 1. How far a reader looks -/

/-- A stretch of characters of one sort that ends within a text is that of every longer text. -/
theorem takeWhile_append_of_length_lt {p : Char → Bool} {text behind : List Char}
    (h : ((text ++ behind).takeWhile p).length < text.length) (behind' : List Char) :
    (text ++ behind').takeWhile p = text.takeWhile p := by
  have hshort : ¬ (text.takeWhile p).length = text.length := by
    intro hall
    rw [List.takeWhile_append, if_pos hall, List.length_append] at h
    omega
  rw [List.takeWhile_append, if_neg hshort]

/-- The same, told of two texts that go on differently. -/
theorem takeWhile_append_congr {p : Char → Bool} {text behind : List Char}
    (h : ((text ++ behind).takeWhile p).length < text.length) (behind' : List Char) :
    (text ++ behind').takeWhile p = (text ++ behind).takeWhile p := by
  rw [takeWhile_append_of_length_lt h, takeWhile_append_of_length_lt h]

/-- A stretch of characters is ended by any other character. -/
theorem length_takeWhile_lt {p : Char → Bool} {text : List Char} {c : Char} (hmem : c ∈ text)
    (hc : p c = false) (behind : List Char) :
    ((text ++ behind).takeWhile p).length < text.length := by
  obtain ⟨front, back, rfl⟩ := List.append_of_mem hmem
  rw [List.append_assoc, List.cons_append, List.takeWhile_append]
  have hle := (List.takeWhile_prefix p (l := front)).length_le
  split
  · rw [List.takeWhile_cons_of_neg (by simp [hc])]
    simp
  · rw [List.length_append, List.length_cons]
    omega

/-- Whether a stretch begins is told by the first character. -/
theorem take_takeWhile_append {p : Char → Bool} {text : List Char} (h : text ≠ [])
    (behind : List Char) :
    ((text ++ behind).takeWhile p).take 1 = (text.takeWhile p).take 1 := by
  obtain ⟨c, rest, rfl⟩ := List.exists_cons_of_ne_nil h
  rw [List.cons_append, List.takeWhile_cons, List.takeWhile_cons]
  split <;> rfl

theorem commentLength_append {text behind : List Char}
    (h : (commentLength (text ++ behind)).1 < text.length) (behind' : List Char) :
    commentLength (text ++ behind') = commentLength (text ++ behind) := by
  induction text with
  | nil => exact absurd h (Nat.not_lt_zero _)
  | cons c text ih =>
    cases text with
    | nil =>
      -- the first character is always part of what is read
      refine absurd h ?_
      rw [List.cons_append, List.nil_append, commentLength.eq_def]
      split <;> simp_all [longer]
    | cons d text =>
      simp only [List.cons_append] at h ih ⊢
      by_cases hclose : c = '*' ∧ d = '/'
      · obtain ⟨rfl, rfl⟩ := hclose
        rfl
      · have hstep (rest : List Char) :
            commentLength (c :: d :: rest) = longer 1 (commentLength (d :: rest)) := by
          rw [commentLength]
          rintro more rfl hmore
          obtain ⟨rfl, -⟩ := List.cons.inj hmore
          exact hclose ⟨rfl, rfl⟩
        rw [hstep] at h
        rw [hstep, hstep, ih (by simpa [longer] using h)]

/-- A character of a literal that does not continue it is looked at by itself. -/
theorem literalLength_cons {quote c : Char} {rest : List Char}
    (hplain : c = '|' → ∀ more, rest ≠ '\n' :: more ∧ rest ≠ '\r' :: '\n' :: more) :
    literalLength quote (c :: rest) =
      if c = quote then (1, true)
      else if c = '\n' then (0, false) else longer 1 (literalLength quote rest) := by
  rw [literalLength]
  · exact fun more hc hrest => (hplain hc more).1 hrest
  · exact fun more hc hrest => (hplain hc more).2 hrest

/-- Whatever does not end a line is part of a literal. -/
theorem literalLength_pos (quote : Char) {c : Char} (hc : c ≠ '\n') (rest : List Char) :
    0 < (literalLength quote (c :: rest)).1 := by
  rw [literalLength.eq_def]
  split <;> simp_all [longer]
  split <;> simp_all

/-- A character that does not continue a literal, whatever follows the text that it heads. -/
theorem literalLength_append_cons {quote c : Char} {text behind behind' : List Char}
    (hplain : c = '|' → ∀ z more, text ++ z ≠ '\n' :: more ∧ text ++ z ≠ '\r' :: '\n' :: more)
    (ih : (literalLength quote (text ++ behind)).1 < text.length →
      literalLength quote (text ++ behind') = literalLength quote (text ++ behind))
    (h : (literalLength quote (c :: (text ++ behind))).1 < text.length + 1) :
    literalLength quote (c :: (text ++ behind')) =
      literalLength quote (c :: (text ++ behind)) := by
  have hstep (z : List Char) : literalLength quote (c :: (text ++ z)) = _ :=
    literalLength_cons fun hc => hplain hc z
  rw [hstep] at h
  rw [hstep, hstep]
  split
  · rfl
  · rename_i hne
    split
    · rfl
    · rename_i hfeed
      rw [if_neg hne, if_neg hfeed] at h
      rw [ih (Nat.lt_of_succ_lt_succ h)]

/-- A `|` and what may begin a line break are part of a literal. -/
theorem literalLength_bar_return {quote : Char} (hquote : quote ≠ '|') (rest : List Char) :
    2 ≤ (literalLength quote ('|' :: '\r' :: rest)).1 := by
  have hpos := literalLength_pos quote (c := '\r') (by decide) rest
  rw [literalLength.eq_def]
  split
  · rename_i heq
    cases heq
  · simp only [longer]
    omega
  · rename_i heq
    cases heq
    rw [if_neg hquote.symm, if_neg (by decide)]
    simp only [longer]
    omega
  · rename_i heq
    cases heq

/-- A literal that ends within a text does so whatever follows. -/
theorem literalLength_append {quote : Char} (hquote : quote ≠ '|') (behind behind' : List Char) :
    ∀ text : List Char, (literalLength quote (text ++ behind)).1 < text.length →
      literalLength quote (text ++ behind') = literalLength quote (text ++ behind)
  | [], h => absurd h (Nat.not_lt_zero _)
  | c :: text, h => by
    have ih := literalLength_append hquote behind behind' text
    -- only a bar in front of a line break, which may be of two characters, is not read by itself
    by_cases hc : c = '|'
    · subst hc
      have hpos := literalLength_pos quote (c := '|') (by decide) (text ++ behind)
      rcases text with _ | ⟨d, text⟩
      · exact absurd h (Nat.not_lt.mpr hpos)
      have ih' := literalLength_append hquote behind behind' text
      by_cases hfeed : d = '\n'
      · subst hfeed
        simp only [List.cons_append, literalLength, longer, List.length_cons] at h ⊢
        rw [ih' (by omega)]
      by_cases hreturn : d = '\r'
      · subst hreturn
        rcases text with _ | ⟨e, text⟩
        · exact absurd h (Nat.not_lt.mpr (literalLength_bar_return hquote behind))
        have ih'' := literalLength_append hquote behind behind' text
        by_cases hfeed' : e = '\n'
        · subst hfeed'
          simp only [List.cons_append, literalLength, longer, List.length_cons] at h ⊢
          rw [ih'' (by omega)]
        · refine literalLength_append_cons (fun _ z more => ?_) ih h
          simp [hfeed']
      · refine literalLength_append_cons (fun _ z more => ?_) ih h
        simp [hfeed, hreturn]
    · exact literalLength_append_cons (fun hbar => absurd hbar hc) ih h

/-! ## 2. The readers -/

/-- Blanks are part of no word, number or sign. -/
theorem not_of_isBlank {p : Char → Bool}
    (hp : p ' ' = false ∧ p '\t' = false ∧ p '\r' = false ∧ p '\x0c' = false) {c : Char}
    (hc : isBlank c = true) : p c = false := by
  simp only [isBlank, Bool.or_eq_true, beq_iff_eq] at hc
  obtain ⟨hspace, htab, hreturn, hpage⟩ := hp
  rcases hc with ((rfl | rfl) | rfl) | rfl <;> assumption

namespace Lexeme

variable {text behind behind' : List Char}

/-- A blank ends every stretch of characters that are none. -/
theorem takeWhile_blank {p : Char → Bool}
    (hp : p ' ' = false ∧ p '\t' = false ∧ p '\r' = false ∧ p '\x0c' = false) {b : Char}
    (hmem : b ∈ text) (hb : isBlank b = true) :
    (text ++ behind').takeWhile p = (text ++ behind).takeWhile p :=
  takeWhile_append_congr (length_takeWhile_lt hmem (not_of_isBlank hp hb) behind) behind'

theorem lineComment_append (h : (lineComment (text ++ behind)).extra < text.length) :
    lineComment (text ++ behind') = lineComment (text ++ behind) := by
  rw [lineComment, lineComment, takeWhile_append_congr h]

theorem blockComment_append (h : (blockComment ('*' :: (text ++ behind))).extra < text.length + 1) :
    blockComment ('*' :: (text ++ behind')) = blockComment ('*' :: (text ++ behind)) := by
  have hle := commentLength_le (text ++ behind)
  have hle' := commentLength_le (text ++ behind')
  simp only [blockComment, List.drop_succ_cons, List.drop_zero, List.length_cons] at h ⊢
  have hlt : (commentLength (text ++ behind)).1 < text.length := by omega
  have hsame := commentLength_append hlt behind'
  rw [hsame] at hle' ⊢
  rw [Nat.min_eq_right (by omega), Nat.min_eq_right (by omega)]

theorem literal_append {quote : Char} (hquote : quote ≠ '|')
    (h : (literal quote (text ++ behind)).extra < text.length) :
    literal quote (text ++ behind') = literal quote (text ++ behind) := by
  simp only [literal] at h ⊢
  rw [literalLength_append hquote behind behind' text h]

theorem number_append {first b : Char} (hmem : b ∈ text) (hb : isBlank b = true) :
    number first (text ++ behind') = number first (text ++ behind) := by
  unfold number
  rw [takeWhile_blank (by decide) hmem hb]

theorem hexNumber_append {first x b : Char} (hmem : b ∈ text) (hb : isBlank b = true) :
    hexNumber first (x :: (text ++ behind')) = hexNumber first (x :: (text ++ behind)) := by
  have hlt (z : List Char) : ((text ++ z).takeWhile Char.isAlphanum).length < text.length :=
    length_takeWhile_lt hmem (not_of_isBlank (by decide) hb) z
  have h := hlt behind
  have h' := hlt behind'
  simp only [hexNumber, List.drop_succ_cons, List.drop_zero, List.length_cons, List.length_append,
    List.take_succ_cons, List.take_zero]
  rw [Nat.min_eq_right (by omega), Nat.min_eq_right (by omega),
    takeWhile_blank (by decide) hmem hb]

theorem byteString_append (h : (byteString (text ++ behind)).extra < text.length) :
    byteString (text ++ behind') = byteString (text ++ behind) := by
  simp only [byteString, List.length_append] at h ⊢
  have hdigits := takeWhile_append_of_length_lt (Nat.lt_of_le_of_lt (Nat.le_add_right _ _) h)
  rw [hdigits behind'] 
  rw [hdigits behind] at h ⊢
  have hlt : (text.takeWhile fun c => c != '\\' && c != '\n').length < text.length := by omega
  -- what may close the literal still stands in the text
  have hne : text.drop (text.takeWhile fun c => c != '\\' && c != '\n').length ≠ [] := by
    rw [ne_eq, List.drop_eq_nil_iff]
    omega
  simp only [List.drop_append_of_le_length (Nat.le_of_lt hlt), take_takeWhile_append hne]

theorem word_append {first b : Char} (hmem : b ∈ text) (hb : isBlank b = true) :
    word first (text ++ behind') = word first (text ++ behind) := by
  unfold word
  rw [takeWhile_blank (by decide) hmem hb]

theorem atName_append {b : Char} (hmem : b ∈ text) (hb : isBlank b = true) :
    atName (text ++ behind') = atName (text ++ behind) := by
  unfold atName
  rw [takeWhile_blank (by decide) hmem hb]

theorem directive_append {b : Char} (hmem : b ∈ text) (hb : isBlank b = true) :
    directive (text ++ behind') = directive (text ++ behind) := by
  unfold directive
  rw [takeWhile_blank (by decide) hmem hb]

/-- A `|` in front of something on its line is not at the end of the line if something else is put
    there. -/
theorem continuation_append {d : Char} {more : List Char} (hd : isBlank d = false) (hfeed : d ≠ '\n')
    (h : (continuation (text ++ behind)).extra < text.length) :
    continuation (text ++ d :: more) = continuation (text ++ behind) := by
  have hd' : (d == ' ' || d == '\t' || d == '\r') = false := by
    simp only [isBlank, Bool.or_eq_false_iff] at hd ⊢
    exact hd.1
  simp only [continuation, List.takeWhile_append] at h ⊢
  by_cases hall : (text.takeWhile fun c => c == ' ' || c == '\t' || c == '\r').length = text.length
  · -- the blanks go on behind the text, and what comes next on the line is something else
    have hsplit (z : List Char) : (text ++ z).drop
        (text ++ z.takeWhile fun c => c == ' ' || c == '\t' || c == '\r').length =
        z.drop (z.takeWhile fun c => c == ' ' || c == '\t' || c == '\r').length := by
      rw [List.length_append, ← List.drop_drop, List.drop_left]
    simp only [if_pos hall, hsplit] at h ⊢
    simp only [List.takeWhile_cons, hd', Bool.false_eq_true, if_false, List.length_nil,
      List.drop_zero, if_neg hfeed]
    split at h
    · simp only [List.length_append] at h
      omega
    · split at h
      · simp only [List.length_append] at h
        omega
      · rename_i hnext
        rw [if_neg hnext]
  · -- the blanks end within the text
    have hle := (List.takeWhile_prefix (fun c => c == ' ' || c == '\t' || c == '\r')
      (l := text)).length_le
    simp only [if_neg hall]
    rw [List.drop_append_of_le_length hle, List.drop_append_of_le_length hle]
    have hne : text.drop (text.takeWhile fun c => c == ' ' || c == '\t' || c == '\r').length ≠
        [] := by
      rw [ne_eq, List.drop_eq_nil_iff]
      omega
    obtain ⟨c, rest, hrest⟩ := List.exists_cons_of_ne_nil hne
    rw [hrest]
    rfl

theorem operator_append {first b : Char} (hmem : b ∈ text) (hb : isBlank b = true) :
    operator first (text ++ behind') = operator first (text ++ behind) := by
  have hsign : doubleSign? first (text ++ behind') = doubleSign? first (text ++ behind) := by
    rcases text with _ | ⟨next, _ | ⟨third, text⟩⟩
    · cases hmem
    · -- a sign does not go on with a blank
      obtain rfl := List.mem_singleton.mp hmem
      have hnone (z : List Char) : doubleSign? first (b :: z) = none := by
        unfold doubleSign?
        dsimp only
        split
        · rfl
        · have hblank : ∀ row ∈ doubleSigns, isBlank row.1.2 = false := by decide
          refine List.lookup_eq_none_iff.mpr fun row hrow => ?_
          refine bne_iff_ne.mpr fun heq => ?_
          have := hblank row hrow
          rw [← heq, hb] at this
          cases this
      exact (hnone behind').trans (hnone behind).symm
    · rfl
  rw [operator, operator, hsign]

theorem ite_append {p : Prop} [Decidable p] {a b a' b' : Lexeme} {n : Nat}
    (ha : p → a.extra < n → a' = a) (hb : ¬ p → b.extra < n → b' = b)
    (h : (if p then a else b).extra < n) : (if p then a' else b') = if p then a else b := by
  by_cases hp : p
  · rw [if_pos hp] at h
    rw [if_pos hp, if_pos hp, ha hp h]
  · rw [if_neg hp] at h
    rw [if_neg hp, if_neg hp, hb hp h]

/-- **A lexeme that ends in front of a blank is read in the same way** if something else that is
    neither a blank nor a line feed is put behind the blank. -/
theorem read_append {atStart : Bool} {first b d : Char} {more : List Char} (hmem : b ∈ text)
    (hb : isBlank b = true) (hd : isBlank d = false) (hfeed : d ≠ '\n')
    (h : (read atStart first (text ++ behind)).extra < text.length) :
    read atStart first (text ++ d :: more) = read atStart first (text ++ behind) := by
  obtain ⟨c, rest, rfl⟩ := List.exists_cons_of_ne_nil (List.ne_nil_of_mem hmem)
  have hhead (z : List Char) : (c :: rest ++ z).head? = some c := rfl
  -- the second of two opening characters is no blank, so there is one behind it
  have hrest (hc : isBlank c = false) : b ∈ rest :=
    (List.mem_cons.mp hmem).resolve_left fun hbc => by rw [hbc, hc] at hb; cases hb
  unfold read at h ⊢
  rw [hhead] at h ⊢
  rw [hhead]
  refine ite_append (fun _ _ => rfl) (fun _ => ?_) h
  refine ite_append (fun hopen h => ?_) (fun _ => ?_)
  · obtain rfl := Option.some.inj hopen.2
    exact blockComment_append h
  refine ite_append (fun _ h => lineComment_append h) (fun _ => ?_)
  refine ite_append (fun hquote h => ?_) (fun _ => ?_)
  · exact literal_append (by rcases hquote with rfl | rfl <;> decide) h
  refine ite_append (fun _ h => byteString_append h) (fun _ => ?_)
  refine ite_append (fun hhex _ => ?_) (fun _ => ?_)
  · refine hexNumber_append (hrest ?_) hb
    rcases hhex.2 with hx | hx <;> rw [Option.some.inj hx] <;> decide
  refine ite_append (fun _ _ => number_append hmem hb) (fun _ => ?_)
  refine ite_append (fun _ _ => word_append hmem hb) (fun _ => ?_)
  refine ite_append (fun _ _ => atName_append hmem hb) (fun _ => ?_)
  refine ite_append (fun _ _ => directive_append hmem hb) (fun _ => ?_)
  exact ite_append (fun _ h => continuation_append hd hfeed h) (fun _ _ => operator_append hmem hb)

end Lexeme

/-! ## 3. What may be put between two pieces -/

/-- A block comment, or a `|` directly in front of a line feed. -/
inductive Interposable : List Char → Prop
  | comment (text : List Char) (h : ¬ ['*', '/'] <:+: text) :
    Interposable ('/' :: '*' :: (text ++ ['*', '/']))
  | continuation : Interposable ['|', '\n']

/-- When `before ++ behind` is cut into pieces, blanks are skipped directly in front of `behind`. -/
def SkippedBlank (before behind : List Char) : Prop :=
  ∃ front blank back, blank ≠ [] ∧ (∀ c ∈ blank, isBlank c = true) ∧
    Piece.ofChars .initial (before ++ behind) = front ++ .space blank :: back ∧
    front.flatMap Piece.chars ++ blank = before

/-- A comment ends at its first end mark. -/
theorem commentLength_closed {text : List Char} (h : ¬ ['*', '/'] <:+: text) (rest : List Char) :
    commentLength (text ++ '*' :: '/' :: rest) = (text.length + 2, true) := by
  induction text with
  | nil => rfl
  | cons c text ih =>
    have hstep : commentLength (c :: (text ++ '*' :: '/' :: rest)) =
        longer 1 (commentLength (text ++ '*' :: '/' :: rest)) := by
      rw [commentLength]
      rintro more rfl hmore
      cases text with
      | nil => exact absurd (List.cons.inj hmore).1 (by decide)
      | cons d text =>
        obtain ⟨rfl, -⟩ := List.cons.inj hmore
        exact h ⟨[], text, rfl⟩
    rw [List.cons_append, hstep, ih fun hin => h (hin.trans (List.suffix_cons c text).isInfix)]
    simp only [longer, List.length_cons]

/-- **What may be put between two pieces is one more piece**, and what is behind it is cut as if
    it were not there. -/
theorem Interposable.ofChars {inserted : List Char} (h : Interposable inserted) (ctx : LexContext)
    (behind : List Char) : ∃ kind, kind.isTrivia = true ∧
      Piece.ofChars ctx (inserted ++ behind) =
        .lexeme kind inserted none :: Piece.ofChars ctx behind := by
  -- a lexeme of a comment leaves the context of the lexer as it is
  have hread {kind : Kind} {first : Char} {rest : List Char} (hkind : kind.isTrivia = true)
      (hblank : isBlank first = false) (hfeed : first ≠ '\n')
      (hlexeme : Lexeme.read ctx.atStart first (rest ++ behind) = ⟨kind, rest.length, none⟩) :
      Piece.ofChars ctx (first :: rest ++ behind) =
        .lexeme kind (first :: rest) none :: Piece.ofChars ctx behind := by
    rw [List.cons_append, Piece.ofChars, if_neg (by simp [hblank]),
      if_neg (by simp [LexContext.isRedundantNewline, hfeed]), hlexeme]
    simp only [List.take_left, List.drop_left, LexContext.push, hkind, if_true]
  cases h with
  | comment text htext =>
    refine ⟨.blockComment, rfl, hread rfl (by decide) (by decide) ?_⟩
    have hopen : ('*' :: (text ++ ['*', '/']) ++ behind) =
        '*' :: (text ++ '*' :: '/' :: behind) := by simp
    rw [hopen, Lexeme.read, if_neg (by decide), if_pos ⟨rfl, rfl⟩]
    simp only [Lexeme.blockComment, List.drop_succ_cons, List.drop_zero,
      commentLength_closed htext behind]
    simp only [if_true, List.length_cons, List.length_append, List.length_nil]
    congr 1
    omega
  | continuation =>
    refine ⟨.continuation, rfl, hread rfl (by decide) (by decide) ?_⟩
    have hletter : Text.isAlphabetic '|' = false := by decide
    simp [Lexeme.read, Lexeme.continuation, hletter]

theorem Interposable.exists_cons {inserted : List Char} (h : Interposable inserted) :
    ∃ d more, inserted = d :: more ∧ isBlank d = false ∧ d ≠ '\n' := by
  cases h with
  | comment => exact ⟨_, _, rfl, by decide, by decide⟩
  | continuation => exact ⟨_, _, rfl, by decide, by decide⟩

/-! ## 4. The pieces of the longer text -/

namespace Piece

/-- **A piece in front of a text with a blank in it** is cut off in the same way when something else
    that is neither a blank nor a line feed is put behind the text. -/
theorem exists_ofChars_append {ctx : LexContext} {piece : Piece} {pieces : List Piece}
    {later behind : List Char} {b d : Char} (hmem : b ∈ later) (hb : isBlank b = true)
    (hd : isBlank d = false) (hfeed : d ≠ '\n') (more : List Char)
    (h : ofChars ctx (piece.chars ++ later ++ behind) = piece :: pieces) :
    ∃ ctx', pieces = ofChars ctx' (later ++ behind) ∧
      ofChars ctx (piece.chars ++ later ++ d :: more) =
        piece :: ofChars ctx' (later ++ d :: more) := by
  have hpos : 0 < later.length := List.length_pos_of_mem hmem
  rcases hcs : piece.chars ++ later ++ behind with _ | ⟨c, tail⟩
  · simp only [List.append_eq_nil_iff] at hcs
    rw [hcs.1.2] at hmem
    cases hmem
  rw [hcs, ofChars] at h
  split at h
  · -- blanks
    rename_i hc
    obtain ⟨rfl, rfl⟩ := List.cons.inj h
    obtain ⟨run, hrun⟩ : ∃ run, run = tail.takeWhile isBlank := ⟨_, rfl⟩
    rw [← hrun] at hcs ⊢
    obtain rfl : run ++ later ++ behind = tail := (List.cons.inj hcs).2
    have htake (z : List Char) : (run ++ later ++ z).takeWhile isBlank = run := by
      rw [takeWhile_append_congr (by rw [← hrun, List.length_append]; omega), ← hrun]
    have hdrop (z : List Char) : (run ++ later ++ z).dropWhile isBlank = later ++ z := by
      have hsplit := List.takeWhile_append_dropWhile (p := isBlank) (l := run ++ later ++ z)
      rw [htake] at hsplit
      exact List.append_cancel_left (hsplit.trans (List.append_assoc _ _ _))
    refine ⟨ctx, by rw [hdrop], ?_⟩
    simp only [chars, List.cons_append]
    rw [ofChars, if_pos hc, htake, hdrop]
  rename_i hc
  split at h
  · -- a line feed that ends nothing
    rename_i hredundant
    obtain ⟨rfl, rfl⟩ := List.cons.inj h
    obtain rfl : later ++ behind = tail := (List.cons.inj hcs).2
    refine ⟨ctx, rfl, ?_⟩
    simp only [chars, List.cons_append, List.nil_append]
    rw [ofChars, if_neg hc, if_pos hredundant]
  · -- a lexeme
    rename_i hredundant
    obtain ⟨rfl, rfl⟩ := List.cons.inj h
    obtain ⟨found, hfound⟩ : ∃ found, found = Lexeme.read ctx.atStart c tail := ⟨_, rfl⟩
    have hle := Lexeme.extra_read_le ctx.atStart c tail
    rw [← hfound] at hcs hle ⊢
    obtain ⟨run, hrun⟩ : ∃ run, run = tail.take found.extra := ⟨_, rfl⟩
    have hlength : run.length = found.extra := by
      rw [hrun, List.length_take, Nat.min_eq_left hle]
    rw [← hrun] at hcs ⊢
    obtain rfl : run ++ later ++ behind = tail := (List.cons.inj hcs).2
    have hread : Lexeme.read ctx.atStart c (run ++ later ++ d :: more) = found := by
      rw [hfound]
      refine Lexeme.read_append (List.mem_append_right _ hmem) hb hd hfeed ?_
      rw [← hfound, List.length_append]
      omega
    refine ⟨ctx.push found.kind, ?_, ?_⟩
    · rw [← hlength, List.append_assoc, List.drop_left]
    · simp only [chars, List.cons_append]
      rw [ofChars, if_neg hc, if_neg hredundant, hread]
      simp only [← hlength, List.append_assoc, List.take_left, List.drop_left]

/-- Blanks are cut off together with those behind them. -/
theorem ofChars_blank {ctx : LexContext} {blank : List Char} (hne : blank ≠ [])
    (hblank : ∀ c ∈ blank, isBlank c = true) (rest : List Char) :
    ofChars ctx (blank ++ rest) =
      .space (blank ++ rest.takeWhile isBlank) :: ofChars ctx (rest.dropWhile isBlank) := by
  obtain ⟨b, more, rfl⟩ := List.exists_cons_of_ne_nil hne
  have hmore : ∀ c ∈ more, isBlank c = true := fun c hc => hblank c (List.mem_cons_of_mem _ hc)
  rw [List.cons_append, ofChars, if_pos (hblank b List.mem_cons_self),
    List.takeWhile_append_of_pos hmore, List.dropWhile_append_of_pos hmore]
  rfl

/-- **The pieces in front of the place and behind it** are those of the shorter text. -/
theorem ofChars_interposed {inserted behind blank : List Char} (hins : Interposable inserted)
    (hne : blank ≠ []) (hblank : ∀ c ∈ blank, isBlank c = true) {front back : List Piece}
    {ctx : LexContext}
    (h : ofChars ctx (front.flatMap chars ++ blank ++ behind) = front ++ .space blank :: back) :
    ∃ kind, kind.isTrivia = true ∧
      ofChars ctx (front.flatMap chars ++ blank ++ (inserted ++ behind)) =
        front ++ .space blank :: .lexeme kind inserted none :: back := by
  obtain ⟨d, more, hinserted, hd, hfeed⟩ := hins.exists_cons
  obtain ⟨b, hb⟩ := List.exists_mem_of_ne_nil blank hne
  -- one piece after the other is taken off the front
  induction front generalizing ctx with
  | nil =>
    simp only [List.flatMap_nil, List.nil_append] at h ⊢
    rw [ofChars_blank hne hblank] at h
    obtain ⟨hspace, rfl⟩ := List.cons.inj h
    have hnone : behind.takeWhile isBlank = [] :=
      List.append_cancel_left ((Piece.space.inj hspace).trans (List.append_nil blank).symm)
    have hall : behind.dropWhile isBlank = behind := by
      have hsplit := List.takeWhile_append_dropWhile (p := isBlank) (l := behind)
      rwa [hnone, List.nil_append] at hsplit
    obtain ⟨kind, hkind, hpieces⟩ := hins.ofChars ctx behind
    refine ⟨kind, hkind, ?_⟩
    rw [hall, ← hpieces, ofChars_blank hne hblank, hinserted, List.cons_append,
      List.takeWhile_cons_of_neg (by simp [hd]), List.dropWhile_cons_of_neg (by simp [hd]),
      List.append_nil]
  | cons piece front ih =>
    rw [List.flatMap_cons, List.append_assoc _ _ blank] at h ⊢
    obtain ⟨ctx', hrest, hcut⟩ := exists_ofChars_append (List.mem_append_right _ hb)
      (hblank b hb) hd hfeed (more ++ behind) h
    obtain ⟨kind, hkind, hback⟩ := ih hrest.symm
    refine ⟨kind, hkind, ?_⟩
    rw [hinserted, List.cons_append] at hback ⊢
    rw [hcut, hback]
    rfl

end Piece

/-! ## 5. Where the tokens stand then -/

namespace Place

/-- Where a place is found when what stood at `here` is moved to `there`. -/
def moved (p here there : Place) : Place :=
  if here ≤ p then
    ⟨there.line + (p.line - here.line),
      if p.line = here.line then there.column + (p.column - here.column) else p.column⟩
  else p

variable {here there p : Place}

theorem moved_of_lt (h : p < here) : p.moved here there = p :=
  if_neg fun hle => lt_irrefl p (lt_of_lt_of_le h hle)

theorem moved_self : here.moved here there = there := by
  simp [moved, le_refl]

theorem moved_step (h : here ≤ p) (c : Char) :
    (p.step c).moved here there = (p.moved here there).step c := by
  have hstep := le_trans h (le_of_lt (lt_step p c))
  rw [moved, moved, if_pos h, if_pos hstep]
  rw [le_iff] at h
  unfold step
  by_cases hfeed : c = '\n'
  · simp only [hfeed, if_true, mk.injEq]
    rw [if_neg (by omega)]
    exact ⟨by omega, rfl⟩
  · simp only [hfeed, if_false, mk.injEq, true_and]
    split <;> omega

theorem moved_after (h : here ≤ p) (text : List Char) :
    (p.after text).moved here there = (p.moved here there).after text := by
  induction text generalizing p with
  | nil => rfl
  | cons c text ih =>
    rw [after_cons, after_cons, ih (le_trans h (le_of_lt (lt_step p c))), moved_step h]

end Place

/-- A span of which each end is moved. -/
def Span.moved (span : Span) (here there : Place) : Span :=
  ⟨span.start.moved here there, span.stop.moved here there, span.file⟩

/-- A token of which only the span is moved. -/
def Token.moved (t : Token) (here there : Place) : Token :=
  { t with span := t.span.moved here there }

/-- A fault of which only the span is moved. -/
def Fault.moved (f : Fault) (here there : Place) : Fault :=
  { f with span := f.span.moved here there }

theorem Span.moved_of_lt {here there : Place} {span : Span} (hstart : span.start < here)
    (hstop : span.stop < here) : span.moved here there = span := by
  rw [moved, Place.moved_of_lt hstart, Place.moved_of_lt hstop]

namespace Piece

variable {file : Nat} {here there : Place}

/-- Pieces behind the place. -/
theorem tokensFrom_moved (there : Place) {p : Place} (h : here ≤ p) (pieces : List Piece) :
    tokensFrom file (p.moved here there) pieces =
      (tokensFrom file p pieces).map (·.moved here there) := by
  induction pieces generalizing p with
  | nil => rfl
  | cons piece pieces ih =>
    have hafter (text : List Char) := Place.le_trans h (Place.le_after p text)
    cases piece with
    | space text => rw [tokensFrom, tokensFrom, ← Place.moved_after h, ih (hafter text)]
    | lexeme kind text fault =>
      rw [tokensFrom, tokensFrom, List.map_cons, ← Place.moved_after h, ih (hafter text)]
      rfl

theorem faultsFrom_moved (there : Place) {p : Place} (h : here ≤ p) (pieces : List Piece) :
    faultsFrom file (p.moved here there) pieces =
      (faultsFrom file p pieces).map (·.moved here there) := by
  induction pieces generalizing p with
  | nil => rfl
  | cons piece pieces ih =>
    have hafter (text : List Char) := Place.le_trans h (Place.le_after p text)
    cases piece with
    | space text =>
      simp only [faultsFrom, chars]
      rw [← Place.moved_after h, ih (hafter text)]
    | lexeme kind text fault =>
      cases fault with
      | none =>
        simp only [faultsFrom, chars]
        rw [← Place.moved_after h, ih (hafter text)]
      | some cause =>
        simp only [faultsFrom, List.map_cons]
        rw [← Place.moved_after h, ih (hafter text)]
        rfl

/-- Whether space comes next is not told by what comes behind space. -/
theorem spaceAhead_append_space (front : List Piece) (blank : List Char) (back back' : List Piece) :
    spaceAhead (front ++ .space blank :: back) = spaceAhead (front ++ .space blank :: back') := by
  induction front with
  | nil => rfl
  | cons piece front ih =>
    cases piece with
    | space text => rfl
    | lexeme kind text fault => simp only [List.cons_append, spaceAhead, ih]

variable {blank inserted : List Char} {kind : Kind} {back : List Piece}

/-- The first of the pieces in front of some blanks ends where the others begin, and that is in front
    of the end of the blanks. -/
theorem after_chars_of_cons (hne : blank ≠ []) {piece : Piece} {front : List Piece} {p : Place}
    (hhere : p.after ((piece :: front).flatMap chars ++ blank) = here) :
    (p.after piece.chars).after (front.flatMap chars ++ blank) = here ∧
      p.after piece.chars < here := by
  have hrest : (p.after piece.chars).after (front.flatMap chars ++ blank) = here := by
    rw [← hhere, List.flatMap_cons, List.append_assoc, Place.after_append p piece.chars]
  have hblank : front.flatMap chars ++ blank ≠ [] := by simp [hne]
  exact ⟨hrest, hrest ▸ Place.lt_after _ hblank⟩

/-- A span that ends in front of the place stays where it is. -/
theorem moved_of_after_lt {p : Place} {text : List Char} (h : p.after text < here) :
    Span.moved ⟨p, p.after text, file⟩ here there = ⟨p, p.after text, file⟩ :=
  Span.moved_of_lt (Place.lt_of_le_of_lt (Place.le_after p text) h) h

/-- **The primary tokens** in front of the place stay where they are, those behind it move. -/
theorem primary_tokensFrom_interposed (hne : blank ≠ []) (hkind : kind.isTrivia = true) :
    ∀ {front : List Piece} {p : Place}, p.after (front.flatMap chars ++ blank) = here →
      here.after inserted = there →
      (tokensFrom file p (front ++ .space blank :: .lexeme kind inserted none :: back)).filter
          (!·.kind.isTrivia) =
        ((tokensFrom file p (front ++ .space blank :: back)).filter (!·.kind.isTrivia)).map
          (·.moved here there) := by
  intro front
  -- on the pieces in front of the place, each of which stays where it is
  induction front with
  | nil =>
    intro p hhere hthere
    simp only [List.nil_append, List.flatMap_nil] at hhere ⊢
    rw [tokensFrom, tokensFrom, tokensFrom, hhere, hthere,
      List.filter_cons_of_neg (by simp [hkind])]
    have hback : tokensFrom file there back = (tokensFrom file here back).map (·.moved here there) := by
      rw [← tokensFrom_moved there (Place.le_refl here), Place.moved_self]
    rw [hback, List.filter_map]
    rfl
  | cons piece front ih =>
    intro p hhere hthere
    obtain ⟨hrest, hlt⟩ := after_chars_of_cons hne hhere
    cases piece with
    | space text => exact ih hrest hthere
    | lexeme kind' text fault =>
      rw [List.cons_append, List.cons_append, tokensFrom, tokensFrom, List.filter_cons,
        List.filter_cons, spaceAhead_append_space front blank _ back]
      have hstay : Span.moved ⟨p, p.after text, file⟩ here there = ⟨p, p.after text, file⟩ :=
        moved_of_after_lt hlt
      dsimp only
      split
      · rw [List.map_cons, Token.moved, hstay]
        exact congrArg _ (ih hrest hthere)
      · exact ih hrest hthere

theorem faultsFrom_interposed (hne : blank ≠ []) :
    ∀ {front : List Piece} {p : Place}, p.after (front.flatMap chars ++ blank) = here →
      here.after inserted = there →
      faultsFrom file p (front ++ .space blank :: .lexeme kind inserted none :: back) =
        (faultsFrom file p (front ++ .space blank :: back)).map (·.moved here there) := by
  intro front
  induction front with
  | nil =>
    intro p hhere hthere
    simp only [List.nil_append, List.flatMap_nil] at hhere ⊢
    simp only [faultsFrom, chars, hhere, hthere]
    rw [← faultsFrom_moved there (Place.le_refl here), Place.moved_self]
  | cons piece front ih =>
    intro p hhere hthere
    obtain ⟨hrest, hlt⟩ := after_chars_of_cons hne hhere
    have hlater := ih hrest hthere
    cases piece with
    | space text => exact hlater
    | lexeme kind' text fault =>
      cases fault with
      | none => exact hlater
      | some cause =>
        have hstay : Span.moved ⟨p, p.after text, file⟩ here there = ⟨p, p.after text, file⟩ :=
          moved_of_after_lt hlt
        simp only [List.cons_append, faultsFrom, List.map_cons, Fault.moved, hstay]
        exact congrArg _ hlater

end Piece

/-! ## 6. Texts -/

/-- **Comments and continuations are transparent.** Where blanks were skipped, in front of a primary
    token or of anything else, a block comment or a continued line may be put behind them: the
    primary tokens keep their kinds, their texts and their marks, the faults keep their causes, and
    only what stands behind the place moves. -/
theorem Lexed.interposed {before inserted behind : String} (file : Nat)
    (hblank : SkippedBlank before.toList behind.toList) (hins : Interposable inserted.toList) :
    let here := Place.origin.after before.toList
    let there := here.after inserted.toList
    (ofText (before ++ inserted ++ behind) file).primary =
        (ofText (before ++ behind) file).primary.map (·.moved here there) ∧
      (ofText (before ++ inserted ++ behind) file).faults =
        (ofText (before ++ behind) file).faults.map (·.moved here there) := by
  intro here there
  obtain ⟨front, blank, back, hne, hall, hcut, hbefore⟩ := hblank
  have hlonger : (before ++ inserted ++ behind).toList =
      before.toList ++ (inserted.toList ++ behind.toList) := by simp
  have hshorter : (before ++ behind).toList = before.toList ++ behind.toList := by simp
  have hhere : Place.origin.after (front.flatMap Piece.chars ++ blank) = here := by rw [hbefore]
  rw [← hbefore] at hcut
  -- the longer text is cut into the same pieces and one more, which is no primary token
  obtain ⟨kind, hkind, hcut'⟩ := Piece.ofChars_interposed hins hne hall hcut
  rw [hbefore] at hcut hcut'
  refine ⟨?_, ?_⟩
  · have hend : (Place.origin.after (before.toList ++ behind.toList)).moved here there =
        Place.origin.after (before.toList ++ (inserted.toList ++ behind.toList)) := by
      rw [Place.after_append, Place.after_append, Place.after_append,
        Place.moved_after (Place.le_refl here), Place.moved_self]
    simp only [primary, ofText, hlonger, hshorter, hcut, hcut', List.filter_append, List.map_append]
    rw [Piece.primary_tokensFrom_interposed hne hkind hhere rfl, ← hend]
    rfl
  · simp only [ofText, hlonger, hshorter, hcut, hcut']
    exact Piece.faultsFrom_interposed hne hhere rfl

/-- A comment in front of the `-` of a difference. -/
theorem Lexed.interposed_difference :
    SkippedBlank "x = a ".toList "-b\n".toList ∧ Interposable "/* less */".toList ∧
      (ofText ("x = a " ++ "/* less */" ++ "-b\n") 0).primary =
        (ofText ("x = a " ++ "-b\n") 0).primary.map (·.moved ⟨1, 6⟩ ⟨1, 16⟩) := by
  have hblank : SkippedBlank "x = a ".toList "-b\n".toList :=
    ⟨[.lexeme .ident ['x'] none, .space [' '], .lexeme .equal ['='] none, .space [' '],
        .lexeme .ident ['a'] none], [' '],
      [.lexeme .minus ['-'] none, .lexeme .ident ['b'] none, .lexeme .newline ['\n'] none],
      List.cons_ne_nil _ _, List.forall_mem_singleton.mpr rfl, by decide +kernel, by decide⟩
  have hcomment : Interposable "/* less */".toList := .comment " less ".toList (by decide)
  exact ⟨hblank, hcomment, (interposed 0 hblank hcomment).1⟩

end BasicCheck
