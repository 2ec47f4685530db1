import BasicCheck.Proofs.Token.Literal

/-!
# Tokens written one behind the other

The primary tokens of a text in which nothing is wrong may be written down again with a single blank
behind each of them: the new text is read as the same tokens, and as nothing else
(**`Lexed.shapes_respaced`**).

A primary lexeme is read from its own text whenever a blank comes next (`Lexeme.read_respaced`): the
sign or the name that it was glued to had no part in it, as no reader that finds one goes on behind
a blank. Whether a statement may start at a token is told by the primary tokens in front of it, and
they are the same in both texts (`Piece.shapes_ofChars_spaced`).
-/

namespace BasicCheck

/-! ## 1. Lexemes in front of a blank -/

namespace Lexeme

variable {rest behind : List Char} {b : Char}

/-- A stretch that was taken off a text is taken again in front of a blank, if blanks are of another
    sort. -/
theorem takeWhile_take_append {p : Char → Bool}
    (hp : p ' ' = false ∧ p '\t' = false ∧ p '\r' = false ∧ p '\x0c' = false)
    (hb : isBlank b = true) (rest behind : List Char) :
    (rest.take (rest.takeWhile p).length ++ b :: behind).takeWhile p = rest.takeWhile p := by
  rw [← List.prefix_iff_eq_take.mp (List.takeWhile_prefix p),
    List.takeWhile_append_of_pos fun _ hc => List.all_eq_true.mp List.all_takeWhile _ hc,
    List.takeWhile_cons_of_neg (by simp [not_of_isBlank hp hb]), List.append_nil]

/-- A literal that is closed is read again, whatever follows. -/
theorem literal_respaced {quote : Char} (hquote : quote = '"' ∨ quote = '\'')
    (hfault : (literal quote rest).fault = none) (behind : List Char) :
    literal quote (rest.take (literal quote rest).extra ++ behind) = literal quote rest := by
  have hclosed : (literalLength quote rest).2 = true := by
    by_contra hopen
    simp [literal, hopen] at hfault
  obtain ⟨value, body, back, hbody, hno, hfeed, rfl, -⟩ := exists_continued hclosed
  rw [literal_body hbody hquote hno hfeed, List.take_length_add_append, List.take_succ_cons,
    List.take_zero, List.append_assoc, List.singleton_append, literal_body hbody hquote hno hfeed]

/-- A literal of bytes ends with its backslash, whatever follows. -/
theorem byteString_closed {digits : List Char}
    (hdigits : ∀ c ∈ digits, (c != '\\' && c != '\n') = true) (behind : List Char) :
    byteString (digits ++ '\\' :: behind) = byteString (digits ++ ['\\']) ∧
      (byteString (digits ++ '\\' :: behind)).extra = digits.length + 1 := by
  have htake (z : List Char) :
      (digits ++ '\\' :: z).takeWhile (fun c => c != '\\' && c != '\n') = digits := by
    rw [List.takeWhile_append_of_pos hdigits, List.takeWhile_cons_of_neg (by decide),
      List.append_nil]
  have hclosing (z : List Char) :
      (('\\' :: z).takeWhile (· == '\\')).take 1 = ['\\'] := rfl
  simp only [byteString, htake, List.drop_left, hclosing]
  exact ⟨trivial, List.length_append⟩

theorem exists_byteString_closed (hfault : (byteString rest).fault = none) :
    ∃ digits back, rest = digits ++ '\\' :: back ∧
      ∀ c ∈ digits, (c != '\\' && c != '\n') = true := by
  let isDigit (c : Char) : Bool := c != '\\' && c != '\n'
  have hsplit := List.prefix_iff_eq_append.mp (List.takeWhile_prefix isDigit (l := rest))
  have hall : ∀ c ∈ rest.takeWhile isDigit, isDigit c = true :=
    List.all_eq_true.mp List.all_takeWhile
  cases hdrop : rest.drop (rest.takeWhile isDigit).length with
  | nil => simp [byteString, isDigit, hdrop] at hfault
  | cons c back =>
    by_cases hc : c = '\\'
    · rw [hdrop, hc] at hsplit
      exact ⟨_, back, hsplit.symm, hall⟩
    · simp [byteString, isDigit, hdrop, hc] at hfault

theorem byteString_respaced (hfault : (byteString rest).fault = none) (behind : List Char) :
    byteString (rest.take (byteString rest).extra ++ behind) = byteString rest := by
  obtain ⟨digits, back, rfl, hdigits⟩ := exists_byteString_closed hfault
  rw [(byteString_closed hdigits back).2, List.take_length_add_append, List.take_succ_cons,
    List.take_zero, List.append_assoc, List.singleton_append, (byteString_closed hdigits behind).1,
    (byteString_closed hdigits back).1]

section Blank

variable (hb : isBlank b = true) (behind : List Char)
include hb

theorem number_respaced (first : Char) (rest : List Char) :
    number first (rest.take (number first rest).extra ++ b :: behind) = number first rest := by
  have hdigits := takeWhile_take_append (p := fun c => c.isDigit || c == '.')
    (by decide) hb rest behind
  simp only [number, hdigits]

theorem hexNumber_respaced (first x : Char) (rest : List Char) :
    hexNumber first ((x :: rest).take (hexNumber first (x :: rest)).extra ++ b :: behind) =
      hexNumber first (x :: rest) := by
  have hdigits := takeWhile_take_append (p := Char.isAlphanum) (by decide) hb rest behind
  have hread {z : List Char}
      (hz : z.takeWhile Char.isAlphanum = rest.takeWhile Char.isAlphanum) :
      hexNumber first (x :: z) = ⟨.hexNumber, (rest.takeWhile Char.isAlphanum).length + 1,
        (hexNumber first (x :: rest)).fault⟩ := by
    have hle := hz ▸ length_takeWhile_le Char.isAlphanum z
    simp only [hexNumber, List.drop_succ_cons, List.drop_zero, List.length_cons,
      List.take_succ_cons, List.take_zero, hz, Lexeme.mk.injEq, and_true, true_and]
    omega
  rw [hread rfl, List.take_succ_cons, List.cons_append]
  exact hread hdigits

theorem word_respaced (first : Char) (rest : List Char) :
    word first (rest.take (word first rest).extra ++ b :: behind) = word first rest := by
  have hname := takeWhile_take_append (p := isNameChar) (by decide) hb rest behind
  rw [take_extra_word, List.prefix_iff_eq_take.mp (List.takeWhile_prefix isNameChar)]
  simp only [word, hname]

/-- An `@` that stands for itself gives back the name behind it, and a blank is no name. -/
theorem atName_respaced (rest : List Char) :
    atName (rest.take (atName rest).extra ++ b :: behind) = atName rest := by
  have hname := takeWhile_take_append (p := isNameChar) (by decide) hb rest behind
  by_cases hsystem : Builtin.isSystemVariable
      (String.ofList ('@' :: rest.takeWhile isNameChar)) = true
  · simp only [atName, if_pos hsystem, hname]
  · have hblank : (b :: behind).takeWhile isNameChar = [] :=
      List.takeWhile_cons_of_neg (by simp [not_of_isBlank (p := isNameChar) (by decide) hb])
    simp only [atName, if_neg hsystem, List.take_zero, List.nil_append, hblank]
    rw [if_neg (by decide)]

theorem directive_respaced (rest : List Char) :
    directive (rest.take (directive rest).extra ++ b :: behind) = directive rest := by
  have hname := takeWhile_take_append (p := fun c => isAlphanumeric c || c == '_')
    (by decide) hb rest behind
  have hextra : (directive rest).extra =
      (rest.takeWhile fun c => isAlphanumeric c || c == '_').length := by
    unfold directive
    dsimp only
    split <;> rfl
  rw [hextra]
  simp only [directive, hname]

/-- A sign goes on with a second one only, and never with a blank. -/
theorem operator_respaced (first : Char) (rest : List Char) :
    operator first (rest.take (operator first rest).extra ++ b :: behind) =
      operator first rest := by
  -- a sign is read by itself or together with the character behind it
  cases hdouble : doubleSign? first rest with
  | none =>
    have hnone : doubleSign? first (b :: behind) = none := by
      refine doubleSign?_of_notMem fun hsign => ?_
      have hrows : ∀ row ∈ signs, isBlank row.1 = false := by decide
      obtain ⟨row, hrow, rfl⟩ := List.mem_map.mp hsign
      rw [hrows row hrow] at hb
      cases hb
    have hextra : (operator first rest).extra = 0 := by
      rw [operator, hdouble]
      dsimp only
      split <;> rfl
    rw [hextra, List.take_zero, List.nil_append, operator, operator, hdouble, hnone]
  | some kind =>
    have hextra : (operator first rest).extra = 1 := by rw [operator, hdouble]
    cases rest with
    | nil => cases hdouble
    | cons next more =>
      have hsame : doubleSign? first (next :: b :: behind) = some kind := by
        have hgreater : ¬ (first = '>' ∧ next = '<' ∧ (b :: behind).head? = some '>') := by
          rintro ⟨-, -, hhead⟩
          rw [Option.some.inj hhead] at hb
          cases hb
        rw [doubleSign?] at hdouble ⊢
        rw [if_neg hgreater]
        split at hdouble
        · cases hdouble
        · exact hdouble
      rw [hextra, List.take_succ_cons, List.take_zero, List.singleton_append, operator, operator,
        hdouble, hsame]

/-- What comes next and is no blank belongs to the lexeme. -/
theorem head?_of_take_append {d : Char} (hd : isBlank d = false) {n : Nat}
    (h : (rest.take n ++ b :: behind).head? = some d) : rest.head? = some d := by
  have hne : b ≠ d := fun heq => by rw [← heq, hb] at hd; cases hd
  cases n with
  | zero => exact absurd (Option.some.inj h) hne
  | succ n =>
    cases rest with
    | nil => exact absurd (Option.some.inj h) hne
    | cons c rest => exact h

end Blank

/-- What comes next does so in front of anything, if the lexeme goes on at all. -/
theorem head?_take_append {d : Char} {n : Nat} (hn : 0 < n) (h : rest.head? = some d)
    (behind : List Char) : (rest.take n ++ behind).head? = some d := by
  obtain ⟨n, rfl⟩ := Nat.exists_eq_add_of_lt hn
  cases rest with
  | nil => cases h
  | cons c rest => exact h

theorem isBlank_of_isDigit {c : Char} (hc : c.isDigit = true) : isBlank c = false := by
  refine Bool.eq_false_iff.mpr fun hblank => ?_
  rw [not_of_isBlank (p := Char.isDigit) (by decide) hblank] at hc
  cases hc

theorem extra_hexNumber_pos (first x : Char) (more : List Char) :
    0 < (hexNumber first (x :: more)).extra :=
  Nat.lt_min.mpr ⟨Nat.succ_pos _, Nat.lt_add_right _ Nat.zero_lt_one⟩

theorem extra_number_pos (first : Char) {d : Char} (hd : d.isDigit = true) (more : List Char) :
    0 < (number first (d :: more)).extra := by
  show 0 < ((d :: more).takeWhile _).length
  rw [List.takeWhile_cons_of_pos (by rw [hd, Bool.true_or])]
  exact Nat.succ_pos _

/-- A `|` is part of the trivia unless it is in the wrong place. -/
theorem continuation_cases (rest : List Char) :
    (continuation rest).kind.isTrivia = true ∨ (continuation rest).fault ≠ none := by
  unfold continuation
  dsimp only
  split
  · exact .inl rfl
  · split
    · exact .inl rfl
    · exact .inr (Option.some_ne_none _)

/-- **A primary lexeme is read again from its own text** in front of a blank, whatever it was glued
    to before. -/
theorem read_respaced {atStart : Bool} {first : Char} {found : Lexeme}
    (hprimary : found.kind.isTrivia = false) (hfault : found.fault = none)
    (h : read atStart first rest = found) (hb : isBlank b = true) (behind : List Char) :
    read atStart first (rest.take found.extra ++ b :: behind) = found := by
  have hother {found' : Lexeme} (hkind : found'.kind.isTrivia = true) : found' ≠ found := by
    rintro rfl
    rw [hprimary] at hkind
    cases hkind
  have hhead {d : Char} (hd : isBlank d = false)
      (h : (rest.take found.extra ++ b :: behind).head? = some d) : rest.head? = some d :=
    head?_of_take_append hb behind hd h
  unfold read at h ⊢
  revert h
  -- one test behind another, as the lexer makes them
  refine ite_eq_of_ite_eq Iff.rfl (fun _ h => h) ?_
  refine ite_eq_of_imp (fun hno hq => hno ⟨hq.1, hhead rfl hq.2⟩)
    (fun _ h => absurd h (hother rfl)) ?_
  refine ite_eq_of_ite_eq Iff.rfl (fun _ h => absurd h (hother rfl)) ?_
  refine ite_eq_of_ite_eq Iff.rfl (fun hquote h => ?_) ?_
  · subst h
    exact literal_respaced hquote hfault _
  refine ite_eq_of_ite_eq Iff.rfl (fun _ h => ?_) ?_
  · subst h
    exact byteString_respaced hfault _
  refine ite_eq_of_imp (fun hno hq => hno ⟨hq.1, hq.2.imp (hhead rfl) (hhead rfl)⟩)
    (fun hp h => ?_) ?_
  · subst h
    cases rest with
    | nil => exact absurd hp.2 (by simp)
    | cons x more =>
      have hnext {d : Char} (h : (x :: more).head? = some d) :=
        head?_take_append (extra_hexNumber_pos first x more) h (b :: behind)
      exact ⟨⟨hp.1, hp.2.imp hnext hnext⟩, hexNumber_respaced hb behind first x more⟩
  refine ite_eq_of_imp (fun hno hq => hno (hq.imp_right fun hpoint => ⟨hpoint.1, ?_⟩))
    (fun hp h => ⟨hp.imp_right fun hpoint => ⟨hpoint.1, ?_⟩, ?_⟩) ?_
  · obtain ⟨d, hd, hdigit⟩ := (Option.any_eq_true _ _).mp hpoint.2
    exact (Option.any_eq_true _ _).mpr ⟨d, hhead (isBlank_of_isDigit hdigit) hd, hdigit⟩
  · subst h
    obtain ⟨d, hd, hdigit⟩ := (Option.any_eq_true _ _).mp hpoint.2
    refine (Option.any_eq_true _ _).mpr ⟨d, head?_take_append ?_ hd _, hdigit⟩
    obtain ⟨more, rfl⟩ := List.head?_eq_some_iff.mp hd
    exact extra_number_pos first hdigit more
  · subst h
    exact number_respaced hb behind first rest
  refine ite_eq_of_ite_eq Iff.rfl (fun _ h => ?_) ?_
  · subst h
    exact word_respaced hb behind first rest
  refine ite_eq_of_ite_eq Iff.rfl (fun _ h => ?_) ?_
  · subst h
    exact atName_respaced hb behind rest
  refine ite_eq_of_ite_eq Iff.rfl (fun _ h => ?_) ?_
  · subst h
    exact directive_respaced hb behind rest
  refine ite_eq_of_ite_eq Iff.rfl (fun _ h => ?_) fun h => ?_
  · subst h
    rcases continuation_cases rest with hkind | hwrong
    · exact absurd rfl (hother hkind)
    · exact absurd hfault hwrong
  · subst h
    exact operator_respaced hb behind first rest

end Lexeme

/-! ## 2. Pieces -/

/-- Some texts one behind the other, each followed by a blank. -/
def spaced (texts : List String) : String := String.join (texts.map (· ++ " "))

theorem toList_spaced_cons (text : String) (texts : List String) :
    (spaced (text :: texts)).toList = text.toList ++ ' ' :: (spaced texts).toList := by
  simp [spaced]

namespace Piece

variable {ctx : LexContext} {cs : List Char} {file : Nat} {place : Place} {pieces : List Piece}

/-- A blank is passed over. -/
theorem shapes_ofChars_blank {b : Char} (hb : isBlank b = true) (rest : List Char) :
    shapes (ofChars ctx (b :: rest)) = shapes (ofChars ctx rest) := by
  rw [← shapes_ofChars_dropWhile, List.dropWhile_cons_of_pos hb, shapes_ofChars_dropWhile]

/-- The shapes of the primary lexemes among some pieces. -/
def primaryShapes (pieces : List Piece) : List (Kind × String) :=
  ((shapes pieces).map Prod.fst).filter (!·.1.isTrivia)

/-- **The primary lexemes of a text, written down with blanks between them, are read again** where
    the text was. -/
theorem shapes_ofChars_spaced (hfaults : ∀ found ∈ shapes (ofChars ctx cs), found.2 = none) :
    shapes (ofChars ctx (spaced ((primaryShapes (ofChars ctx cs)).map Prod.snd)).toList) =
      (primaryShapes (ofChars ctx cs)).map (·, none) := by
  fun_induction ofChars ctx cs with
  | case1 => rw [spaced]; exact congrArg shapes (ofChars.eq_1 _)
  | case2 ctx c rest _ ih => exact ih hfaults
  | case3 ctx c rest _ _ ih => exact ih hfaults
  | case4 ctx c rest hblank hfeed found =>
    rename_i ih
    have hlater := ih fun shape hshape => hfaults shape (List.mem_cons_of_mem _ hshape)
    cases htrivia : found.kind.isTrivia with
    | true =>
      -- trivia are left out, and the context is as if they had never been there
      have hpush : ctx.push found.kind = ctx := if_pos htrivia
      have hskip : primaryShapes (lexeme found.kind (c :: rest.take found.extra) found.fault ::
          ofChars (ctx.push found.kind) (rest.drop found.extra)) =
          primaryShapes (ofChars ctx (rest.drop found.extra)) := by
        rw [hpush]
        exact List.filter_cons_of_neg (by simp [htrivia])
      rw [hpush] at hlater
      rw [hskip, hlater]
    | false =>
      have hkeep : primaryShapes (lexeme found.kind (c :: rest.take found.extra) found.fault ::
          ofChars (ctx.push found.kind) (rest.drop found.extra)) =
          (found.kind, String.ofList (c :: rest.take found.extra)) ::
            primaryShapes (ofChars (ctx.push found.kind) (rest.drop found.extra)) :=
        List.filter_cons_of_pos (by simp [htrivia])
      have hfault : found.fault = none := hfaults _ List.mem_cons_self
      have hextra : (rest.take found.extra).length = found.extra :=
        List.length_take_of_le (Lexeme.extra_read_le _ _ _)
      have hread : Lexeme.read ctx.atStart c (rest.take found.extra ++ ' ' ::
          (spaced ((primaryShapes (ofChars (ctx.push found.kind)
            (rest.drop found.extra))).map Prod.snd)).toList) =
          ⟨found.kind, (rest.take found.extra).length, none⟩ := by
        rw [hextra, ← hfault]
        exact Lexeme.read_respaced htrivia hfault rfl rfl _
      rw [hkeep, List.map_cons, toList_spaced_cons, String.toList_ofList,
        shapes_ofChars_cons (Bool.not_eq_true _ ▸ hblank) (Bool.not_eq_true _ ▸ hfeed) hread,
        shapes_ofChars_blank rfl, hlater, List.map_cons]

/-- The shapes of the tokens are those of the lexemes. -/
theorem map_shape_tokensFrom (file : Nat) (place : Place) (pieces : List Piece) :
    (tokensFrom file place pieces).map Token.shape = (shapes pieces).map Prod.fst := by
  induction pieces generalizing place with
  | nil => rfl
  | cons piece pieces ih =>
    cases piece with
    | space text => exact ih _
    | lexeme kind text fault => exact congrArg _ (ih _)

/-- Where nothing is wrong, no lexeme has a fault. -/
theorem fault_of_faultsFrom_eq_nil (h : faultsFrom file place pieces = []) :
    ∀ found ∈ shapes pieces, found.2 = none := by
  induction pieces generalizing place with
  | nil => exact fun _ hfound => absurd hfound List.not_mem_nil
  | cons piece pieces ih =>
    cases piece with
    | space text => exact ih h
    | lexeme kind text fault =>
      cases fault with
      | some cause => cases h
      | none => exact List.forall_mem_cons.mpr ⟨rfl, ih h⟩

end Piece

/-! ## 3. Texts -/

namespace Lexed

variable {source : String} {file : Nat}

/-- The texts of the primary tokens but the end of the file, each followed by a blank. -/
def respaced (lexed : Lexed) : String :=
  spaced ((lexed.primary.filter (·.kind != .endOfFile)).map Token.text)

/-- **Token boundaries survive respacing.** Where nothing is wrong with a text, its primary tokens
    written one behind the other, each with a blank behind it, are read as the same kinds and texts.
    Nothing is wrong with the new text, and it has no other tokens. -/
theorem shapes_respaced (hfaults : (ofText source file).faults = []) (file' : Nat) :
    let again := ofText (ofText source file).respaced file'
    again.faults = [] ∧
      again.tokens.map Token.shape = (ofText source file).primary.map Token.shape := by
  intro again
  let pieces := Piece.ofChars .initial source.toList
  let stop := Place.origin.after source.toList
  let lexemes := (Piece.tokensFrom file .origin pieces).filter (!·.kind.isTrivia)
  have hprimary : (ofText source file).primary = lexemes ++ [.endAt ⟨stop, stop, file⟩] :=
    List.filter_append _ _
  have hshapes : lexemes.map Token.shape = Piece.primaryShapes pieces := by
    rw [Piece.primaryShapes, ← Piece.map_shape_tokensFrom file .origin,
      List.filter_map]
    rfl
  -- the only token without a text is left out
  have hlexemes : lexemes.filter (·.kind != .endOfFile) = lexemes := by
    refine List.filter_eq_self.mpr fun t ht => bne_iff_ne.mpr ?_
    exact Piece.kind_ne_of_mem_tokensFrom (fun _ _ _ h => Piece.kind_ne_of_mem_ofChars h)
      (List.mem_of_mem_filter ht)
  have htexts : (ofText source file).respaced =
      spaced ((Piece.primaryShapes pieces).map Prod.snd) := by
    rw [respaced, hprimary, List.filter_append, hlexemes, ← hshapes, List.map_map]
    exact congrArg (fun tokens => spaced (tokens.map Token.text)) (List.append_nil lexemes)
  have hread := Piece.shapes_ofChars_spaced (Piece.fault_of_faultsFrom_eq_nil hfaults)
  obtain ⟨htokens, hnone⟩ := shapes_tokensFrom file' .origin (htexts ▸ hread)
  refine ⟨hnone, ?_⟩
  rw [hprimary, List.map_append, hshapes, ← htokens]
  exact List.map_append

/-- A label with a comment behind it, a `>` in front of `<>`, an `@` in front of a name, and a
    literal that goes on in the next line. -/
theorem shapes_respaced_glued :
    let source := "a:* c\n\nb=x<1><>2;@no='p|\nq'/*d*/+-.5\n"
    let again := ofText "a : \n b = x < 1 > <> 2 ; @ no = 'p|\nq' + - .5 \n " 1
    (ofText source 0).faults = [] ∧ again.faults = [] ∧
      again.tokens.map Token.shape = (ofText source 0).primary.map Token.shape := by
  intro source again
  have hfaults : (ofText source 0).faults = [] := by decide +kernel
  have hrespaced : (ofText source 0).respaced =
      "a : \n b = x < 1 > <> 2 ; @ no = 'p|\nq' + - .5 \n " := by decide +kernel
  have hagain := shapes_respaced hfaults 1
  rw [hrespaced] at hagain
  exact ⟨hfaults, hagain⟩

end Lexed

end BasicCheck
