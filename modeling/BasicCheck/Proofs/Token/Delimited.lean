import BasicCheck.Proofs.Token.Interposed

/-!
# Words, literals and signs on a line

A word or a literal is read as such wherever nothing follows that a name could go on with
(`Lexeme.read_append_of_delimited`), a sign wherever what follows makes no longer sign of it
(`Lexeme.read_sign`).
So a line is read as the lexemes that it is put together from: one rule for each of them
(`lexes_word`, `lexes_sign`, `lexes_doubleSign`, `lexes_blank`), and one that puts two stretches
together (`Lexes.append`). Only kinds and texts are told here; where the tokens stand makes no
difference to them (`Lexed.exists_primary`).
-/

namespace BasicCheck

/-! ## 1. Lexemes by themselves -/

/-- A text is one lexeme of a given kind, and nothing is wrong with it. -/
def IsLexeme (kind : Kind) (text : String) : Prop :=
  ∃ first more, text.toList = first :: more ∧
    Lexeme.read false first more = ⟨kind, more.length, none⟩

/-- Kinds of words and literals. Nothing but a character of a name can make their lexemes longer. -/
def Kind.isWordOrLiteral : Kind → Bool
  | keyword _ | ident | number | hexNumber | string => true
  | _ => false

/-- Nothing comes next that a name could go on with. -/
def Delimited (rest : List Char) : Prop := ∀ c ∈ rest.head?, isNameChar c = false

theorem delimited_cons {c : Char} (hc : isNameChar c = false) (rest : List Char) :
    Delimited (c :: rest) := by
  intro d hd
  cases hd
  exact hc

/-- ASCII letters and digits may stand in names. -/
theorem isNameChar_of_isAlphanum {c : Char} (h : c.isAlphanum = true) : isNameChar c = true := by
  have hascii : c.val < 128 := by
    delta Char.isAlphanum Char.isAlpha Char.isUpper Char.isLower Char.isDigit at h
    simp only [Bool.or_eq_true, Bool.and_eq_true, decide_eq_true_eq] at h
    rw [UInt32.lt_iff_toNat_lt]
    simp only [ge_iff_le, UInt32.le_iff_toNat_le] at h
    change _ < 128
    rcases h with (⟨-, h⟩ | ⟨-, h⟩) | ⟨-, h⟩ <;> exact Nat.lt_of_le_of_lt h (by decide)
  rw [isNameChar, isAlphanumeric, Text.isAlphabetic_of_ascii hascii, Text.isNumeric_of_ascii hascii]
  rw [Char.isAlphanum] at h
  rw [h]
  rfl

namespace Lexeme

/-! ## 2. Words and literals in front of a delimiter -/

section Append

variable {first quote : Char} {more rest : List Char}

/-- A stretch that takes a whole text ends with it in front of a character of another sort. -/
theorem takeWhile_append_of_all {p : Char → Bool} (hall : (more.takeWhile p).length = more.length)
    (hrest : ∀ c ∈ rest.head?, p c = false) : (more ++ rest).takeWhile p = more.takeWhile p := by
  rw [List.takeWhile_append, if_pos hall, (List.takeWhile_prefix p).eq_of_length hall]
  cases rest with
  | nil => rw [List.takeWhile_nil, List.append_nil]
  | cons c rest => rw [List.takeWhile_cons_of_neg (by simp [hrest c rfl]), List.append_nil]

/-- Where a delimiter comes next, no character of a name does. -/
theorem head?_append_of_delimited (hrest : Delimited rest) {c : Char} (hc : isNameChar c = true) :
    (more ++ rest).head? = some c ↔ more.head? = some c := by
  cases more with
  | nil =>
    refine ⟨fun h => ?_, nofun⟩
    rw [hrest c h] at hc
    cases hc
  | cons d more => rfl

theorem isNameChar_of_isDigit {c : Char} (hc : c.isDigit = true) : isNameChar c = true :=
  isNameChar_of_isAlphanum (by rw [Char.isAlphanum, hc, Bool.or_true])

/-- Whether a number in hexadecimal digits is opened does not depend on what follows. -/
theorem opensHexNumber_append (hrest : Delimited rest) :
    (first = '0' ∧ (more.head? = some 'x' ∨ more.head? = some 'X')) ↔
      (first = '0' ∧ ((more ++ rest).head? = some 'x' ∨ (more ++ rest).head? = some 'X')) := by
  rw [head?_append_of_delimited hrest (by decide), head?_append_of_delimited hrest (by decide)]

/-- Nor does it whether a number is. -/
theorem opensNumber_append (hrest : Delimited rest) :
    (first.isDigit = true ∨ first = '.' ∧ more.head?.any Char.isDigit = true) ↔
      (first.isDigit = true ∨ first = '.' ∧ (more ++ rest).head?.any Char.isDigit = true) := by
  have hany : more.head?.any Char.isDigit = true ↔
      (more ++ rest).head?.any Char.isDigit = true := by
    simp only [Option.any_eq_true]
    exact exists_congr fun c => and_congr_left fun hc =>
      (head?_append_of_delimited hrest (isNameChar_of_isDigit hc)).symm
  rw [hany]

theorem number_append_of_delimited (hall : (number first more).extra = more.length)
    (hrest : Delimited rest) : number first (more ++ rest) = number first more := by
  have hdigits := takeWhile_append_of_all (p := fun c => c.isDigit || c == '.') hall fun c hc => by
    by_contra htrue
    rw [Bool.not_eq_false, Bool.or_eq_true] at htrue
    have hname := hrest c hc
    rcases htrue with hdigit | hpoint
    · rw [isNameChar_of_isDigit hdigit] at hname
      cases hname
    · rw [eq_of_beq hpoint] at hname
      exact absurd hname (by decide)
  unfold number
  rw [hdigits]

theorem hexNumber_append_of_delimited {x : Char}
    (hall : (hexNumber first (x :: more)).extra = (x :: more).length) (hrest : Delimited rest) :
    (hexNumber first (x :: more ++ rest)) = hexNumber first (x :: more) := by
  simp only [hexNumber, List.drop_succ_cons, List.drop_zero, List.length_cons] at hall
  have hle := (List.takeWhile_prefix Char.isAlphanum (l := more)).length_le
  have hdigits : (more ++ rest).takeWhile Char.isAlphanum = more.takeWhile Char.isAlphanum :=
    takeWhile_append_of_all (by omega) fun c hc => by
      by_contra htrue
      have hname := hrest c hc
      rw [isNameChar_of_isAlphanum (Bool.not_eq_false _ ▸ htrue)] at hname
      cases hname
  simp only [hexNumber, List.cons_append, List.drop_succ_cons, List.drop_zero, hdigits,
    List.length_cons, List.length_append, List.take_succ_cons, List.take_zero, Lexeme.mk.injEq,
    and_true, true_and]
  omega

theorem byteString_append_of_closed (hfault : (byteString more).fault = none) :
    byteString (more ++ rest) = byteString more := by
  let isDigit (c : Char) : Bool := c != '\\' && c != '\n'
  have hclosed : (more.takeWhile isDigit).length < more.length := by
    by_contra hall
    have hdrop : more.drop (more.takeWhile isDigit).length = [] :=
      List.drop_eq_nil_of_le (Nat.not_lt.mp hall)
    simp [byteString, isDigit, hdrop] at hfault
  have hdigits : (more ++ rest).takeWhile isDigit = more.takeWhile isDigit :=
    takeWhile_append_of_length_lt
      (show ((more ++ []).takeWhile isDigit).length < _ by rw [List.append_nil]; exact hclosed) rest
  have hclosing :
      ((more.drop (more.takeWhile isDigit).length ++ rest).takeWhile (· == '\\')).take 1 =
        ((more.drop (more.takeWhile isDigit).length).takeWhile (· == '\\')).take 1 :=
    take_takeWhile_append (by simpa using hclosed) rest
  show (byteString (more ++ rest)) = _
  unfold byteString
  dsimp only
  rw [hdigits, List.drop_append_of_le_length (Nat.le_of_lt hclosed), hclosing]

theorem word_append_of_delimited (hall : (word first more).extra = more.length)
    (hrest : Delimited rest) : word first (more ++ rest) = word first more := by
  have hlength : (more.takeWhile isNameChar).length = more.length := by
    unfold word at hall
    dsimp only at hall
    split at hall
    · split at hall <;> exact hall
    · exact hall
  unfold word
  rw [takeWhile_append_of_all hlength hrest]

/-- A literal that is closed ends with its quote, whatever follows. -/
theorem literalLength_append_of_closed (hquote : quote = '"' ∨ quote = '\'')
    (hclosed : (literalLength quote more).2 = true) :
    literalLength quote (more ++ rest) = literalLength quote more := by
  have hbar : '|' ≠ quote := by rcases hquote with rfl | rfl <;> decide
  have hreturn : '\r' ≠ quote := by rcases hquote with rfl | rfl <;> decide
  fun_induction literalLength quote more with
  | case1 more ih => rw [List.cons_append, List.cons_append, literalLength, ih hclosed]
  | case2 more ih =>
    rw [List.cons_append, List.cons_append, List.cons_append, literalLength, ih hclosed]
  | case3 more hfeed hfeed' =>
    rw [List.cons_append, literalLength_cons fun heq => absurd heq.symm hbar, if_pos rfl]
  | case4 more hne hfeed hfeed' => cases hclosed
  | case5 c more hfeed hfeed' hne hnot ih =>
    -- a `|` whose line break is cut off is followed by nothing that closes the literal
    have hplain : c = '|' → ∀ z, more ++ rest ≠ '\n' :: z ∧ more ++ rest ≠ '\r' :: '\n' :: z := by
      intro heq z
      cases more with
      | nil => cases hclosed
      | cons d more =>
        refine ⟨fun hcut => ?_, fun hcut => ?_⟩
        · obtain ⟨rfl, -⟩ := List.cons.inj hcut
          exact hfeed more heq rfl
        · obtain ⟨rfl, hfront⟩ := List.cons.inj hcut
          cases more with
          | nil => simp [longer, literalLength, hreturn] at hclosed
          | cons d more =>
            obtain ⟨rfl, -⟩ := List.cons.inj hfront
            exact hfeed' more heq rfl
    rw [List.cons_append, literalLength_cons hplain, if_neg hne, if_neg hnot, ih hclosed]
  | case6 => cases hclosed

theorem literal_append_of_closed (hquote : quote = '"' ∨ quote = '\'')
    (hfault : (literal quote more).fault = none) :
    literal quote (more ++ rest) = literal quote more := by
  have hclosed : (literalLength quote more).2 = true := by
    by_contra hopen
    simp [literal, hopen] at hfault
  simp only [literal, literalLength_append_of_closed hquote hclosed]

end Append

/-- No sign is a word or a literal. -/
theorem isWordOrLiteral_operator (first : Char) (rest : List Char) :
    (operator first rest).kind.isWordOrLiteral = false :=
  kind_operator first rest (p := fun kind => kind.isWordOrLiteral = false) rfl (by decide)
    (by decide)

theorem isWordOrLiteral_atName (rest : List Char) :
    (atName rest).kind.isWordOrLiteral = false := by
  unfold atName
  dsimp only
  split <;> rfl

theorem isWordOrLiteral_directive (rest : List Char) :
    (directive rest).kind.isWordOrLiteral = false := by
  unfold directive
  dsimp only
  split <;> rfl

theorem isWordOrLiteral_continuation (rest : List Char) :
    (continuation rest).kind.isWordOrLiteral = false := by
  unfold continuation
  dsimp only
  split
  · rfl
  · split <;> rfl

/-- A sign is read as an operator unless it opens a comment. -/
theorem read_sign {first : Char} {rest : List Char} (hsign : first ∈ signs.map Prod.fst)
    (hcomment : first = '/' → rest.head? ≠ some '*') :
    read false first rest = operator first rest := by
  have hplain : ∀ row ∈ signs, row.1 ≠ '\n' ∧ ¬ (row.1 = '"' ∨ row.1 = '\'') ∧ row.1 ≠ '\\' ∧
      row.1 ≠ '0' ∧ ¬ (row.1.isDigit = true ∨ row.1 = '.') ∧
      ¬ (Text.isAlphabetic row.1 = true ∨ row.1 = '_') ∧ row.1 ≠ '@' ∧ row.1 ≠ '$' ∧
      row.1 ≠ '|' := by decide
  obtain ⟨row, hrow, rfl⟩ := List.mem_map.mp hsign
  obtain ⟨hfeed, hquote, hbytes, hzero, hdigit, hletter, hat, hdollar, hbar⟩ := hplain row hrow
  unfold read
  rw [if_neg hfeed, if_neg fun h => hcomment h.1 h.2, if_neg fun h => Bool.false_ne_true h.1,
    if_neg hquote, if_neg hbytes, if_neg fun h => hzero h.1,
    if_neg fun h => hdigit (h.imp_right And.left), if_neg hletter, if_neg hat, if_neg hdollar,
    if_neg hbar]

/-- What is a word or a literal by itself does not start with a sign. -/
theorem notMem_signs {first : Char} {more : List Char}
    (hkind : (read false first more).kind.isWordOrLiteral = true) :
    first ∉ signs.map Prod.fst := by
  intro hsign
  by_cases hcomment : first = '/' ∧ more.head? = some '*'
  · obtain ⟨rfl, hstar⟩ := hcomment
    unfold read at hkind
    rw [if_neg (by decide), if_pos ⟨rfl, hstar⟩] at hkind
    cases hkind
  · rw [read_sign hsign fun heq hstar => hcomment ⟨heq, hstar⟩, isWordOrLiteral_operator] at hkind
    cases hkind

/-- Nor does it open a comment at the start of a statement. -/
theorem not_opensComment {first : Char} {more : List Char}
    (hkind : (read false first more).kind.isWordOrLiteral = true) :
    ¬ (first = '*' ∨ first = '!' ∨ first = '/') := by
  have hsigns := notMem_signs hkind
  rintro (rfl | rfl | rfl)
  · exact hsigns (by decide)
  · rw [show read false '!' more = operator '!' more from rfl, isWordOrLiteral_operator] at hkind
    cases hkind
  · exact hsigns (by decide)

/-- Only signs make a longer sign of a sign. -/
theorem doubleSign?_of_notMem {first next : Char} {more : List Char}
    (hnext : next ∉ signs.map Prod.fst) : doubleSign? first (next :: more) = none := by
  have hsecond : ∀ row ∈ doubleSigns, row.1.2 ∈ signs.map Prod.fst := by decide
  unfold doubleSign?
  split
  · rfl
  · rename_i heq
    obtain ⟨rfl, rfl⟩ := List.cons.inj heq
    split
    · rfl
    · refine List.lookup_eq_none_iff.mpr fun row hrow => bne_iff_ne.mpr fun heq => hnext ?_
      rw [show next = row.1.2 from congrArg Prod.snd heq]
      exact hsecond row hrow

/-- One test, made of two texts: each way that it may go in the first one, it goes in the second one,
    too, and leads to the same lexeme. -/
theorem ite_eq_of_imp {p q : Prop} [Decidable p] [Decidable q] {a b a' b' found : Lexeme}
    (hno : ¬ p → ¬ q) (ha : p → a = found → q ∧ a' = found) (hb : b = found → b' = found)
    (h : (if p then a else b) = found) : (if q then a' else b') = found := by
  by_cases hp : p
  · rw [if_pos hp] at h
    obtain ⟨hq, ha'⟩ := ha hp h
    rw [if_pos hq, ha']
  · rw [if_neg hp] at h
    rw [if_neg (hno hp), hb h]

/-- The same of a test that both texts decide in the same way. -/
theorem ite_eq_of_ite_eq {p q : Prop} [Decidable p] [Decidable q] {a b a' b' found : Lexeme}
    (hpq : p ↔ q) (ha : p → a = found → a' = found) (hb : b = found → b' = found)
    (h : (if p then a else b) = found) : (if q then a' else b') = found :=
  ite_eq_of_imp (mt hpq.mpr) (fun hp h => ⟨hpq.mp hp, ha hp h⟩) hb h

/-- **A word or a literal is read wherever a delimiter follows**, also at the start of a
    statement. -/
theorem read_append_of_delimited {first : Char} {more rest : List Char} {kind : Kind}
    (hread : read false first more = ⟨kind, more.length, none⟩)
    (hkind : kind.isWordOrLiteral = true) (hrest : Delimited rest) (atStart : Bool) :
    read atStart first (more ++ rest) = ⟨kind, more.length, none⟩ := by
  have hcomment : ¬ (first = '*' ∨ first = '!' ∨ first = '/') :=
    not_opensComment (by rw [hread]; exact hkind)
  have hslash : first ≠ '/' := fun h => hcomment (.inr (.inr h))
  have hother {found found' : Lexeme} (hfound : found.kind.isWordOrLiteral = false)
      (heq : found = ⟨kind, more.length, none⟩) : found' = ⟨kind, more.length, none⟩ := by
    rw [heq, hkind] at hfound
    cases hfound
  unfold read at hread ⊢
  revert hread
  -- one test behind another, as the lexer makes them
  refine ite_eq_of_ite_eq Iff.rfl (fun _ => hother rfl) ?_
  refine ite_eq_of_ite_eq (iff_of_false (fun h => hslash h.1) fun h => hslash h.1)
    (fun _ => hother rfl) ?_
  refine ite_eq_of_ite_eq (iff_of_false (fun h => Bool.false_ne_true h.1) fun h => hcomment h.2)
    (fun _ => hother rfl) ?_
  refine ite_eq_of_ite_eq Iff.rfl (fun hquote h => ?_) ?_
  · rw [literal_append_of_closed hquote (congrArg fault h), h]
  refine ite_eq_of_ite_eq Iff.rfl (fun _ h => ?_) ?_
  · rw [byteString_append_of_closed (congrArg fault h), h]
  refine ite_eq_of_ite_eq (opensHexNumber_append hrest) (fun hx h => ?_) ?_
  · cases more with
    | nil => exact absurd hx.2 (by simp)
    | cons x more => rw [hexNumber_append_of_delimited (congrArg extra h) hrest, h]
  refine ite_eq_of_ite_eq (opensNumber_append hrest) (fun _ h => ?_) ?_
  · rw [number_append_of_delimited (congrArg extra h) hrest, h]
  refine ite_eq_of_ite_eq Iff.rfl (fun _ h => ?_) ?_
  · rw [word_append_of_delimited (congrArg extra h) hrest, h]
  refine ite_eq_of_ite_eq Iff.rfl (fun _ => hother (isWordOrLiteral_atName more)) ?_
  refine ite_eq_of_ite_eq Iff.rfl (fun _ => hother (isWordOrLiteral_directive more)) ?_
  refine ite_eq_of_ite_eq Iff.rfl (fun _ => hother (isWordOrLiteral_continuation more)) ?_
  exact hother (isWordOrLiteral_operator first more)

end Lexeme

/-! ## 3. Lines -/

/-- A text within a line: no statement may start here, and none behind a colon. -/
structure LexContext.Inside (ctx : LexContext) : Prop where
  atStart : ctx.atStart = false
  last : ∃ kind, ctx.last = some kind ∧ kind ≠ .newline
  label : ctx.lastAtStart = true → ctx.last ≠ some .ident

namespace LexContext.Inside

variable {ctx : LexContext} {kind : Kind}

/-- Within a line every line feed counts. -/
theorem isRedundantNewline (h : ctx.Inside) (c : Char) : ctx.isRedundantNewline c = false := by
  obtain ⟨kind, hlast, hkind⟩ := h.last
  simp [LexContext.isRedundantNewline, hlast, hkind]

/-- Only separators end a line. -/
theorem push (h : ctx.Inside) (hkind : kind.isSeparator = false) (htrivia : kind.isTrivia = false) :
    (ctx.push kind).Inside := by
  unfold LexContext.push
  rw [htrivia, if_neg Bool.false_ne_true]
  refine ⟨?_, ⟨kind, rfl, ?_⟩, fun hstart => ?_⟩
  · have hlabel : (ctx.lastAtStart && ctx.last == some .ident) = false := by
      rw [Bool.and_eq_false_iff, ← Bool.not_eq_true, ← Bool.not_eq_true, ← imp_iff_not_or]
      exact fun hstart heq => h.label hstart (eq_of_beq heq)
    rw [hkind, Bool.false_or, Bool.and_assoc, hlabel, Bool.and_false]
  · rintro rfl
    cases hkind
  · exact absurd (h.atStart.symm.trans hstart) Bool.false_ne_true

end LexContext.Inside

/-- What is told of a token apart from its place. -/
def Token.shape (t : Token) : Kind × String := (t.kind, t.text)

/-- Kind, text and fault of each lexeme among some pieces. -/
def Piece.shapes (pieces : List Piece) : List ((Kind × String) × Option Cause) :=
  pieces.filterMap fun
    | space _ => none
    | lexeme kind text fault => some ((kind, String.ofList text), fault)

/-- Within a line and in front of a given text, another one is read as given lexemes. None of them is
    a comment, and nothing is wrong with them. -/
structure Lexes (text : List Char) (found : List (Kind × String)) (rest : List Char) : Prop where
  primary : ∀ shape ∈ found, shape.1.isTrivia = false
  read : ∀ ctx : LexContext, ctx.Inside → ∃ ctx' : LexContext, ctx'.Inside ∧
    Piece.shapes (Piece.ofChars ctx (text ++ rest)) =
      found.map (·, none) ++ Piece.shapes (Piece.ofChars ctx' rest)

section Rules

variable {text text' rest : List Char} {found found' : List (Kind × String)} {kind : Kind}

theorem Lexes.nil : Lexes [] [] rest := ⟨nofun, fun ctx hctx => ⟨ctx, hctx, rfl⟩⟩

theorem Lexes.append (h : Lexes text found (text' ++ rest)) (h' : Lexes text' found' rest) :
    Lexes (text ++ text') (found ++ found') rest := by
  refine ⟨fun shape hshape => ?_, fun ctx hctx => ?_⟩
  · exact (List.mem_append.mp hshape).elim (h.primary shape) (h'.primary shape)
  · obtain ⟨ctx', hctx', hshapes⟩ := h.read ctx hctx
    obtain ⟨ctx'', hctx'', hshapes'⟩ := h'.read ctx' hctx'
    refine ⟨ctx'', hctx'', ?_⟩
    rw [List.append_assoc, hshapes, hshapes', List.map_append, List.append_assoc]

/-- Blanks are passed over. -/
theorem shapes_ofChars_dropWhile (ctx : LexContext) (cs : List Char) :
    Piece.shapes (Piece.ofChars ctx (cs.dropWhile isBlank)) =
      Piece.shapes (Piece.ofChars ctx cs) := by
  cases cs with
  | nil => rfl
  | cons c rest =>
    by_cases hc : isBlank c = true
    · rw [List.dropWhile_cons_of_pos hc, Piece.ofChars, if_pos hc]
      rfl
    · rw [List.dropWhile_cons_of_neg hc]

theorem lexes_blank {c : Char} (hc : isBlank c = true) (rest : List Char) : Lexes [c] [] rest := by
  refine ⟨nofun, fun ctx hctx => ⟨ctx, hctx, ?_⟩⟩
  rw [List.map_nil, List.nil_append, List.singleton_append, ← shapes_ofChars_dropWhile,
    List.dropWhile_cons_of_pos hc, shapes_ofChars_dropWhile]

/-- What is found at the head of a text makes the first of its lexemes. -/
theorem shapes_ofChars_cons {ctx : LexContext} {c : Char} {more rest : List Char}
    (hblank : isBlank c = false) (hfeed : ctx.isRedundantNewline c = false)
    (hread : Lexeme.read ctx.atStart c (more ++ rest) = ⟨kind, more.length, none⟩) :
    Piece.shapes (Piece.ofChars ctx (c :: more ++ rest)) =
      ((kind, String.ofList (c :: more)), none) ::
        Piece.shapes (Piece.ofChars (ctx.push kind) rest) := by
  rw [List.cons_append, Piece.ofChars, hblank, if_neg Bool.false_ne_true, hfeed,
    if_neg Bool.false_ne_true]
  simp only [hread, List.take_left, List.drop_left]
  rfl

theorem lexes_of_read {c : Char} {more : List Char} (hblank : isBlank c = false)
    (hkind : kind.isSeparator = false) (htrivia : kind.isTrivia = false)
    (hread : Lexeme.read false c (more ++ rest) = ⟨kind, more.length, none⟩) :
    Lexes (c :: more) [(kind, String.ofList (c :: more))] rest := by
  refine ⟨List.forall_mem_singleton.mpr htrivia, fun ctx hctx => ?_⟩
  refine ⟨ctx.push kind, hctx.push hkind htrivia, ?_⟩
  rw [← hctx.atStart] at hread
  exact shapes_ofChars_cons hblank (hctx.isRedundantNewline c) hread

/-- Words and literals end no line and are no comments. -/
theorem Kind.of_isWordOrLiteral (h : kind.isWordOrLiteral = true) :
    kind.isSeparator = false ∧ kind.isTrivia = false := by
  cases kind <;> first | exact ⟨rfl, rfl⟩ | cases h

/-- A word or a literal does not start with a blank. -/
theorem isBlank_of_isWordOrLiteral {first : Char} {more : List Char}
    (h : (Lexeme.read false first more).kind.isWordOrLiteral = true) : isBlank first = false := by
  rw [← Bool.not_eq_true]
  intro hblank
  simp only [isBlank, Bool.or_eq_true, beq_iff_eq] at hblank
  have hoperator : Lexeme.read false first more = Lexeme.operator first more := by
    rcases hblank with ((rfl | rfl) | rfl) | rfl <;> rfl
  rw [hoperator, Lexeme.isWordOrLiteral_operator] at h
  cases h

theorem lexes_word {word : String} (h : IsLexeme kind word) (hkind : kind.isWordOrLiteral = true)
    (hrest : Delimited rest) : Lexes word.toList [(kind, word)] rest := by
  obtain ⟨first, more, hword, hread⟩ := h
  obtain ⟨hseparator, htrivia⟩ := Kind.of_isWordOrLiteral hkind
  have hblank := isBlank_of_isWordOrLiteral (by rw [hread]; exact hkind)
  have hlexes := lexes_of_read hblank hseparator htrivia
    (Lexeme.read_append_of_delimited hread hkind hrest false)
  rwa [← hword, String.ofList_toList] at hlexes

theorem lexes_sign {c : Char} (hsign : (c, kind) ∈ Lexeme.signs) (hkind : kind ≠ .semicolon)
    (hlonger : Lexeme.doubleSign? c rest = none) (hcomment : c = '/' → rest.head? ≠ some '*') :
    Lexes [c] [(kind, String.ofList [c])] rest := by
  have hrows : ∀ row ∈ Lexeme.signs, isBlank row.1 = false ∧
      (row.2 ≠ .semicolon → row.2.isSeparator = false) ∧ row.2.isTrivia = false ∧
      Lexeme.signs.lookup row.1 = some row.2 := by decide
  obtain ⟨hblank, hseparator, htrivia, hlookup⟩ := hrows _ hsign
  refine lexes_of_read hblank (hseparator hkind) htrivia ?_
  rw [List.nil_append, Lexeme.read_sign (List.mem_map_of_mem hsign) hcomment, Lexeme.operator,
    hlonger]
  dsimp only
  rw [hlookup]
  rfl

theorem lexes_doubleSign {c d : Char} (hsign : ((c, d), kind) ∈ Lexeme.doubleSigns)
    (hlonger : ¬ (c = '>' ∧ d = '<' ∧ rest.head? = some '>')) :
    Lexes [c, d] [(kind, String.ofList [c, d])] rest := by
  have hrows : ∀ row ∈ Lexeme.doubleSigns, isBlank row.1.1 = false ∧
      row.1.1 ∈ Lexeme.signs.map Prod.fst ∧ (row.1.1 = '/' → row.1.2 ≠ '*') ∧
      row.2.isSeparator = false ∧ row.2.isTrivia = false ∧
      Lexeme.doubleSigns.lookup row.1 = some row.2 := by decide
  obtain ⟨hblank, hfirst, hcomment, hseparator, htrivia, hlookup⟩ := hrows _ hsign
  refine lexes_of_read hblank hseparator htrivia ?_
  have hdouble : Lexeme.doubleSign? c (d :: rest) = some kind := by
    rw [Lexeme.doubleSign?, if_neg hlonger]
    exact hlookup
  have hopens : c = '/' → (d :: rest).head? ≠ some '*' :=
    fun hc heq => hcomment hc (Option.some.inj heq)
  rw [List.singleton_append, Lexeme.read_sign hfirst hopens, Lexeme.operator, hdouble]
  rfl

end Rules

/-! ## 4. Texts of one line -/

section Tokens

variable {pieces : List Piece} {found : List (Kind × String)}

/-- The tokens of some pieces have the shapes of their lexemes. -/
theorem shapes_tokensFrom (file : Nat) (place : Place)
    (h : Piece.shapes pieces = found.map (·, none)) :
    (Piece.tokensFrom file place pieces).map Token.shape = found ∧
      Piece.faultsFrom file place pieces = [] := by
  induction pieces generalizing place found with
  | nil =>
    rw [List.map_eq_nil_iff.mp h.symm]
    exact ⟨rfl, rfl⟩
  | cons piece pieces ih =>
    cases piece with
    | space text => exact ih _ h
    | lexeme kind text fault =>
      obtain ⟨shape, found, rfl, hshape, hrest⟩ := List.map_eq_cons_iff.mp h.symm
      obtain ⟨rfl, rfl⟩ := Prod.mk.inj hshape
      obtain ⟨htokens, hfaults⟩ := ih (place.after text) hrest.symm
      refine ⟨?_, hfaults⟩
      rw [Piece.tokensFrom, List.map_cons, htokens]
      rfl

/-- The lexemes of a line that a keyword opens, up to the line feed that ends the text. -/
theorem shapes_ofChars_line {word : String} {keyword : Keyword} {line : List Char}
    (hword : IsLexeme (.keyword keyword) word) (hdelimited : Delimited (line ++ ['\n']))
    (hline : Lexes line found ['\n']) :
    Piece.shapes (Piece.ofChars .initial (word.toList ++ (line ++ ['\n']))) =
      ((.keyword keyword, word) :: (found ++ [(.newline, "\n")])).map (·, none) := by
  obtain ⟨first, more, htext, hread⟩ := hword
  have hblank : isBlank first = false := isBlank_of_isWordOrLiteral (by rw [hread]; rfl)
  have hfeed : LexContext.initial.isRedundantNewline first = false := by
    rw [← Bool.not_eq_true]
    intro h
    simp only [LexContext.isRedundantNewline, Bool.and_eq_true, beq_iff_eq] at h
    rw [h.1] at hread
    cases hread
  have hinside : (LexContext.initial.push (.keyword keyword)).Inside :=
    ⟨rfl, ⟨_, rfl, fun h => by cases h⟩, fun _ h => by cases h⟩
  obtain ⟨ctx, hctx, hfound⟩ := hline.read _ hinside
  have hend : Piece.shapes (Piece.ofChars ctx ['\n']) = [((.newline, "\n"), none)] := by
    refine (@shapes_ofChars_cons .newline ctx '\n' [] [] rfl
      (hctx.isRedundantNewline _) rfl).trans ?_
    rw [Piece.ofChars]
    rfl
  rw [htext, shapes_ofChars_cons hblank hfeed
    (Lexeme.read_append_of_delimited hread rfl hdelimited true), hfound, hend, ← htext,
    String.ofList_toList, List.map_cons, List.map_append, List.map_singleton]

/-- **A line that a keyword opens is read as the tokens of its lexemes**, with nothing wrong. -/
theorem Lexed.exists_primary {source word : String} {keyword : Keyword} {line : List Char}
    (hsource : source.toList = word.toList ++ (line ++ ['\n']))
    (hword : IsLexeme (.keyword keyword) word) (hdelimited : Delimited (line ++ ['\n']))
    (hline : Lexes line found ['\n']) (file : Nat) :
    ∃ tokens stop, (Lexed.ofText source file).primary = tokens ++ [Token.endAt stop] ∧
      tokens.map Token.shape = (.keyword keyword, word) :: (found ++ [(.newline, "\n")]) ∧
      (Lexed.ofText source file).faults = [] := by
  have hshapes := shapes_ofChars_line hword hdelimited hline
  rw [← hsource] at hshapes
  obtain ⟨htokens, hfaults⟩ := shapes_tokensFrom file .origin hshapes
  let stop := Place.origin.after source.toList
  refine ⟨_, ⟨stop, stop, file⟩, ?_, htokens, hfaults⟩
  have hprimary : ∀ t ∈ Piece.tokensFrom file .origin (Piece.ofChars .initial source.toList),
      (!t.kind.isTrivia) = true := by
    intro t ht
    have hshape : t.shape ∈ _ := htokens ▸ List.mem_map_of_mem ht
    rw [Bool.not_eq_true']
    rcases List.mem_cons.mp hshape with heq | hshape
    · rw [show t.kind = _ from congrArg Prod.fst heq]
      rfl
    · rcases List.mem_append.mp hshape with hmem | hmem
      · exact hline.primary _ hmem
      · rw [show t.kind = _ from congrArg Prod.fst (List.mem_singleton.mp hmem)]
        rfl
  unfold Lexed.primary
  show List.filter _ (_ ++ [_]) = _
  rw [List.filter_append, List.filter_eq_self.mpr hprimary]
  rfl

end Tokens

end BasicCheck
