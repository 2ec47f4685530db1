import BasicCheck.Diagnostic
import BasicCheck.Proofs.LetterCase.Text
import BasicCheck.Proofs.Token.Reader

/-!
# Tokens of texts that differ in ASCII case

The tokens of a text with small letters are those of the text, with small letters themselves: no
kind, span or flag depends on ASCII case, and neither does what is wrong (**`Lexed.ofText_lower`**).
One lemma for each sort of lexeme says so of the token at the head of a text (`Lexeme.read_lower`),
and an induction over the text puts them together.
-/

namespace BasicCheck

open Text

/-! ## 1. Tokens and faults -/

/-- The token with small letters in its text. -/
def Token.lower (t : Token) : Token := { t with text := Text.lower t.text }

@[simp] theorem Token.text_lower (t : Token) : t.lower.text = Text.lower t.text := rfl

@[simp] theorem Token.lower_endAt (span : Span) : (Token.endAt span).lower = Token.endAt span := rfl

/-- The cause with small letters in what it quotes from the text. -/
def Cause.lower : Cause → Cause
  | malformedNumber text => malformedNumber (Text.lower text)
  | malformedHex text => malformedHex (Text.lower text)
  | invalidIdentifier name => invalidIdentifier (Text.lower name)
  | unknownDirective name => unknownDirective (Text.lower name)
  | unexpectedChar char => unexpectedChar char.toLower
  | unexpectedToken wanted got => unexpectedToken wanted (Text.lower got)
  | expectedSeparator got => expectedSeparator (Text.lower got)
  | nextMismatch wanted got => nextMismatch (Text.lower wanted) (Text.lower got)
  | duplicateDefinition what name => duplicateDefinition what (Text.lower name)
  | redundantDeclaration what name => redundantDeclaration what (Text.lower name)
  | duplicateInsert name => duplicateInsert (Text.lower name)
  | undefinedLabel name => undefinedLabel (Text.lower name)
  | undeclaredFunction name => undeclaredFunction (Text.lower name)
  | undeclaredSubroutine name => undeclaredSubroutine (Text.lower name)
  | invalidRedeclaration name existing wanted =>
    invalidRedeclaration (Text.lower name) existing wanted
  | systemVariableRedefinition name => systemVariableRedefinition (Text.lower name)
  | cause => cause

/-- The fault with small letters in its cause. -/
def Fault.lower (f : Fault) : Fault := ⟨f.cause.lower, f.span⟩

/-- The diagnostic with small letters in its message. -/
def Diagnostic.lower (d : Diagnostic) : Diagnostic := { d with message := Text.lower d.message }

/-! ## 2. Comments and quoted literals -/

/-- The sequence starts with a character that is no ASCII letter exactly if it did so before. -/
theorem map_toLower_eq_cons {d : Char} (hd : d.isAlpha = false) {cs rest : List Char} :
    cs.map Char.toLower = d :: rest ↔ ∃ more, cs = d :: more ∧ more.map Char.toLower = rest := by
  rw [List.map_eq_cons_iff]
  constructor
  · rintro ⟨c, more, rfl, hc, hmore⟩
    rw [(toLower_eq_iff hd c).mp hc]
    exact ⟨more, rfl, hmore⟩
  · rintro ⟨more, rfl, hmore⟩
    exact ⟨d, more, rfl, (toLower_eq_iff hd d).mpr rfl, hmore⟩

theorem commentLength_lower (cs : List Char) :
    commentLength (cs.map Char.toLower) = commentLength cs := by
  fun_induction commentLength cs with
  | case1 rest => rfl
  | case2 c rest hclose ih =>
    rw [List.map_cons, commentLength, ih]
    intro more hc hrest
    obtain ⟨more', hrest', -⟩ := (map_toLower_eq_cons (by decide)).mp hrest
    exact hclose more' ((toLower_eq_iff (by decide) c).mp hc) hrest'
  | case3 => rfl

/-- A character of a literal that does not continue it is looked at by itself, in either case. -/
theorem literalLength_cons_lower {quote : Char} (hquote : quote.isAlpha = false) {c : Char}
    {rest : List Char} (hshort : ∀ more, c = '|' → rest = '\n' :: more → False)
    (hlong : ∀ more, c = '|' → rest = '\r' :: '\n' :: more → False) :
    literalLength quote ((c :: rest).map Char.toLower) =
      if c = quote then (1, true)
      else if c = '\n' then (0, false)
      else longer 1 (literalLength quote (rest.map Char.toLower)) := by
  have hbar : c.toLower = '|' → c = '|' := (toLower_eq_iff (by decide) c).mp
  have hfeed : c.toLower = '\n' ↔ c = '\n' := toLower_eq_iff (by decide) c
  rw [List.map_cons, literalLength]
  · simp only [toLower_eq_iff hquote, hfeed]
  · intro more hc hrest
    obtain ⟨more', hrest', -⟩ := (map_toLower_eq_cons (by decide)).mp hrest
    exact hshort more' (hbar hc) hrest'
  · intro more hc hrest
    obtain ⟨tail, hrest', htail⟩ := (map_toLower_eq_cons (by decide)).mp hrest
    obtain ⟨more', rfl, -⟩ := (map_toLower_eq_cons (by decide)).mp htail
    exact hlong more' (hbar hc) hrest'

theorem literalLength_lower {quote : Char} (hquote : quote.isAlpha = false) (cs : List Char) :
    literalLength quote (cs.map Char.toLower) = literalLength quote cs := by
  fun_induction literalLength quote cs with
  | case1 rest ih => exact congrArg (longer 2) ih
  | case2 rest ih => exact congrArg (longer 3) ih
  | case3 rest hshort hlong =>
    rw [literalLength_cons_lower hquote hshort hlong, if_pos rfl]
  | case4 rest hshort hlong hquote' =>
    rw [literalLength_cons_lower hquote hshort hlong, if_neg hquote', if_pos rfl]
  | case5 c rest hshort hlong hc hfeed ih =>
    rw [literalLength_cons_lower hquote hshort hlong, if_neg hc, if_neg hfeed, ih]
  | case6 => rfl

/-! ## 3. Lexemes -/

namespace Lexeme

/-- The lexeme with small letters in its fault. -/
def lower (l : Lexeme) : Lexeme := { l with fault := l.fault.map Cause.lower }

variable (first : Char) (rest : List Char)

theorem lineComment_lower : lineComment (rest.map Char.toLower) = (lineComment rest).lower := by
  rw [lineComment, lineComment, takeWhile_toLower _ (by decide), List.length_map]
  rfl

theorem blockComment_lower : blockComment (rest.map Char.toLower) = (blockComment rest).lower := by
  simp only [blockComment, ← List.map_drop, commentLength_lower, List.length_map]
  cases (commentLength (rest.drop 1)).2 <;> rfl

theorem literal_lower {quote : Char} (hquote : quote.isAlpha = false) :
    literal quote (rest.map Char.toLower) = (literal quote rest).lower := by
  simp only [literal, literalLength_lower hquote]
  cases (literalLength quote rest).2 <;> rfl

/-- A fault that may be there or not. -/
theorem lower_ite (kind : Kind) (extra : Nat) (p : Prop) [Decidable p] (a b : Option Cause) :
    lower ⟨kind, extra, if p then a else b⟩ =
      ⟨kind, extra, if p then a.map Cause.lower else b.map Cause.lower⟩ := by
  split <;> rfl

theorem number_lower :
    number first.toLower (rest.map Char.toLower) = (number first rest).lower := by
  have htake := takeWhile_toLower (fun c => c.isDigit || c == '.') (by decide)
  have hpoint := count_toLower (d := '.') (by decide)
  simp only [number, htake, ← List.map_cons, hpoint, List.length_map, lower_ite, Option.map_some,
    Cause.lower, lower_ofList, Option.map_none]

theorem hexNumber_lower :
    hexNumber first.toLower (rest.map Char.toLower) = (hexNumber first rest).lower := by
  simp only [hexNumber, ← List.map_drop, ← List.map_take,
    takeWhile_toLower Char.isAlphanum (by decide), ← List.map_append, ← List.map_cons,
    all_toLower isHexDigit (by decide), List.isEmpty_map, List.length_map, lower_ite,
    Option.map_some, Cause.lower, lower_ofList, Option.map_none]

theorem byteString_lower : byteString (rest.map Char.toLower) = (byteString rest).lower := by
  have htake := takeWhile_toLower (fun c => c != '\\' && c != '\n') (by decide)
  have hclosing := takeWhile_toLower (· == '\\') (by decide)
  have hopening : '\\' = Char.toLower '\\' := rfl
  simp only [byteString, htake, List.length_map, ← List.map_drop, hclosing, ← List.map_take,
    ← List.map_append, List.isEmpty_map, all_toLower isHexDigit (by decide), lower_ite,
    Option.map_some, Option.map_none, Cause.lower, lower_ofList, List.map_cons]
  rw [← hopening]

theorem word_lower : word first.toLower (rest.map Char.toLower) = (word first rest).lower := by
  have hunderscore : first.toLower = '_' ↔ first = '_' := toLower_eq_iff (by decide) first
  simp only [word, takeWhile_toLower isNameChar (by decide), ← List.map_cons, ← lower_ofList,
    Kind.ofUnderscoreWord?_lower, Kind.ofWord?_lower, hunderscore, List.length_map]
  split
  · cases Kind.ofUnderscoreWord? (String.ofList (first :: rest.takeWhile isNameChar)) <;> rfl
  · rw [lower, Option.map_none]

theorem atName_lower : atName (rest.map Char.toLower) = (atName rest).lower := by
  have hname (name : List Char) :
      String.ofList ('@' :: name.map Char.toLower) = Text.lower (String.ofList ('@' :: name)) :=
    (lower_ofList ('@' :: name)).symm
  simp only [atName, takeWhile_toLower isNameChar (by decide), hname,
    Builtin.isSystemVariable_lower, List.length_map]
  split <;> rfl

theorem directive_lower : directive (rest.map Char.toLower) = (directive rest).lower := by
  have htake := takeWhile_toLower (fun c => isAlphanumeric c || c == '_')
    (by decide)
  have htwice (name : List Char) :
      (name.map Char.toLower).map Char.toLower = name.map Char.toLower := by
    simp
  have hname (name : List Char) :
      String.ofList ('$' :: name.map Char.toLower) = Text.lower (String.ofList ('$' :: name)) :=
    (lower_ofList ('$' :: name)).symm
  simp only [directive, htake, htwice, hname, List.length_map]
  split <;> rfl

theorem continuation_lower : continuation (rest.map Char.toLower) = (continuation rest).lower := by
  have htake := takeWhile_toLower (fun c => c == ' ' || c == '\t' || c == '\r')
    (by decide)
  have hfeed (c : Char) : c.toLower = '\n' ↔ c = '\n' := toLower_eq_iff (by decide) c
  simp only [continuation, htake, List.length_map, ← List.map_drop]
  cases rest.drop (rest.takeWhile fun c => c == ' ' || c == '\t' || c == '\r').length with
  | nil => rfl
  | cons next more =>
    simp only [List.map_cons, hfeed]
    split <;> rfl

/-- No letter is part of a sign. -/
theorem lookup_signs_lower : signs.lookup first.toLower = signs.lookup first :=
  apply_toLower (signs.lookup ·) (by decide) first

theorem lookup_doubleSigns_lower (next : Char) :
    doubleSigns.lookup (first.toLower, next.toLower) = doubleSigns.lookup (first, next) := by
  have hletters : ∀ entry ∈ doubleSigns,
      entry.1.1.isAlpha = false ∧ entry.1.2.isAlpha = false := by decide
  generalize doubleSigns = table at hletters
  induction table with
  | nil => rfl
  | cons entry rest ih =>
    obtain ⟨⟨a, b⟩, kind⟩ := entry
    obtain ⟨hentry, hrest⟩ := List.forall_mem_cons.mp hletters
    have ha : first.toLower = a ↔ first = a := toLower_eq_iff hentry.1 first
    have hb : next.toLower = b ↔ next = b := toLower_eq_iff hentry.2 next
    have hkey : ((first.toLower, next.toLower) == (a, b)) = ((first, next) == (a, b)) := by
      rw [Bool.eq_iff_iff, beq_iff_eq, beq_iff_eq, Prod.mk.injEq, Prod.mk.injEq, ha, hb]
    rw [List.lookup_cons, List.lookup_cons, hkey, ih hrest]

theorem doubleSign?_lower :
    doubleSign? first.toLower (rest.map Char.toLower) = doubleSign? first rest := by
  have hgreater (c : Char) : c.toLower = '>' ↔ c = '>' := toLower_eq_iff (by decide) c
  have hless (c : Char) : c.toLower = '<' ↔ c = '<' := toLower_eq_iff (by decide) c
  cases rest with
  | nil => rfl
  | cons next more =>
    have hhead : (more.map Char.toLower).head? = some '>' ↔ more.head? = some '>' := by
      rw [List.head?_map, Option.map_eq_some_iff]
      simp only [hgreater, exists_eq_right]
    simp only [List.map_cons, doubleSign?, hgreater, hless, hhead, lookup_doubleSigns_lower]

theorem operator_lower :
    operator first.toLower (rest.map Char.toLower) = (operator first rest).lower := by
  rw [operator, operator, doubleSign?_lower, lookup_signs_lower]
  cases doubleSign? first rest with
  | some kind => rfl
  | none => cases signs.lookup first <;> rfl

/-- One of two lexemes, told apart by a question that does not depend on case. -/
theorem ite_lower {p q : Prop} [Decidable p] [Decidable q] {a b c d : Lexeme} (hpq : p ↔ q)
    (hac : q → a = c.lower) (hbd : b = d.lower) :
    (if p then a else b) = (if q then c else d).lower := by
  by_cases hq : q
  · rw [if_pos (hpq.mpr hq), if_pos hq, hac hq]
  · rw [if_neg (mt hpq.mp hq), if_neg hq, hbd]

/-- The next character, if it is none of the letters. -/
theorem head?_toLower_iff {d : Char} (hd : d.isAlpha = false) :
    (rest.map Char.toLower).head? = some d ↔ rest.head? = some d := by
  rw [List.head?_map, Option.map_eq_some_iff]
  simp only [toLower_eq_iff hd, exists_eq_right]

/-- The `x` of a hexadecimal literal may be a capital. -/
theorem head?_toLower_x :
    ((rest.map Char.toLower).head? = some 'x' ∨ (rest.map Char.toLower).head? = some 'X') ↔
      (rest.head? = some 'x' ∨ rest.head? = some 'X') := by
  cases rest with
  | nil => rfl
  | cons c rest =>
    have hx : decide (c.toLower = 'x' ∨ c.toLower = 'X') = decide (c = 'x' ∨ c = 'X') :=
      apply_toLower (fun c => decide (c = 'x' ∨ c = 'X')) (by decide) c
    simpa only [List.map_cons, List.head?_cons, Option.some.injEq, decide_eq_decide] using hx

/-- **Which token stands at the head of a text does not depend on case.** -/
theorem read_lower (atStart : Bool) :
    read atStart first.toLower (rest.map Char.toLower) = (read atStart first rest).lower := by
  have hsame {d : Char} (hd : d.isAlpha = false) : first.toLower = d ↔ first = d :=
    toLower_eq_iff hd first
  have hstar : (rest.map Char.toLower).head? = some '*' ↔ rest.head? = some '*' :=
    head?_toLower_iff rest (by decide)
  have hdigit : (rest.map Char.toLower).head?.any Char.isDigit = rest.head?.any Char.isDigit := by
    rw [List.head?_map, Option.any_map]
    exact congrArg (Option.any · _) (funext isDigit_toLower)
  have hletter : Text.isAlphabetic first.toLower = Text.isAlphabetic first :=
    isAlphabetic_toLower first
  -- no test of the first character depends on case, and no lexeme that it opens does
  unfold read
  refine ite_lower (hsame (by decide)) (fun _ => rfl) ?_
  refine ite_lower (and_congr (hsame (by decide)) hstar) (fun _ => blockComment_lower rest) ?_
  refine ite_lower (and_congr_right' (or_congr (hsame (by decide)) (or_congr (hsame (by decide))
    (hsame (by decide))))) (fun _ => lineComment_lower rest) ?_
  refine ite_lower (or_congr (hsame (by decide)) (hsame (by decide))) (fun hquote => ?_) ?_
  · rcases hquote with rfl | rfl
    · exact literal_lower rest (by decide)
    · exact literal_lower rest (by decide)
  refine ite_lower (hsame (by decide)) (fun _ => byteString_lower rest) ?_
  refine ite_lower (and_congr (hsame (by decide)) (head?_toLower_x rest))
    (fun _ => hexNumber_lower first rest) ?_
  refine ite_lower (or_congr (by rw [isDigit_toLower]) (and_congr (hsame (by decide))
    (by rw [hdigit]))) (fun _ => number_lower first rest) ?_
  refine ite_lower (or_congr (by rw [hletter]) (hsame (by decide)))
    (fun _ => word_lower first rest) ?_
  refine ite_lower (hsame (by decide)) (fun _ => atName_lower rest) ?_
  refine ite_lower (hsame (by decide)) (fun _ => directive_lower rest) ?_
  exact ite_lower (hsame (by decide)) (fun _ => continuation_lower rest) (operator_lower first rest)

end Lexeme

/-! ## 4. Pieces -/

theorem isBlank_toLower (c : Char) : isBlank c.toLower = isBlank c :=
  apply_toLower isBlank (by decide) c

theorem LexContext.isRedundantNewline_toLower (ctx : LexContext) (c : Char) :
    ctx.isRedundantNewline c.toLower = ctx.isRedundantNewline c := by
  have hfeed : (c.toLower == '\n') = (c == '\n') := apply_toLower (· == '\n') (by decide) c
  rw [isRedundantNewline, isRedundantNewline, hfeed]

/-- Walking over a text does not depend on case. -/
@[simp] theorem Place.after_toLower (p : Place) (text : List Char) :
    p.after (text.map Char.toLower) = p.after text := by
  induction text generalizing p with
  | nil => rfl
  | cons c text ih =>
    have hfeed : c.toLower = '\n' ↔ c = '\n' := toLower_eq_iff (by decide) c
    have hstep : p.step c.toLower = p.step c := by simp only [step, hfeed]
    rw [List.map_cons, after_cons, after_cons, hstep, ih]

namespace Piece

/-- The piece with small letters. -/
def lower : Piece → Piece
  | space text => space (text.map Char.toLower)
  | lexeme kind text fault => lexeme kind (text.map Char.toLower) (fault.map Cause.lower)

theorem ofChars_lower (ctx : LexContext) (cs : List Char) :
    ofChars ctx (cs.map Char.toLower) = (ofChars ctx cs).map lower := by
  fun_induction ofChars ctx cs with
  | case1 ctx => rw [List.map_nil, ofChars, List.map_nil]
  | case2 ctx c rest hc ih =>
    rw [List.map_cons, ofChars, isBlank_toLower, if_pos hc, takeWhile_toLower isBlank (by decide),
      dropWhile_toLower isBlank (by decide), ih]
    rfl
  | case3 ctx c rest hc hredundant ih =>
    rw [List.map_cons, ofChars, isBlank_toLower, if_neg hc,
      LexContext.isRedundantNewline_toLower, if_pos hredundant, ih]
    rfl
  | case4 ctx c rest hc hredundant found ih =>
    rw [List.map_cons, ofChars, isBlank_toLower, if_neg hc,
      LexContext.isRedundantNewline_toLower, if_neg hredundant, Lexeme.read_lower]
    have hfound : (Lexeme.read ctx.atStart c rest).lower.kind = found.kind ∧
        (Lexeme.read ctx.atStart c rest).lower.extra = found.extra := ⟨rfl, rfl⟩
    simp only [hfound, ← List.map_take, ← List.map_drop, ih]
    rfl

theorem spaceAhead_lower (pieces : List Piece) :
    spaceAhead (pieces.map lower) = spaceAhead pieces := by
  induction pieces with
  | nil => rfl
  | cons piece rest ih =>
    cases piece with
    | space text => rfl
    | lexeme kind text fault => rw [List.map_cons, lower, spaceAhead, spaceAhead, ih]

theorem tokensFrom_lower (file : Nat) (place : Place) (pieces : List Piece) :
    tokensFrom file place (pieces.map lower) = (tokensFrom file place pieces).map Token.lower := by
  induction pieces generalizing place with
  | nil => rfl
  | cons piece rest ih =>
    cases piece with
    | space text => rw [List.map_cons, lower, tokensFrom, tokensFrom, Place.after_toLower, ih]
    | lexeme kind text fault =>
      rw [List.map_cons, lower, tokensFrom, tokensFrom, Place.after_toLower, spaceAhead_lower, ih,
        ← lower_ofList]
      rfl

theorem faultsFrom_lower (file : Nat) (place : Place) (pieces : List Piece) :
    faultsFrom file place (pieces.map lower) = (faultsFrom file place pieces).map Fault.lower := by
  induction pieces generalizing place with
  | nil => rfl
  | cons piece rest ih =>
    rcases piece with text | ⟨kind, text, _ | cause⟩
    · rw [List.map_cons, lower, faultsFrom, faultsFrom, chars, chars, Place.after_toLower, ih]
      all_goals exact fun _ _ _ h => Piece.noConfusion h
    · rw [List.map_cons, lower, Option.map_none, faultsFrom, faultsFrom, chars, chars,
        Place.after_toLower, ih]
      all_goals
        intro _ _ _ h
        cases h
    · rw [List.map_cons, lower, Option.map_some, faultsFrom, faultsFrom, Place.after_toLower, ih]
      rfl

end Piece

/-! ## 5. Texts -/

/-- The tokens and the faults with small letters. -/
def Lexed.lower (lexed : Lexed) : Lexed :=
  ⟨lexed.tokens.map Token.lower, lexed.faults.map Fault.lower⟩

/-- **The tokens of a text with small letters** are those of the text, with small letters. -/
theorem Lexed.ofText_lower (source : String) (file : Nat) :
    ofText (Text.lower source) file = (ofText source file).lower := by
  simp only [ofText, Lexed.lower, toList_lower, Piece.ofChars_lower, Piece.tokensFrom_lower,
    Piece.faultsFrom_lower, Place.after_toLower, List.map_append, List.map_cons, List.map_nil,
    Token.lower_endAt]

theorem Lexed.primary_lower (lexed : Lexed) :
    lexed.lower.primary = lexed.primary.map Token.lower := by
  rw [primary, primary, Lexed.lower, List.filter_map]
  rfl

theorem Lexed.trivia_lower (lexed : Lexed) : lexed.lower.trivia = lexed.trivia.map Token.lower := by
  rw [trivia, trivia, Lexed.lower, List.filter_map]
  rfl

/-! ## 6. Quoted literals -/

/-- What is a quoted literal opens with a quote. -/
theorem Lexeme.first_of_kind_string {atStart : Bool} {first : Char} {rest : List Char} :
    (read atStart first rest).kind = .string → first = '"' ∨ first = '\'' := by
  apply of_read (motive := fun found => found.kind = .string → first = '"' ∨ first = '\'')
  case literal => exact fun hquote _ => hquote
  case word =>
    intro _ h
    exact absurd h (kind_word first rest (p := (· ≠ .string)) (by decide) (by decide) (by decide))
  case operator =>
    intro h
    exact absurd h
      (kind_operator first rest (p := (· ≠ .string)) (by decide) (by decide) (by decide))
  case name =>
    intro _
    unfold atName
    dsimp only
    split <;> exact Kind.noConfusion
  case directive =>
    unfold directive
    dsimp only
    split <;> exact Kind.noConfusion
  case continuation =>
    unfold continuation
    dsimp only
    split
    · exact Kind.noConfusion
    · split <;> exact Kind.noConfusion
  all_goals exact Kind.noConfusion

theorem withoutContinuations_lower (cs : List Char) :
    withoutContinuations (cs.map Char.toLower) = (withoutContinuations cs).map Char.toLower := by
  have hbar (c : Char) : c.toLower = '|' → c = '|' := (toLower_eq_iff (by decide) c).mp
  fun_induction withoutContinuations cs with
  | case1 rest ih => exact ih
  | case2 rest ih => exact ih
  | case3 c rest hshort hlong ih =>
    rw [List.map_cons, withoutContinuations, ih, List.map_cons]
    · intro more hc hrest
      obtain ⟨more', hrest', -⟩ := (map_toLower_eq_cons (by decide)).mp hrest
      exact hshort more' (hbar c hc) hrest'
    · intro more hc hrest
      obtain ⟨tail, hrest', htail⟩ := (map_toLower_eq_cons (by decide)).mp hrest
      obtain ⟨more', rfl, -⟩ := (map_toLower_eq_cons (by decide)).mp htail
      exact hlong more' (hbar c hc) hrest'
  | case4 => rfl

/-- The value of a literal does not depend on case if its quotes do not. -/
theorem literalValue_lower {quote : Char} (hquote : quote.isAlpha = false) (rest : List Char) :
    literalValue (Text.lower (String.ofList (quote :: rest))) =
      Text.lower (literalValue (String.ofList (quote :: rest))) := by
  have hlast : (rest.map Char.toLower).getLast? = some quote ↔ rest.getLast? = some quote := by
    rw [List.getLast?_map, Option.map_eq_some_iff]
    simp only [toLower_eq_iff hquote, exists_eq_right]
  rw [literalValue, literalValue, toList_lower, String.toList_ofList, List.map_cons,
    (toLower_eq_iff hquote quote).mpr rfl]
  dsimp only
  simp only [hlast]
  rw [lower_ofList, ← withoutContinuations_lower]
  split
  · rw [List.map_dropLast]
  · rfl

/-- The value of a quoted literal does not depend on case. -/
def Token.Quoted (t : Token) : Prop :=
  t.kind = .string → literalValue t.lower.text = Text.lower (literalValue t.text)

/-- **The values of all quoted literals of a text** do not depend on case. -/
theorem Lexed.quoted_of_mem {source : String} {file : Nat} {t : Token}
    (ht : t ∈ (ofText source file).tokens) : t.Quoted := by
  intro hkind
  obtain ⟨atStart, first, rest, hread, htext, -⟩ := exists_read ht (by rw [hkind]; nofun)
  have hquote : first.isAlpha = false := by
    rcases Lexeme.first_of_kind_string (hread ▸ hkind) with rfl | rfl <;> rfl
  rw [Token.text_lower, htext, literalValue_lower hquote]

end BasicCheck
