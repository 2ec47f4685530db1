import BasicCheck.Builtin
import BasicCheck.Fault
import BasicCheck.Text.Alphabetic
import BasicCheck.Text.Numeric
import BasicCheck.Token.Kind

/-!
# Lexemes

Which token stands at the head of a text: its kind, how many characters it takes, and what is wrong
with it, if anything. Reading never fails; a malformed literal is a token with a fault. A lexeme
always takes the first character, so `Lexeme.extra` counts those behind it
(`Lexeme.extra_read_le` bounds it by what is there).
-/

namespace BasicCheck

/-! ## 1. Classes of characters -/

/-- The blanks that separate tokens; a line feed is not among them. -/
def isBlank (c : Char) : Bool := c == ' ' || c == '\t' || c == '\r' || c == '\x0c'

/-- A letter or a numeral of any script. -/
def isAlphanumeric (c : Char) : Bool := Text.isAlphabetic c || Text.isNumeric c

/-- The characters that a name may go on with. -/
def isNameChar (c : Char) : Bool := isAlphanumeric c || c == '_' || c == '$' || c == '.'

/-- A hexadecimal digit. -/
def isHexDigit (c : Char) : Bool :=
  c.isDigit || ('a' ≤ c && c ≤ 'f') || ('A' ≤ c && c ≤ 'F')

/-! ## 2. The lengths of comments and quoted literals -/

/-- A length that is greater by `n`; whether the end was found stays. -/
def longer (n : Nat) (found : Nat × Bool) : Nat × Bool := (found.1 + n, found.2)

/-- How far a block comment goes on behind its opening, and whether it is closed. -/
def commentLength : List Char → Nat × Bool
  | '*' :: '/' :: _ => (2, true)
  | _ :: rest => longer 1 (commentLength rest)
  | [] => (0, false)

/-- How far a quoted literal goes on behind its opening quote, and whether it is closed. It ends at
    the quote or before a line break; a `|` directly before the line break continues it. -/
def literalLength (quote : Char) : List Char → Nat × Bool
  | '|' :: '\n' :: rest => longer 2 (literalLength quote rest)
  | '|' :: '\r' :: '\n' :: rest => longer 3 (literalLength quote rest)
  | c :: rest =>
    if c = quote then (1, true)
    else if c = '\n' then (0, false)
    else longer 1 (literalLength quote rest)
  | [] => (0, false)

theorem commentLength_le (cs : List Char) : (commentLength cs).1 ≤ cs.length := by
  fun_induction commentLength cs <;> simp only [longer, List.length_cons] <;> omega

theorem literalLength_le (quote : Char) (cs : List Char) :
    (literalLength quote cs).1 ≤ cs.length := by
  fun_induction literalLength quote cs <;> simp only [longer, List.length_cons] <;> omega

/-! ## 3. Lexemes -/

/-- A token at the head of a text. -/
structure Lexeme where
  kind : Kind
  /-- The number of characters behind the first one. -/
  extra : Nat
  fault : Option Cause
  deriving DecidableEq, Repr, Inhabited

namespace Lexeme

/-- A comment up to the end of its line. -/
def lineComment (rest : List Char) : Lexeme :=
  ⟨.lineComment, (rest.takeWhile (· != '\n')).length, none⟩

/-- A comment that opens with two characters, the second of which heads `rest`. -/
def blockComment (rest : List Char) : Lexeme :=
  let (length, closed) := commentLength (rest.drop 1)
  ⟨.blockComment, min rest.length (1 + length),
    if closed then none else some .unterminatedComment⟩

/-- A literal between quotes. -/
def literal (quote : Char) (rest : List Char) : Lexeme :=
  let (length, closed) := literalLength quote rest
  ⟨.string, length, if closed then none else some .unterminatedString⟩

/-- A decimal literal: digits and points, of which one is allowed. -/
def number (first : Char) (rest : List Char) : Lexeme :=
  let digits := rest.takeWhile fun c => c.isDigit || c == '.'
  ⟨.number, digits.length,
    if (first :: digits).count '.' > 1 then
      some (.malformedNumber (String.ofList (first :: digits)))
    else none⟩

/-- A literal such as `0x1F`; the `x` heads `rest`. -/
def hexNumber (first : Char) (rest : List Char) : Lexeme :=
  let digits := (rest.drop 1).takeWhile Char.isAlphanum
  ⟨.hexNumber, min rest.length (1 + digits.length),
    if digits.isEmpty || !digits.all isHexDigit then
      some (.malformedHex (String.ofList (first :: (rest.take 1 ++ digits))))
    else none⟩

/-- A literal such as `\0D0A\`: an even, positive number of digits between backslashes. -/
def byteString (rest : List Char) : Lexeme :=
  let digits := rest.takeWhile fun c => c != '\\' && c != '\n'
  let closing := (rest.drop digits.length).takeWhile (· == '\\') |>.take 1
  ⟨.hexNumber, (digits ++ closing).length,
    if !closing.isEmpty && !digits.isEmpty && digits.length % 2 == 0 && digits.all isHexDigit then
      none
    else some (.malformedHex (String.ofList ('\\' :: (digits ++ closing))))⟩

/-- A name, a reserved word, or a comparison behind an underscore. -/
def word (first : Char) (rest : List Char) : Lexeme :=
  let more := rest.takeWhile isNameChar
  let text := String.ofList (first :: more)
  if first = '_' then
    match Kind.ofUnderscoreWord? text with
    | some kind => ⟨kind, more.length, none⟩
    | none => ⟨.ident, more.length, some (.invalidIdentifier text)⟩
  else ⟨(Kind.ofWord? text).getD .ident, more.length, none⟩

/-- A system variable, or an `@` that stands for itself if the name behind it is not one. -/
def atName (rest : List Char) : Lexeme :=
  let name := rest.takeWhile isNameChar
  if Builtin.isSystemVariable (String.ofList ('@' :: name)) then
    ⟨.systemVariable, name.length, none⟩
  else ⟨.atSign, 0, none⟩

/-- A directive; there is but one. -/
def directive (rest : List Char) : Lexeme :=
  let name := rest.takeWhile fun c => isAlphanumeric c || c == '_'
  if name.map Char.toLower = "insert".toList then ⟨.insertDirective, name.length, none⟩
  else ⟨.unknown, name.length, some (.unknownDirective (String.ofList ('$' :: name)))⟩

/-- A `|`, which may stand only at the end of a line; it takes the line break with it. -/
def continuation (rest : List Char) : Lexeme :=
  let blanks := rest.takeWhile fun c => c == ' ' || c == '\t' || c == '\r'
  match rest.drop blanks.length with
  | [] => ⟨.continuation, blanks.length, none⟩
  | next :: _ =>
    if next = '\n' then ⟨.continuation, blanks.length + 1, none⟩
    else ⟨.unknown, 0, some (.unexpectedChar '|')⟩

/-- The signs of one character. -/
def signs : List (Char × Kind) :=
  [('=', .equal), ('<', .less), ('>', .greater), ('#', .notEqual), ('+', .plus), ('-', .minus),
    ('*', .star), ('/', .slash), (':', .colon), ('^', .caret), ('(', .leftParen),
    (')', .rightParen), ('[', .leftBracket), (']', .rightBracket), (',', .comma), (';', .semicolon)]

/-- The signs of two characters. -/
def doubleSigns : List ((Char × Char) × Kind) :=
  [(('=', '='), .doubleEqual), (('=', '<'), .lessEqual), (('=', '>'), .greaterEqual),
    (('<', '='), .lessEqual), (('<', '>'), .notEqual), (('>', '='), .greaterEqual),
    (('>', '<'), .notEqual), (('+', '+'), .doublePlus), (('+', '='), .plusEqual),
    (('-', '-'), .doubleMinus), (('-', '='), .minusEqual), (('-', '>'), .arrow),
    (('*', '*'), .doubleStar), (('*', '='), .starEqual), (('/', '/'), .doubleSlash),
    (('/', '='), .slashEqual), ((':', ':'), .doubleColon), ((':', '='), .colonEqual)]

/-- The sign of two characters at the head of a text. A `>` before `<>` stands alone, so that an
    index list can be closed in front of an inequality. -/
def doubleSign? (first : Char) (rest : List Char) : Option Kind :=
  match rest with
  | [] => none
  | next :: more =>
    if first = '>' ∧ next = '<' ∧ more.head? = some '>' then none
    else doubleSigns.lookup (first, next)

/-- An operator or a bracket, as long as possible. -/
def operator (first : Char) (rest : List Char) : Lexeme :=
  match doubleSign? first rest with
  | some kind => ⟨kind, 1, none⟩
  | none =>
    match signs.lookup first with
    | some kind => ⟨kind, 0, none⟩
    | none => ⟨.unknown, 0, some (.unexpectedChar first)⟩

/-- The lexeme that `first` opens before `rest`. Whether a statement may start here decides between
    a comment and an operator. -/
def read (atStart : Bool) (first : Char) (rest : List Char) : Lexeme :=
  if first = '\n' then ⟨.newline, 0, none⟩
  else if first = '/' ∧ rest.head? = some '*' then blockComment rest
  else if atStart ∧ (first = '*' ∨ first = '!' ∨ first = '/') then lineComment rest
  else if first = '"' ∨ first = '\'' then literal first rest
  else if first = '\\' then byteString rest
  else if first = '0' ∧ (rest.head? = some 'x' ∨ rest.head? = some 'X') then hexNumber first rest
  else if first.isDigit ∨ (first = '.' ∧ rest.head?.any Char.isDigit) then number first rest
  else if Text.isAlphabetic first ∨ first = '_' then word first rest
  else if first = '@' then atName rest
  else if first = '$' then directive rest
  else if first = '|' then continuation rest
  else operator first rest

/-! ## 4. A lexeme lies within the text -/

theorem length_takeWhile_le (p : Char → Bool) (cs : List Char) :
    (cs.takeWhile p).length ≤ cs.length :=
  (List.takeWhile_prefix p).length_le

theorem extra_operator_le (first : Char) (rest : List Char) :
    (operator first rest).extra ≤ rest.length := by
  unfold operator
  split
  · rename_i kind h
    cases rest with
    | nil => simp [doubleSign?] at h
    | cons next more => simp
  · split <;> simp

theorem extra_continuation_le (rest : List Char) : (continuation rest).extra ≤ rest.length := by
  simp only [continuation]
  have h := length_takeWhile_le (fun c => c == ' ' || c == '\t' || c == '\r') rest
  split
  · exact h
  · rename_i next more heq
    have k := congrArg List.length heq
    simp only [List.length_drop, List.length_cons] at k
    split
    · dsimp only
      omega
    · exact Nat.zero_le _

theorem extra_byteString_le (rest : List Char) : (byteString rest).extra ≤ rest.length := by
  simp only [byteString]
  have h := length_takeWhile_le (fun c => c != '\\' && c != '\n') rest
  have k := length_takeWhile_le (· == '\\')
    (rest.drop (rest.takeWhile fun c => c != '\\' && c != '\n').length)
  simp only [List.length_drop] at k
  simp only [List.length_append, List.length_take]
  omega

theorem extra_blockComment_le (rest : List Char) : (blockComment rest).extra ≤ rest.length :=
  Nat.min_le_left _ _

theorem extra_hexNumber_le (first : Char) (rest : List Char) :
    (hexNumber first rest).extra ≤ rest.length :=
  Nat.min_le_left _ _

theorem extra_word_le (first : Char) (rest : List Char) : (word first rest).extra ≤ rest.length := by
  have h := length_takeWhile_le isNameChar rest
  simp only [word]
  split
  · split <;> exact h
  · exact h

theorem extra_atName_le (rest : List Char) : (atName rest).extra ≤ rest.length := by
  simp only [atName]
  split
  · exact length_takeWhile_le _ _
  · exact Nat.zero_le _

theorem extra_directive_le (rest : List Char) : (directive rest).extra ≤ rest.length := by
  simp only [directive]
  split <;> exact length_takeWhile_le _ _

theorem extra_ite_le {p : Prop} [Decidable p] {a b : Lexeme} {n : Nat} (ha : a.extra ≤ n)
    (hb : b.extra ≤ n) : (if p then a else b).extra ≤ n := by
  split
  · exact ha
  · exact hb

/-- A lexeme takes no more characters than there are. -/
theorem extra_read_le (atStart : Bool) (first : Char) (rest : List Char) :
    (read atStart first rest).extra ≤ rest.length :=
  extra_ite_le (Nat.zero_le _) <| extra_ite_le (extra_blockComment_le _) <|
  extra_ite_le (length_takeWhile_le _ _) <| extra_ite_le (literalLength_le _ _) <|
  extra_ite_le (extra_byteString_le _) <| extra_ite_le (extra_hexNumber_le _ _) <|
  extra_ite_le (length_takeWhile_le _ _) <| extra_ite_le (extra_word_le _ _) <|
  extra_ite_le (extra_atName_le _) <| extra_ite_le (extra_directive_le _) <|
  extra_ite_le (extra_continuation_le _) (extra_operator_le _ _)

end Lexeme

end BasicCheck
