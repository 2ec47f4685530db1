import BasicCheck.Token
import BasicCheck.Token.Lexeme

/-!
# From a text to its tokens

A text is first cut into pieces: lexemes and the space between them (`Piece.ofChars`). No character
is lost (`Piece.flatMap_chars_ofChars`). The pieces are then given their places, which makes tokens
and faults of them (`Lexed.ofText`). Comments and continuations are tokens too, the trivia; what is
left when they are taken out is the primary tokens that the grammar reads.
-/

namespace BasicCheck

/-! ## 1. Where a statement may start -/

/-- What has to be remembered of the tokens read so far. -/
structure LexContext where
  /-- The kind of the last primary token. -/
  last : Option Kind
  /-- A statement may start here. -/
  atStart : Bool
  /-- A statement could start at the last primary token. -/
  lastAtStart : Bool
  deriving DecidableEq, Repr

namespace LexContext

/-- The beginning of a text. -/
def initial : LexContext := ⟨none, true, false⟩

/-- The context behind a token. A statement may start behind a separator, and behind the colon of a
    label that itself stands where a statement may start. Trivia change nothing. -/
def push (ctx : LexContext) (kind : Kind) : LexContext :=
  if kind.isTrivia then ctx
  else
    { last := some kind
      atStart := kind.isSeparator ||
        (kind == .colon && ctx.lastAtStart && ctx.last == some .ident)
      lastAtStart := ctx.atStart }

/-- A line feed here would end nothing, because no primary token or a line feed came last. -/
def isRedundantNewline (ctx : LexContext) (c : Char) : Bool :=
  c == '\n' && (ctx.last == none || ctx.last == some .newline)

end LexContext

/-! ## 2. Pieces -/

/-- A stretch of text: space between tokens, or a lexeme. -/
inductive Piece where
  | space (text : List Char)
  | lexeme (kind : Kind) (text : List Char) (fault : Option Cause)
  deriving DecidableEq, Repr

namespace Piece

/-- The characters of a piece. -/
def chars : Piece → List Char
  | space text => text
  | lexeme _ text _ => text

/-- The pieces of a text. -/
def ofChars (ctx : LexContext) : List Char → List Piece
  | [] => []
  | c :: rest =>
    if isBlank c then
      space (c :: rest.takeWhile isBlank) :: ofChars ctx (rest.dropWhile isBlank)
    else if ctx.isRedundantNewline c then space [c] :: ofChars ctx rest
    else
      let found := Lexeme.read ctx.atStart c rest
      lexeme found.kind (c :: rest.take found.extra) found.fault ::
        ofChars (ctx.push found.kind) (rest.drop found.extra)
  termination_by cs => cs.length
  decreasing_by
    · have := (List.dropWhile_suffix isBlank (l := rest)).length_le
      simp only [List.length_cons]
      omega
    · simp
    · simp only [List.length_drop, List.length_cons]
      omega

/-- The pieces of a text, put together, are the text. -/
theorem flatMap_chars_ofChars (ctx : LexContext) (cs : List Char) :
    (ofChars ctx cs).flatMap chars = cs := by
  fun_induction ofChars ctx cs with
  | case1 => rfl
  | case2 ctx c rest h ih => simp [chars, ih, List.takeWhile_append_dropWhile]
  | case3 ctx c rest h hr ih => simp [chars, ih]
  | case4 ctx c rest h hr found ih => simp [chars, ih, List.take_append_drop]

/-- Whether space comes before the next primary token. -/
def spaceAhead : List Piece → Bool
  | space _ :: _ => true
  | lexeme kind _ _ :: rest => kind.isTrivia && spaceAhead rest
  | [] => false

/-- The tokens of the lexemes among some pieces, from a given place on. -/
def tokensFrom (file : Nat) (place : Place) : List Piece → List Token
  | [] => []
  | space text :: rest => tokensFrom file (place.after text) rest
  | lexeme kind text _ :: rest =>
    { kind
      text := String.ofList text
      span := ⟨place, place.after text, file⟩
      functionDisallowed := kind.isBlankSensitive && spaceAhead rest } ::
      tokensFrom file (place.after text) rest

/-- The faults of the lexemes among some pieces, from a given place on. -/
def faultsFrom (file : Nat) (place : Place) : List Piece → List Fault
  | [] => []
  | lexeme _ text (some cause) :: rest =>
    ⟨cause, ⟨place, place.after text, file⟩⟩ :: faultsFrom file (place.after text) rest
  | piece :: rest => faultsFrom file (place.after piece.chars) rest

end Piece

/-! ## 3. Tokens -/

/-- All that is known about a text once its tokens are known. -/
structure Lexed where
  /-- Every token in the order of the text, trivia and the end of the file included. -/
  tokens : List Token
  faults : List Fault
  deriving DecidableEq, Repr

namespace Lexed

/-- The tokens of a text and the faults in them. -/
def ofText (source : String) (file : Nat) : Lexed :=
  let cs := source.toList
  let pieces := Piece.ofChars .initial cs
  let stop := Place.origin.after cs
  { tokens := Piece.tokensFrom file .origin pieces ++ [Token.endAt ⟨stop, stop, file⟩]
    faults := Piece.faultsFrom file .origin pieces }

/-- The tokens that the grammar reads. -/
def primary (lexed : Lexed) : List Token :=
  lexed.tokens.filter (!·.kind.isTrivia)

/-- The comments and continuations. -/
def trivia (lexed : Lexed) : List Token :=
  lexed.tokens.filter (·.kind.isTrivia)

end Lexed

end BasicCheck
