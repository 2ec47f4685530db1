import BasicCheck.Span
import BasicCheck.Token.Kind

/-!
# Tokens

A token is a kind, the text as written, and its span. This module also reads the value of a quoted
literal off its text (`literalValue`) and knows how error messages call a token.
-/

namespace BasicCheck

/-- A token of a source text. -/
structure Token where
  kind : Kind
  /-- The text as written. -/
  text : String
  span : Span
  /-- A blank follows a keyword that is then never read as a function name. -/
  functionDisallowed : Bool
  deriving DecidableEq, Repr, Inhabited

namespace Token

/-- The token that stands at the end of a file. -/
def endAt (span : Span) : Token := ⟨.endOfFile, "", span, false⟩

/-- The name that a token is looked up by. -/
def folded (t : Token) : String := Text.fold t.text

/-- How error messages call a token. -/
def describe (t : Token) : String :=
  match t.kind with
  | .endOfFile => "end of file"
  | .newline => "end of line"
  | _ => "'" ++ t.text ++ "'"

end Token

/-! ## Quoted literals -/

/-- Characters without the line continuations among them: a `|` directly before a line break. -/
def withoutContinuations : List Char → List Char
  | '|' :: '\n' :: rest => withoutContinuations rest
  | '|' :: '\r' :: '\n' :: rest => withoutContinuations rest
  | c :: rest => c :: withoutContinuations rest
  | [] => []

/-- The value of a quoted literal: its text without the quotes and without continuations. A literal
    that was never closed has only the opening quote. -/
def literalValue (text : String) : String :=
  match text.toList with
  | [] => ""
  | quote :: rest =>
    String.ofList (withoutContinuations
      (if rest.getLast? = some quote then rest.dropLast else rest))

/-- Characters without a `|` hold no continuation. -/
theorem withoutContinuations_of_notMem {cs : List Char} (h : '|' ∉ cs) :
    withoutContinuations cs = cs := by
  fun_induction withoutContinuations cs <;> simp_all

end BasicCheck
