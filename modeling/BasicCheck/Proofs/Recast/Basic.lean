import BasicCheck.Diagnostic
import BasicCheck.Parse.State
import BasicCheck.Token

/-!
# Texts that are written anew

A text can be written anew in ways that no step of reading notices: with letters of another case,
with another number for its file, or moved to other places in the same order. A `Recast` is such a
way, together with what reading relies on. What is written anew by it is told of spans, tokens,
causes and faults here, and of trees, symbols and states in the modules behind this one; in the end
a procedure that is read from recast tokens is the recast procedure.

Letters of another case are one such way (`Recast.lowercase`), the number of another file is a
second one (`Recast.renumbered`).
-/

namespace BasicCheck

/-! ## 1. Ways to write anew -/

/-- A way to write names and literals, places and the numbers of files anew. -/
structure Recast where
  text : String → String
  char : Char → Char
  place : Place → Place
  file : Nat → Nat
  /-- Names that are looked up as one name still are. -/
  fold_text (s : String) : Text.fold (text s) = Text.fold s
  capitalize_text (s : String) : Text.capitalize (text s) = Text.capitalize s
  text_append (s t : String) : text (s ++ t) = text s ++ text t
  text_text (s : String) : text (text s) = text s
  text_char (c : Char) : text (char c).toString = text c.toString
  /-- A text without capitals stays as it is. -/
  text_of_small {s : String} : s.toList.all (fun c => c.toLower == c) → text s = s
  /-- A text without letters is what no other text becomes. -/
  text_eq_iff {s t : String} : t.toList.all (fun c => !c.isAlpha) → (text s = t ↔ s = t)
  /-- Places keep their order. -/
  place_le (a b : Place) : place a ≤ place b ↔ a ≤ b
  place_origin : place .origin = .origin
  file_zero : file 0 = 0

namespace Recast

variable (ρ : Recast)

@[simp] theorem isEmpty_text (s : String) : (ρ.text s).isEmpty = s.isEmpty := by
  rw [Bool.eq_iff_iff, String.isEmpty_iff, String.isEmpty_iff]
  exact ρ.text_eq_iff (by decide)

@[simp] theorem isIntrinsic_text (name : String) :
    Builtin.isIntrinsic (ρ.text name) = Builtin.isIntrinsic name := by
  rw [Builtin.isIntrinsic, Builtin.isIntrinsic, ρ.fold_text]

theorem text_quote (s : String) : ρ.text ("'" ++ s ++ "'") = "'" ++ ρ.text s ++ "'" := by
  rw [ρ.text_append, ρ.text_append, ρ.text_of_small (s := "'") (by decide)]

end Recast

/-! ## 2. Places and spans -/

variable {ρ : Recast}

/-- The span that is written anew. -/
def Span.recast (ρ : Recast) (s : Span) : Span := ⟨ρ.place s.start, ρ.place s.stop, ρ.file s.file⟩

namespace Span

@[simp] theorem start_recast (s : Span) : (s.recast ρ).start = ρ.place s.start := rfl

@[simp] theorem recast_blank : blank.recast ρ = blank := by
  rw [recast, blank, ρ.place_origin, ρ.file_zero]

@[simp] theorem recast_join (a b : Span) :
    (a.join b).recast ρ = (a.recast ρ).join (b.recast ρ) := by
  unfold join recast
  simp only [ρ.place_le, apply_ite ρ.place]

end Span

/-! ## 3. Tokens and faults -/

/-- The token that is written anew. -/
def Token.recast (ρ : Recast) (t : Token) : Token :=
  { t with text := ρ.text t.text, span := t.span.recast ρ }

namespace Token

@[simp] theorem kind_recast (t : Token) : (t.recast ρ).kind = t.kind := rfl

@[simp] theorem text_recast (t : Token) : (t.recast ρ).text = ρ.text t.text := rfl

@[simp] theorem span_recast (t : Token) : (t.recast ρ).span = t.span.recast ρ := rfl

@[simp] theorem functionDisallowed_recast (t : Token) :
    (t.recast ρ).functionDisallowed = t.functionDisallowed := rfl

@[simp] theorem folded_recast (t : Token) : (t.recast ρ).folded = t.folded := ρ.fold_text _

@[simp] theorem recast_endAt (span : Span) : (endAt span).recast ρ = endAt (span.recast ρ) := by
  rw [recast, endAt, endAt, ρ.text_of_small (s := "") (by decide)]

/-- What messages call a token is written anew with it. -/
theorem describe_recast (t : Token) : (t.recast ρ).describe = ρ.text t.describe := by
  unfold describe
  rw [kind_recast, text_recast]
  split
  · exact (ρ.text_of_small (by decide)).symm
  · exact (ρ.text_of_small (by decide)).symm
  · exact (ρ.text_quote t.text).symm

/-- The halves of a token `>=` are written anew with the whole. -/
structure Halves (ρ : Recast) (t : Token) : Prop where
  greater : Parse.greaterHalf (t.recast ρ) = (Parse.greaterHalf t).recast ρ
  equal : Parse.equalHalf (t.recast ρ) = (Parse.equalHalf t).recast ρ

/-- What reading relies on that depends on the token: the value of a quoted literal is written anew
    with its text, and so are the halves of a `>=` with the whole. -/
structure Suits (ρ : Recast) (t : Token) : Prop where
  literal : t.kind = .string → literalValue (ρ.text t.text) = ρ.text (literalValue t.text)
  halves : t.kind = .greaterEqual → t.text = ">=" → t.Halves ρ

/-- Most tokens need nothing of their own. -/
theorem suits_of_kind {t : Token} (hstring : t.kind ≠ .string) (hsign : t.kind ≠ .greaterEqual) :
    t.Suits ρ :=
  ⟨fun h => absurd h hstring, fun h => absurd h hsign⟩

end Token

/-- The cause with what it quotes from the text written anew. -/
def Cause.recast (ρ : Recast) : Cause → Cause
  | malformedNumber text => malformedNumber (ρ.text text)
  | malformedHex text => malformedHex (ρ.text text)
  | invalidIdentifier name => invalidIdentifier (ρ.text name)
  | unknownDirective name => unknownDirective (ρ.text name)
  | unexpectedChar char => unexpectedChar (ρ.char char)
  | unexpectedToken wanted got => unexpectedToken wanted (ρ.text got)
  | expectedSeparator got => expectedSeparator (ρ.text got)
  | nextMismatch wanted got => nextMismatch (ρ.text wanted) (ρ.text got)
  | duplicateDefinition what name => duplicateDefinition what (ρ.text name)
  | redundantDeclaration what name => redundantDeclaration what (ρ.text name)
  | duplicateInsert name => duplicateInsert (ρ.text name)
  | undefinedLabel name => undefinedLabel (ρ.text name)
  | undeclaredFunction name => undeclaredFunction (ρ.text name)
  | undeclaredSubroutine name => undeclaredSubroutine (ρ.text name)
  | invalidRedeclaration name existing wanted =>
    invalidRedeclaration (ρ.text name) existing wanted
  | systemVariableRedefinition name => systemVariableRedefinition (ρ.text name)
  | cause => cause

@[simp] theorem Cause.severity_recast (cause : Cause) :
    (cause.recast ρ).severity = cause.severity := by
  cases cause <;> rfl

/-- What is quoted in a message is written anew with the message. -/
theorem Cause.text_message_recast (cause : Cause) :
    ρ.text (cause.recast ρ).message = ρ.text cause.message := by
  cases cause <;> unfold message recast <;> simp only [ρ.text_append, ρ.text_text, ρ.text_char]

/-- The fault that is written anew. -/
def Fault.recast (ρ : Recast) (f : Fault) : Fault := ⟨f.cause.recast ρ, f.span.recast ρ⟩

/-- The diagnostic that is written anew. -/
def Diagnostic.recast (ρ : Recast) (d : Diagnostic) : Diagnostic :=
  { d with message := ρ.text d.message, span := d.span.recast ρ }

/-- The diagnostic with its message written anew, where it is. Messages have words of their own,
    which are written anew only by this. -/
def Diagnostic.reworded (ρ : Recast) (d : Diagnostic) : Diagnostic :=
  { d with message := ρ.text d.message }

theorem Diagnostic.reworded_ofFault (f : Fault) :
    (ofFault (f.recast ρ)).reworded ρ = (ofFault f).recast ρ := by
  rw [reworded, recast, ofFault, ofFault, Fault.recast]
  simp only [Cause.text_message_recast, Cause.severity_recast]

end BasicCheck
