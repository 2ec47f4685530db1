import BasicCheck.Span

/-!
# Faults

Everything that can be wrong with a procedure: a cause and the span that it concerns. Each cause has
one wording (`Cause.message`) and one severity (`Cause.severity`).
-/

namespace BasicCheck

/-- How grave a message is. -/
inductive Severity where
  | error | warning | info
  deriving DecidableEq, Repr, Inhabited

def Severity.title : Severity → String
  | .error => "Error"
  | .warning => "Warning"
  | .info => "Info"

/-- What is wrong. -/
inductive Cause where
  -- the text
  | unterminatedString
  | unterminatedComment
  | malformedNumber (text : String)
  | malformedHex (text : String)
  | invalidIdentifier (name : String)
  | unknownDirective (name : String)
  | unexpectedChar (char : Char)
  -- the grammar
  | unexpectedToken (expected got : String)
  | expected (what : String)
  | expectedIdent
  | expectedExpr
  | expectedSeparator (got : String)
  | missingTerminator (construct terminator : String)
  | emptyThenElse
  | tooManyIndexes (form : String) (limit : Nat)
  | misplacedLoopCondition (keyword : String)
  | nextMismatch (expected got : String)
  -- the names
  | duplicateDefinition (what name : String)
  | redundantDeclaration (what name : String)
  | duplicateInsert (name : String)
  | undefinedLabel (name : String)
  | undeclaredFunction (name : String)
  | undeclaredSubroutine (name : String)
  | invalidRedeclaration (name existing wanted : String)
  | systemVariableRedefinition (name : String)
  deriving DecidableEq, Repr, Inhabited

namespace Cause

/-- The wording of a cause. -/
def message : Cause → String
  | .unterminatedString => "Unterminated string literal"
  | .unterminatedComment => "Unterminated block comment"
  | .malformedNumber text => "Malformed number: " ++ text
  | .malformedHex text => "Malformed hex literal: " ++ text
  | .invalidIdentifier name => "Invalid identifier: " ++ name
  | .unknownDirective name => "Unknown compiler directive: " ++ name
  | .unexpectedChar char => "Unexpected character '" ++ char.toString ++ "'"
  | .unexpectedToken wanted got => "Unexpected token: expected " ++ wanted ++ ", got " ++ got
  | .expected what => "Expected " ++ what
  | .expectedIdent => "Expected identifier"
  | .expectedExpr => "Expected expression"
  | .expectedSeparator got => "Expected a new line or ';' after statement, got " ++ got
  | .missingTerminator construct terminator =>
    "Missing '" ++ terminator ++ "' for " ++ construct
  | .emptyThenElse => "THEN or ELSE must contain at least one statement"
  | .tooManyIndexes form limit =>
    "Too many indexes for " ++ form ++ " access: at most " ++ toString limit ++ " allowed"
  | .misplacedLoopCondition keyword =>
    keyword ++ " is only allowed inside a FOR or LOOP statement"
  | .nextMismatch wanted got => "NEXT " ++ got ++ " does not match FOR " ++ wanted
  | .duplicateDefinition what name => what ++ " " ++ name ++ " is already defined"
  | .redundantDeclaration what name => what ++ " " ++ name ++ " is already declared"
  | .duplicateInsert name => "Insert " ++ name ++ " is already included"
  | .undefinedLabel name => "Label " ++ name ++ " not defined"
  | .undeclaredFunction name => "Function " ++ name ++ " has not been declared"
  | .undeclaredSubroutine name => "Subroutine " ++ name ++ " has not been declared"
  | .invalidRedeclaration name existing wanted =>
    name ++ " is already used as " ++ existing ++ " and cannot be declared as " ++ wanted
  | .systemVariableRedefinition name => "System variable " ++ name ++ " cannot be redefined"

/-- A second declaration of a routine is a warning, a second insert a remark, all else an error. -/
def severity : Cause → Severity
  | .redundantDeclaration _ _ => .warning
  | .duplicateInsert _ => .info
  | _ => .error

end Cause

/-- A cause and where it was found. -/
structure Fault where
  cause : Cause
  span : Span
  deriving DecidableEq, Repr, Inhabited

end BasicCheck
