import BasicCheck.Text.LetterCase
import BasicCheck.Token.Keyword

/-!
# Kinds of tokens

What a token is, apart from its text. The words that stand for a keyword or for a comparison are in
one table (`Kind.words`), looked up without regard to case.
-/

namespace BasicCheck

/-! ## 1. Comparisons -/

/-- What a comparison asks. -/
inductive Relation where
  | eq | ne | lt | gt | le | ge
  deriving DecidableEq, Repr, Inhabited

/-- How a comparison looks at its operands: as the language usually does, without regard to case,
    or character by character. -/
inductive Manner where
  | plain | anyCase | exact
  deriving DecidableEq, Repr, Inhabited

/-- The two letters of a relation in names. -/
def Relation.title : Relation → String
  | .eq => "Eq" | .ne => "Ne" | .lt => "Lt" | .gt => "Gt" | .le => "Le" | .ge => "Ge"

def Relation.all : List Relation := [.eq, .ne, .lt, .gt, .le, .ge]

/-! ## 2. Kinds -/

/-- What a token is. -/
inductive Kind where
  | keyword (word : Keyword)
  | ident
  /-- A name such as `@id` from the fixed set of system variables. -/
  | systemVariable
  | number
  /-- A literal such as `0x1F` or `\1F\`. -/
  | hexNumber
  /-- A literal between quotes. -/
  | string
  /-- The directive `$insert`. -/
  | insertDirective
  | relation (manner : Manner) (relation : Relation)
  | doubleEqual
  | plus | minus | star | slash | caret
  /-- Concatenation, or the end of a label. -/
  | colon
  | doubleColon | doublePlus | doubleMinus | doubleStar | doubleSlash
  | plusEqual | minusEqual | starEqual | slashEqual | colonEqual
  | leftParen | rightParen | leftBracket | rightBracket | comma | semicolon
  /-- Access to a member of an object. -/
  | arrow
  /-- An `@` that opens no system variable. -/
  | atSign
  | newline
  | lineComment | blockComment
  /-- A `|` at the end of a line, which joins it with the next one. -/
  | continuation
  | endOfFile
  | unknown
  deriving DecidableEq, Repr, Inhabited

namespace Kind

/-- The sign `=`, which assigns and compares. -/
@[match_pattern] abbrev equal : Kind := .relation .plain .eq
@[match_pattern] abbrev notEqual : Kind := .relation .plain .ne
@[match_pattern] abbrev less : Kind := .relation .plain .lt
@[match_pattern] abbrev greater : Kind := .relation .plain .gt
@[match_pattern] abbrev lessEqual : Kind := .relation .plain .le
@[match_pattern] abbrev greaterEqual : Kind := .relation .plain .ge

/-- The name of a kind in listings. -/
def title : Kind → String
  | keyword word => word.title
  | ident => "Ident" | systemVariable => "SystemVariable" | number => "Number"
  | hexNumber => "HexNumber" | string => "Str" | insertDirective => "DollarInsert"
  | equal => "Equal" | notEqual => "NotEqual" | less => "Less" | greater => "Greater"
  | lessEqual => "LessEqual" | greaterEqual => "GreaterEqual"
  | relation .anyCase r => r.title ++ "C"
  | relation .exact r => r.title ++ "X"
  | doubleEqual => "EqualEqual"
  | plus => "Plus" | minus => "Minus" | star => "Star" | slash => "Slash" | caret => "Caret"
  | colon => "Colon" | doubleColon => "ColonColon" | doublePlus => "PlusPlus"
  | doubleMinus => "MinusMinus" | doubleStar => "StarStar" | doubleSlash => "SlashSlash"
  | plusEqual => "PlusEq" | minusEqual => "MinusEq" | starEqual => "StarEq"
  | slashEqual => "SlashEq" | colonEqual => "ColonEq"
  | leftParen => "LParen" | rightParen => "RParen" | leftBracket => "LBracket"
  | rightBracket => "RBracket" | comma => "Comma" | semicolon => "Semicolon"
  | arrow => "Arrow" | atSign => "AtSign" | newline => "Newline"
  | lineComment => "LineComment" | blockComment => "BlockComment"
  | continuation => "Continuation" | endOfFile => "Eof" | unknown => "Unknown"

/-- All kinds. -/
def all : List Kind :=
  Keyword.all.map keyword ++
  [ident, systemVariable, number, hexNumber, string, insertDirective] ++
  [Manner.plain, .anyCase, .exact].flatMap (fun m => Relation.all.map (relation m)) ++
  [doubleEqual, plus, minus, star, slash, caret, colon, doubleColon, doublePlus, doubleMinus,
    doubleStar, doubleSlash, plusEqual, minusEqual, starEqual, slashEqual, colonEqual, leftParen,
    rightParen, leftBracket, rightBracket, comma, semicolon, arrow, atSign, newline, lineComment,
    blockComment, continuation, endOfFile, unknown]

/-- The kind with a given name in listings. -/
def ofTitle? (name : String) : Option Kind :=
  all.find? (·.title == name)

/-! ## 3. Classes of kinds -/

def isKeyword : Kind → Bool
  | keyword _ => true
  | _ => false

/-- Tokens that the grammar never sees. -/
def isTrivia : Kind → Bool
  | lineComment | blockComment | continuation => true
  | _ => false

/-- Tokens that end a statement. -/
def isSeparator : Kind → Bool
  | newline | semicolon => true
  | _ => false

def isBlankSensitive : Kind → Bool
  | keyword word => word.isBlankSensitive
  | _ => false

def mayNameFunction : Kind → Bool
  | keyword word => word.mayNameFunction
  | _ => false

def isContextual : Kind → Bool
  | keyword word => word.isContextual
  | _ => false

def isLogical : Kind → Bool
  | keyword .AND | keyword .OR | keyword .MATCHES => true
  | _ => false

def isComparison : Kind → Bool
  | relation _ _ | doubleEqual => true
  | _ => false

def isConcatenation : Kind → Bool
  | colon | doubleColon => true
  | _ => false

def isAdditive : Kind → Bool
  | plus | minus | doublePlus | doubleMinus => true
  | _ => false

def isMultiplicative : Kind → Bool
  | star | slash | doubleStar | doubleSlash => true
  | _ => false

/-! ## 4. Words -/

/-- The words that have a kind of their own, in small letters. -/
def words : List (String × Kind) :=
  [("function", keyword .FUNCTION), ("subroutine", keyword .SUBROUTINE),
    ("compile", keyword .COMPILE), ("insert", keyword .INSERT),
    ("if", keyword .IF), ("then", keyword .THEN), ("else", keyword .ELSE), ("end", keyword .END),
    ("for", keyword .FOR), ("to", keyword .TO), ("step", keyword .STEP), ("next", keyword .NEXT),
    ("loop", keyword .LOOP), ("repeat", keyword .REPEAT), ("while", keyword .WHILE),
    ("until", keyword .UNTIL), ("do", keyword .DO), ("begin", keyword .BEGIN),
    ("case", keyword .CASE), ("gosub", keyword .GOSUB), ("goto", keyword .GOTO),
    ("return", keyword .RETURN), ("on", keyword .ON), ("call", keyword .CALL),
    ("stop", keyword .STOP),
    ("declare", keyword .DECLARE), ("equ", keyword .EQU), ("equate", keyword .EQU),
    ("common", keyword .COMMON), ("dim", keyword .DIM), ("dimension", keyword .DIM),
    ("mat", keyword .MAT),
    ("read", keyword .READ), ("readu", keyword .READU), ("readv", keyword .READV),
    ("reado", keyword .READO), ("readnext", keyword .READNEXT), ("matread", keyword .MATREAD),
    ("write", keyword .WRITE), ("writeu", keyword .WRITEU), ("writev", keyword .WRITEV),
    ("matwrite", keyword .MATWRITE), ("open", keyword .OPEN), ("delete", keyword .DELETE),
    ("lock", keyword .LOCK), ("unlock", keyword .UNLOCK), ("select", keyword .SELECT),
    ("clearselect", keyword .CLEARSELECT),
    ("osread", keyword .OSREAD), ("oswrite", keyword .OSWRITE), ("osopen", keyword .OSOPEN),
    ("osbread", keyword .OSBREAD), ("osbwrite", keyword .OSBWRITE), ("osclose", keyword .OSCLOSE),
    ("osdelete", keyword .OSDELETE), ("length", keyword .LENGTH),
    ("locate", keyword .LOCATE), ("in", keyword .IN), ("using", keyword .USING),
    ("by", keyword .BY), ("setting", keyword .SETTING), ("from", keyword .FROM),
    ("swap", keyword .SWAP), ("with", keyword .WITH), ("convert", keyword .CONVERT),
    ("transfer", keyword .TRANSFER), ("remove", keyword .REMOVE), ("at", keyword .AT),
    ("matparse", keyword .MATPARSE), ("into", keyword .INTO),
    ("initrnd", keyword .INITRND), ("flush", keyword .FLUSH),
    ("garbagecollect", keyword .GARBAGECOLLECT), ("null", keyword .NULL), ("debug", keyword .DEBUG),
    ("and", keyword .AND), ("or", keyword .OR), ("match", keyword .MATCHES),
    ("matches", keyword .MATCHES),
    ("eq", equal), ("ne", notEqual), ("lt", less), ("gt", greater), ("le", lessEqual),
    ("ge", greaterEqual)]

/-- The comparisons that are written as a word behind an underscore, in small letters. -/
def underscoreWords : List (String × Kind) :=
  [("_eqc", relation .anyCase .eq), ("_nec", relation .anyCase .ne),
    ("_ltc", relation .anyCase .lt), ("_gtc", relation .anyCase .gt),
    ("_lec", relation .anyCase .le), ("_gec", relation .anyCase .ge),
    ("_eqx", relation .exact .eq), ("_nex", relation .exact .ne),
    ("_ltx", relation .exact .lt), ("_gtx", relation .exact .gt),
    ("_lex", relation .exact .le), ("_gex", relation .exact .ge)]

/-- The kind of a word that is not just a name. -/
def ofWord? (word : String) : Option Kind :=
  words.lookup (Text.fold word)

/-- The comparison that a word behind an underscore stands for. -/
def ofUnderscoreWord? (word : String) : Option Kind :=
  underscoreWords.lookup (Text.fold word)

end Kind

end BasicCheck
