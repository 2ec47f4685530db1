/-!
# JSON

The values that reports are made of and their two written forms: `compact` on one line without
blanks, and `pretty` with one member on each line, indented by two blanks. Members keep the order in
which they are given.
-/

namespace BasicCheck

/-- A JSON value. -/
inductive Json where
  | null
  | bool (b : Bool)
  | number (n : Nat)
  | text (s : String)
  | list (items : List Json)
  | object (members : List (String × Json))

namespace Json

/-! ## 1. Texts -/

/-- A hexadecimal digit. -/
def hexDigit (n : Nat) : Char := Nat.digitChar (n % 16)

/-- How a JSON text writes a character: the quote, the backslash and the control characters below
    the blank are escaped, everything else stands for itself. -/
def escapeChar (c : Char) : List Char :=
  if c = '"' then ['\\', '"']
  else if c = '\\' then ['\\', '\\']
  else if c = '\x08' then ['\\', 'b']
  else if c = '\t' then ['\\', 't']
  else if c = '\n' then ['\\', 'n']
  else if c = '\x0c' then ['\\', 'f']
  else if c = '\r' then ['\\', 'r']
  else if c.val < 32 then ['\\', 'u', '0', '0', hexDigit (c.toNat / 16), hexDigit c.toNat]
  else [c]

/-- A text between quotes. -/
def quote (s : String) : String :=
  String.ofList (['"'] ++ s.toList.flatMap escapeChar ++ ['"'])

/-! ## 2. Values -/

mutual

/-- A value on one line, without blanks between its parts. -/
def compact : Json → String
  | .null => "null"
  | .bool b => if b then "true" else "false"
  | .number n => toString n
  | .text s => quote s
  | .list items => "[" ++ ",".intercalate (compactItems items) ++ "]"
  | .object members => "\x7b" ++ ",".intercalate (compactMembers members) ++ "\x7d"

def compactItems : List Json → List String
  | [] => []
  | v :: rest => compact v :: compactItems rest

def compactMembers : List (String × Json) → List String
  | [] => []
  | (name, v) :: rest => (quote name ++ ":" ++ compact v) :: compactMembers rest

end

/-- The start of a line at a given depth. -/
def margin (depth : Nat) : String := "\n" ++ String.ofList (List.replicate (2 * depth) ' ')

/-- Lines at a given depth between an opening and a closing bracket; nothing in between stays on one
    line. -/
def bracket (opening closing : String) (depth : Nat) (lines : List String) : String :=
  if lines.isEmpty then opening ++ closing
  else opening ++ ",".intercalate (lines.map (margin (depth + 1) ++ ·)) ++ margin depth ++ closing

mutual

/-- A value whose inner lines stand at the given depth. -/
def prettyAt (depth : Nat) : Json → String
  | .list items => bracket "[" "]" depth (prettyItems depth items)
  | .object members => bracket "\x7b" "\x7d" depth (prettyMembers depth members)
  | .null => "null"
  | .bool b => if b then "true" else "false"
  | .number n => toString n
  | .text s => quote s

def prettyItems (depth : Nat) : List Json → List String
  | [] => []
  | v :: rest => prettyAt (depth + 1) v :: prettyItems depth rest

def prettyMembers (depth : Nat) : List (String × Json) → List String
  | [] => []
  | (name, v) :: rest => (quote name ++ ": " ++ prettyAt (depth + 1) v) :: prettyMembers depth rest

end

/-- A value with one member on each line. -/
def pretty (v : Json) : String := prettyAt 0 v

end Json

end BasicCheck
