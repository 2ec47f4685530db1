/-!
# Keywords

The reserved words of Basic+, grouped by the statements that they belong to, and the few questions
about them that the grammar asks.
-/

namespace BasicCheck

/-- A reserved word. -/
inductive Keyword where
  -- headers
  | FUNCTION | SUBROUTINE | COMPILE | INSERT
  -- control flow
  | IF | THEN | ELSE | END | FOR | TO | STEP | NEXT | LOOP | REPEAT | WHILE | UNTIL | DO
  | BEGIN | CASE | GOSUB | GOTO | RETURN | ON | CALL | STOP
  -- declarations
  | DECLARE | EQU | COMMON | DIM | MAT
  -- records
  | READ | READU | READV | READO | READNEXT | MATREAD | WRITE | WRITEU | WRITEV | MATWRITE
  | OPEN | DELETE | LOCK | UNLOCK | SELECT | CLEARSELECT
  -- files of the operating system
  | OSREAD | OSWRITE | OSOPEN | OSBREAD | OSBWRITE | OSCLOSE | OSDELETE | LENGTH
  -- dynamic arrays
  | LOCATE | IN | USING | BY | SETTING | FROM | SWAP | WITH | CONVERT | TRANSFER | REMOVE | AT
  | MATPARSE | INTO
  -- the rest of the statements
  | INITRND | FLUSH | GARBAGECOLLECT | NULL | DEBUG
  -- operators
  | AND | OR | MATCHES
  deriving DecidableEq, Repr, Inhabited

namespace Keyword

/-- The name of a keyword in listings. -/
def title : Keyword → String
  | FUNCTION => "Function" | SUBROUTINE => "Subroutine" | COMPILE => "Compile"
  | INSERT => "Insert"
  | IF => "If" | THEN => "Then" | ELSE => "Else" | END => "End" | FOR => "For" | TO => "To"
  | STEP => "Step" | NEXT => "Next" | LOOP => "Loop" | REPEAT => "Repeat" | WHILE => "While"
  | UNTIL => "Until" | DO => "Do" | BEGIN => "Begin" | CASE => "Case" | GOSUB => "Gosub"
  | GOTO => "Goto" | RETURN => "Return" | ON => "On" | CALL => "Call" | STOP => "Stop"
  | DECLARE => "Declare" | EQU => "Equ" | COMMON => "Common" | DIM => "Dim" | MAT => "Mat"
  | READ => "Read" | READU => "ReadU" | READV => "ReadV" | READO => "ReadO"
  | READNEXT => "ReadNext" | MATREAD => "MatRead" | WRITE => "Write" | WRITEU => "WriteU"
  | WRITEV => "WriteV" | MATWRITE => "MatWrite" | OPEN => "Open" | DELETE => "Delete"
  | LOCK => "Lock" | UNLOCK => "Unlock" | SELECT => "Select" | CLEARSELECT => "ClearSelect"
  | OSREAD => "OsRead" | OSWRITE => "OsWrite" | OSOPEN => "OsOpen" | OSBREAD => "OsBRead"
  | OSBWRITE => "OsBWrite" | OSCLOSE => "OsClose" | OSDELETE => "OsDelete"
  | LENGTH => "Length"
  | LOCATE => "Locate" | IN => "In" | USING => "Using" | BY => "By" | SETTING => "Setting"
  | FROM => "From" | SWAP => "Swap" | WITH => "With" | CONVERT => "Convert"
  | TRANSFER => "Transfer" | REMOVE => "Remove" | AT => "At" | MATPARSE => "MatParse"
  | INTO => "Into"
  | INITRND => "InitRnd" | FLUSH => "Flush" | GARBAGECOLLECT => "GarbageCollect"
  | NULL => "Null" | DEBUG => "Debug"
  | AND => "And" | OR => "Or" | MATCHES => "Matches"

/-- All keywords. -/
def all : List Keyword :=
  [FUNCTION, SUBROUTINE, COMPILE, INSERT,
    IF, THEN, ELSE, END, FOR, TO, STEP, NEXT, LOOP, REPEAT, WHILE, UNTIL, DO,
    BEGIN, CASE, GOSUB, GOTO, RETURN, ON, CALL, STOP,
    DECLARE, EQU, COMMON, DIM, MAT,
    READ, READU, READV, READO, READNEXT, MATREAD, WRITE, WRITEU, WRITEV, MATWRITE,
    OPEN, DELETE, LOCK, UNLOCK, SELECT, CLEARSELECT,
    OSREAD, OSWRITE, OSOPEN, OSBREAD, OSBWRITE, OSCLOSE, OSDELETE, LENGTH,
    LOCATE, IN, USING, BY, SETTING, FROM, SWAP, WITH, CONVERT, TRANSFER, REMOVE, AT,
    MATPARSE, INTO,
    INITRND, FLUSH, GARBAGECOLLECT, NULL, DEBUG,
    AND, OR, MATCHES]

theorem mem_all (k : Keyword) : k ∈ all := by
  cases k <;> decide

/-- Keywords that a blank behind them keeps from being read as a function name. -/
def isBlankSensitive : Keyword → Bool
  | IF | RETURN | WHILE | UNTIL => true
  | _ => false

/-- Keywords that may also name a function when a parenthesis follows. -/
def mayNameFunction : Keyword → Bool
  | IF | RETURN | WHILE | UNTIL | DELETE | INSERT | REMOVE | CONVERT | SWAP | LOCATE => true
  | _ => false

/-- Keywords that only ever follow an expression, so that they can still name variables. -/
def isContextual : Keyword → Bool
  | LENGTH | IN | USING | BY | SETTING | WITH | AT | INTO => true
  | _ => false

end Keyword

end BasicCheck
