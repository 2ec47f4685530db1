import BasicCheck.Text.Printable

/-!
# Quoted texts

A text between double quotes on one line. The quote, the backslash and the usual control characters
are written with a backslash, every other character without a visible form of its own by its code
point in hexadecimal digits between braces.
-/

namespace BasicCheck.Text

/-- The hexadecimal digits of a number, small letters, without leading zeros. -/
def hexDigits (n : Nat) : List Char := Nat.toDigits 16 n

/-- How a quoted text writes a character. -/
def quoteChar (c : Char) : List Char :=
  if c = '"' then ['\\', '"']
  else if c = '\\' then ['\\', '\\']
  else if c = '\n' then ['\\', 'n']
  else if c = '\r' then ['\\', 'r']
  else if c = '\t' then ['\\', 't']
  else if c = '\x00' then ['\\', '0']
  else if isPrintable c then [c]
  else ['\\', 'u', '\x7b'] ++ hexDigits c.toNat ++ ['\x7d']

/-- A text between quotes. -/
def quote (s : String) : String :=
  String.ofList (['"'] ++ s.toList.flatMap quoteChar ++ ['"'])

/-- A printable character other than the quote and the backslash stands for itself. -/
theorem quoteChar_of_isPrintable {c : Char} (h : isPrintable c) (hq : c ≠ '"') (hb : c ≠ '\\') :
    quoteChar c = [c] := by
  have hn : c ≠ '\n' := by rintro rfl; exact absurd h (by decide)
  have hr : c ≠ '\r' := by rintro rfl; exact absurd h (by decide)
  have ht : c ≠ '\t' := by rintro rfl; exact absurd h (by decide)
  have h0 : c ≠ '\x00' := by rintro rfl; exact absurd h (by decide)
  simp [quoteChar, *]

end BasicCheck.Text
