import FragmentRelay.Text.Unshown

/-!
# Quoted text: a text between quotes on one line

A quote and a backslash are written after a backslash, tab, line feed, carriage return and the zero
character by their letter, every other unshown character by its number in hexadecimal digits, and
all else as it is.
-/

namespace FragmentRelay.Text

/-- The hexadecimal digits of a code point, without leading zeros. -/
def codeDigits (c : Char) : List Char := Nat.toDigits 16 c.toNat

/-- How one character is written inside quotes. -/
def quoteChar (c : Char) : List Char :=
  if c = '"' ∨ c = '\\' then ['\\', c]
  else if c = '\t' then ['\\', 't']
  else if c = '\n' then ['\\', 'n']
  else if c = '\r' then ['\\', 'r']
  else if c = '\x00' then ['\\', '0']
  else if isUnshown c then ['\\', 'u', '\x7b'] ++ codeDigits c ++ ['\x7d']
  else [c]

/-- A text between quotes. -/
def quoted (s : String) : String :=
  String.ofList ('"' :: s.toList.flatMap quoteChar ++ ['"'])

end FragmentRelay.Text
