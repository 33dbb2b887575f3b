/-
BuildRelay.Text.Quoted — text as it is shown inside a message.

A quoted text stands between double quotes. A quote and a backslash get a backslash before them,
the common control characters their short escapes, and every other character that is not printable
its code in hexadecimal.
-/
import BuildRelay.Text.Printable

namespace BuildRelay.Text

/-- The lower-case hexadecimal digits of a number. -/
def hex (n : Nat) : List Char := Nat.toDigits 16 n

/-- How one character is written between quotes. -/
def escape (c : Char) : List Char :=
  if c = '"' then ['\\', '"']
  else if c = '\\' then ['\\', '\\']
  else if c = '\n' then ['\\', 'n']
  else if c = '\r' then ['\\', 'r']
  else if c = '\t' then ['\\', 't']
  else if c = '\x00' then ['\\', '0']
  else if isPrintable c then [c]
  else ['\\', 'u', '\x7b'] ++ hex c.toNat ++ ['\x7d']

/-- A text between quotes, every character of it visible. -/
def quoted (s : String) : String := String.ofList ('"' :: s.toList.flatMap escape ++ ['"'])

end BuildRelay.Text
