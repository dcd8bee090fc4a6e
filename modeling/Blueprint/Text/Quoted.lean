import Blueprint.Text.Unprintable
/-!
Quoted text: a string between double quotes in which a quote, a backslash and every unprintable
character is written as an escape, so the closing quote is the first bare one.
-/

namespace Blueprint.Text

/-- Hexadecimal digits in lower case, without leading zeros. -/
def hexDigits (n : Nat) : List Char :=
  Nat.toDigits 16 n

/-- The written form of one character inside quotes. -/
def escape (c : Char) : List Char :=
  if c = '\x00' then ['\\', '0']
  else if c = '\t' then ['\\', 't']
  else if c = '\r' then ['\\', 'r']
  else if c = '\n' then ['\\', 'n']
  else if c = '"' then ['\\', '"']
  else if c = '\\' then ['\\', '\\']
  else if isPrintable c then [c]
  else ['\\', 'u', '\x7b'] ++ hexDigits c.toNat ++ ['\x7d']

/-- The characters of a quoted string, quotes included. -/
def quotedChars (chars : List Char) : List Char :=
  '"' :: (chars.flatMap escape ++ ['"'])

/-- A string in quotes. -/
def quoted (s : String) : String :=
  String.ofList (quotedChars s.toList)

end Blueprint.Text
