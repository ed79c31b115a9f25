import PirFrontend.Text.Digits

/-!
Escaped text. Printable ASCII stands for itself, quotes and backslashes take a backslash, tab,
carriage return and line feed have letters, and every other character is written by its code
point in braces.
-/
namespace PirFrontend.Text

/-- The characters from the blank to the tilde. -/
def isPrintable (c : Char) : Bool := ' ' ≤ c && c ≤ '~'

/-- How one character is written inside quotes. -/
def escapeChar (c : Char) : List Char :=
  if c = '\t' then ['\\', 't']
  else if c = '\r' then ['\\', 'r']
  else if c = '\n' then ['\\', 'n']
  else if c = '\'' ∨ c = '"' ∨ c = '\\' then ['\\', c]
  else if isPrintable c then [c]
  else ['\\', 'u', '\x7b'] ++ digits 16 c.toNat ++ ['\x7d']

/-- Escapes every character of a text. -/
def escape (s : List Char) : List Char := s.flatMap escapeChar

/-- The text in double quotes, escaped. -/
def quoted (s : String) : String :=
  String.ofList ('"' :: escape s.toList ++ ['"'])

end PirFrontend.Text
