import RttiProbe.Text.Printable
import RttiProbe.Text.Numeral
/-!
# Quoted text

A text between double quotes on one line.  The common control characters, the double quote and the
backslash are written with a backslash; any other character that cannot be printed is written as its
code point in lower-case hexadecimal.  A single quote cannot end the text and stays as it is.
-/

set_option autoImplicit false

namespace RttiProbe.Text

/-- The number in lower-case hexadecimal. -/
def Numeral.lowerHex (n : Nat) : Text := (upperHex n).map Char.toLower

/-- How one character is written between quotes. -/
def quoteChar (c : Char) : Text :=
  if c = '\x00' then ['\\', '0']
  else if c = '\t' then ['\\', 't']
  else if c = '\r' then ['\\', 'r']
  else if c = '\n' then ['\\', 'n']
  else if c = '\x22' || c = '\\' then ['\\', c]
  else if isPrintable c then [c]
  else "\\u\x7b".toList ++ Numeral.lowerHex c.toNat ++ "\x7d".toList

/-- The text between double quotes. -/
def quote (s : Text) : Text := '\x22' :: s.flatMap quoteChar ++ ['\x22']

end RttiProbe.Text
