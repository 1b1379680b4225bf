import Scriptlet.Text.Hex
import Scriptlet.Text.Printable

/-!
# Quoted text

Texts and characters as messages show them. The quote itself and the backslash are escaped, the
controls that have a letter of their own take it, the other ASCII controls are two hexadecimal
digits, and what is not printable is four or eight of them.

## Main definitions

* `Text.quote`: a text between double quotes
* `Text.quoteChar`: a character between single quotes
-/

namespace Scriptlet.Text

/-- How `c` is written between a pair of the quotes `mark`. -/
def escape (mark c : Char) : List Char :=
  if c == mark || c == '\\' then ['\\', c]
  else if isPrintable c then [c]
  else match c.toNat with
    | 0x07 => ['\\', 'a']
    | 0x08 => ['\\', 'b']
    | 0x09 => ['\\', 't']
    | 0x0A => ['\\', 'n']
    | 0x0B => ['\\', 'v']
    | 0x0C => ['\\', 'f']
    | 0x0D => ['\\', 'r']
    | n =>
      if n < 0x20 || n == 0x7F then '\\' :: 'x' :: hexDigits 2 n
      else if n < 0x10000 then '\\' :: 'u' :: hexDigits 4 n
      else '\\' :: 'U' :: hexDigits 8 n

/-- A text between double quotes. -/
def quote (s : String) : String :=
  String.ofList ('"' :: (s.toList.flatMap (escape '"') ++ ['"']))

/-- A character between single quotes. -/
def quoteChar (c : Char) : String :=
  String.ofList ('\'' :: (escape '\'' c ++ ['\'']))

end Scriptlet.Text
