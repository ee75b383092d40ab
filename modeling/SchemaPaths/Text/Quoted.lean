/-
Text in quotes, so that every character of it can be seen.

Single quotes enclose the text unless it holds one and no double quote.  The enclosing quote and the
backslash get a backslash, the line ends and the tab have letters, and a character that is not shown
as itself is written by its number, with the fewest of two, four or eight digits that hold it.
-/
import SchemaPaths.Text.Printable

namespace SchemaPaths
namespace Text
namespace Quoted

def hexDigit (n : Nat) : Char :=
  if n < 10 then Char.ofNat (n + '0'.toNat) else Char.ofNat (n - 10 + 'a'.toNat)

/-- The last `width` digits of a number to the base sixteen. -/
def hex : Nat → Nat → List Char
  | 0, _ => []
  | width + 1, n => hex width (n / 16) ++ [hexDigit (n % 16)]

def byNumber (n : Nat) : List Char :=
  if n ≤ 0xff then '\\' :: 'x' :: hex 2 n
  else if n ≤ 0xffff then '\\' :: 'u' :: hex 4 n
  else '\\' :: 'U' :: hex 8 n

def encodeChar (quote c : Char) : List Char :=
  if c == quote || c == '\\' then ['\\', c]
  else if c == '\t' then ['\\', 't']
  else if c == '\n' then ['\\', 'n']
  else if c == '\r' then ['\\', 'r']
  else if Printable.isPrintable c then [c]
  else byNumber c.toNat

def quoteFor (cs : List Char) : Char :=
  if cs.contains '\'' && !cs.contains '"' then '"' else '\''

def encode (cs : List Char) : List Char :=
  quoteFor cs :: cs.flatMap (encodeChar (quoteFor cs)) ++ [quoteFor cs]

def ofString (s : String) : String :=
  String.ofList (encode s.toList)

end Quoted
end Text
end SchemaPaths
