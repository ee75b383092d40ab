/-
Texts as the data format writes them, in ASCII alone.

Quotes enclose a text.  A character outside ASCII is written by its number with four digits, or by
those of the pair that stands for it when four are not enough.
-/
import SchemaPaths.Text.Quoted

namespace SchemaPaths
namespace Json
namespace Written

def unit (n : Nat) : List Char := '\\' :: 'u' :: Text.Quoted.hex 4 n

def byNumber (n : Nat) : List Char :=
  if n < 0x10000 then unit n
  else unit (0xd800 + (n - 0x10000) / 0x400) ++ unit (0xdc00 + (n - 0x10000) % 0x400)

def encodeChar (c : Char) : List Char :=
  if c == '"' || c == '\\' then ['\\', c]
  else if c == '\n' then ['\\', 'n']
  else if c == '\r' then ['\\', 'r']
  else if c == '\t' then ['\\', 't']
  else if c == '\x08' then ['\\', 'b']
  else if c == '\x0c' then ['\\', 'f']
  else if ' ' ≤ c && c ≤ '~' then [c]
  else byNumber c.toNat

def text (s : String) : String := String.ofList ('"' :: s.toList.flatMap encodeChar ++ ['"'])

def absent : String := "null"
def emptyList : String := "[]"

/-- A record of fields whose values are written already. -/
def record (fields : List (String × String)) : String :=
  "\x7b" ++ ", ".intercalate (fields.map fun f => text f.1 ++ ": " ++ f.2) ++ "\x7d"

end Written
end Json
end SchemaPaths
