/-
The prefixes that the bytes of a document seem to declare.

A tree has no prefixes left, but values such as type names are written with them.  So they are
looked up in the bytes themselves, wherever something there has the shape of a declaration: inside a
comment as well as in a start tag.  The first declaration of a prefix wins.
-/
import SchemaPaths.Markup.Document
import SchemaPaths.Text.Blank
import SchemaPaths.Text.Utf8

namespace SchemaPaths
namespace Markup

/-- Prefixes with their namespaces, in the order of their first declarations; the empty prefix is
the default. -/
abbrev Prefixes := List (String × String)

namespace Prefixes

def isPrefixChar (c : Char) : Bool :=
  c.isAlphanum || c == '_' || c == '.' || c == '-'

def isQuote (c : Char) : Bool := c == '"' || c == '\''

/-- The value after the equals sign, and what is left after its closing quote.  Either quote closes
the value, whichever opened it. -/
def value? (cs : List Char) : Option (List Char × List Char) :=
  match cs.dropWhile Text.isBlank with
  | '=' :: cs =>
    match cs.dropWhile Text.isBlank with
    | q :: cs =>
      if isQuote q then
        match cs.dropWhile fun c => !isQuote c with
        | _ :: rest => some (cs.takeWhile fun c => !isQuote c, rest)
        | [] => none
      else none
    | [] => none
  | _ => none

/-- The declaration that `cs` begins with, and what is left after it. -/
def declaration? (cs : List Char) : Option ((String × String) × List Char) :=
  match cs with
  | 'x' :: 'm' :: 'l' :: 'n' :: 's' :: ':' :: cs =>
    let name := cs.takeWhile isPrefixChar
    if name.isEmpty then none
    else (value? (cs.dropWhile isPrefixChar)).map fun (v, rest) =>
      ((String.ofList name, String.ofList v), rest)
  | 'x' :: 'm' :: 'l' :: 'n' :: 's' :: cs =>
    (value? cs).map fun (v, rest) => (("", String.ofList v), rest)
  | _ => none

def declarationsFrom : Nat → List Char → List (String × String)
  | 0, _ => []
  | _, [] => []
  | fuel + 1, c :: cs =>
    match declaration? (c :: cs) with
    | some (d, rest) => d :: declarationsFrom fuel rest
    | none => declarationsFrom fuel cs

def add (ps : Prefixes) (d : String × String) : Prefixes :=
  if (ps.lookup d.1).isSome then ps else ps ++ [d]

def ofChars (cs : List Char) : Prefixes :=
  (declarationsFrom cs.length cs).foldl add [("xml", xmlSpace)]

def ofBytes (bs : List UInt8) : Prefixes :=
  ofChars (Text.Utf8.decodeLossy bs)

/-- The prefix declared first for a namespace, the default apart. -/
def prefixOf? (ps : Prefixes) (space : String) : Option String :=
  (ps.find? fun d => d.2 == space && d.1 != "").map (·.1)

end Prefixes
end Markup
end SchemaPaths
