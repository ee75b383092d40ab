/-
Whole numbers as people write them.

Blanks may stand around the number and a sign in front of it, the digits may belong to any script,
and single underscores may part them.  A number of more than 4300 digits is refused.
-/
import SchemaPaths.Text.Blank
import SchemaPaths.Text.Digit

namespace SchemaPaths
namespace Text
namespace Integer

def digitLimit : Nat := 4300

/-- Reads digits that single underscores may part.  `after` tells whether a digit stands right
before, so that an underscore is allowed. -/
def digits? : Bool → List Char → Option (List Nat)
  | after, [] => if after then some [] else none
  | after, '_' :: cs => if after then digits? false cs else none
  | _, c :: cs => do
    let d ← Digit.value? c
    let ds ← digits? true cs
    some (d :: ds)

def natural? (cs : List Char) : Option Nat := do
  let ds ← digits? false cs
  if ds.length ≤ digitLimit then some (ds.foldl (fun n d => n * 10 + d) 0) else none

def ofChars? : List Char → Option Int
  | '-' :: cs => (natural? cs).map fun n => -(n : Int)
  | '+' :: cs => (natural? cs).map Int.ofNat
  | cs => (natural? cs).map Int.ofNat

def ofString? (s : String) : Option Int :=
  ofChars? (trimChars s.toList)

end Integer
end Text
end SchemaPaths
