/-
Values in words, as they stand in a list of plain texts.

A text stands for itself.  Inside a list or a record texts are quoted.
-/
import SchemaPaths.Decimal.Shortest
import SchemaPaths.Json.Value
import SchemaPaths.Text.Quoted

namespace SchemaPaths
namespace Json
namespace Wording

/-! ## Numbers -/

/-- How a real number is laid out: with a point where the digits before it, the zeros behind or
before them included, are not too many, and else with a power of ten of at least two digits. -/
structure Layout where
  mostPlaces : Int
  leastPlaces : Int
  powerWidth : Nat

def layout : Layout := ⟨16, -3, 2⟩

def zeros (n : Int) : List Char := List.replicate n.toNat '0'

def positional (ds : List Char) (places : Int) : List Char :=
  let count : Int := ds.length
  if places ≤ 0 then '0' :: '.' :: zeros (-places) ++ ds
  else if count ≤ places then ds ++ zeros (places - count) ++ ['.', '0']
  else ds.take places.toNat ++ '.' :: ds.drop places.toNat

def scientific (l : Layout) (ds : List Char) (places : Int) : List Char :=
  let power := places - 1
  let size := (toString power.natAbs).toList
  let tail := match ds.drop 1 with
    | [] => []
    | ds => '.' :: ds
  ds.take 1 ++ tail ++ ['e', if power < 0 then '-' else '+'] ++
    zeros ((l.powerWidth : Int) - size.length) ++ size

def magnitude (mantissa : Nat) (exponent : Int) : List Char :=
  if mantissa == 0 then "0.0".toList
  else
    let (ds, places) := Decimal.Shortest.digits mantissa exponent
    if layout.leastPlaces ≤ places && places ≤ layout.mostPlaces then positional ds places
    else scientific layout ds places

def sign (negative : Bool) : List Char := if negative then ['-'] else []

def real : Decimal.Binary → List Char
  | .finite negative m e => sign negative ++ magnitude m e
  | .infinite negative => sign negative ++ "inf".toList
  | .notNumber => "nan".toList

/-! ## Texts -/

/-- The character of a code point.  Half a pair is no character. -/
def char? (n : Nat) : Option Char := if n.isValidChar then some (Char.ofNat n) else none

def plain (s : Points) : List Char := s.map fun n => (char? n).getD '\ufffd'

def quoted (s : Points) : List Char :=
  let quote := Text.Quoted.quoteFor (s.filterMap char?)
  quote :: s.flatMap (fun n => match char? n with
    | some c => Text.Quoted.encodeChar quote c
    | none => Text.Quoted.byNumber n) ++ [quote]

/-! ## Values -/

def atom (word : String) : List Char := word.toList

mutual

/-- A value inside another. -/
def inner : Value → List Char
  | .null => atom "None"
  | .bool true => atom "True"
  | .bool false => atom "False"
  | .integer n => (toString n).toList
  | .real x => real x
  | .text s => quoted s
  | .list vs => '[' :: items vs ++ [']']
  | .record fs => '\x7b' :: fields fs ++ ['\x7d']

def items : List Value → List Char
  | [] => []
  | [v] => inner v
  | v :: vs => inner v ++ ", ".toList ++ items vs

def fields : List (Points × Value) → List Char
  | [] => []
  | [f] => field f
  | f :: fs => field f ++ ", ".toList ++ fields fs

def field : Points × Value → List Char
  | (k, v) => quoted k ++ ": ".toList ++ inner v

end

/-- Whether the words of a value are made of characters alone.  Only a text by itself may hold half
a pair; inside another value halves are written by their numbers. -/
def isWhole : Value → Bool
  | .text s => s.all fun n => (char? n).isSome
  | _ => true

/-- The words of a value, with a mark for each half of a pair that they hold. -/
def ofValue : Value → String
  | .text s => String.ofList (plain s)
  | v => String.ofList (inner v)

end Wording
end Json
end SchemaPaths
