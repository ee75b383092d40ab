/-
Reading a value from its text.

The words `NaN`, `Infinity` and `-Infinity` are numbers here.  Whole numbers have no bound, but one
of more than 4300 digits is refused, which is told apart from text that is no value.
-/
import SchemaPaths.Json.Value
import SchemaPaths.Text.Integer

namespace SchemaPaths
namespace Json

inductive Fault where
  | malformed
  | tooLong
deriving DecidableEq, Repr

namespace Reading

abbrev Read (α : Type) := Except Fault (α × List Char)

def isSpace (c : Char) : Bool := c == ' ' || c == '\t' || c == '\n' || c == '\r'

def skip (cs : List Char) : List Char := cs.dropWhile isSpace

/-! ## Texts -/

def hexValue? (c : Char) : Option Nat :=
  if '0' ≤ c && c ≤ '9' then some (c.toNat - 48)
  else if 'a' ≤ c && c ≤ 'f' then some (c.toNat - 87)
  else if 'A' ≤ c && c ≤ 'F' then some (c.toNat - 55)
  else none

def hex? (a b c d : Char) : Option Nat := do
  return ((← hexValue? a) * 16 + (← hexValue? b)) * 256 + (← hexValue? c) * 16 + (← hexValue? d)

def escape? (c : Char) : Option Nat :=
  match c with
  | '"' => some 0x22
  | '\\' => some 0x5c
  | '/' => some 0x2f
  | 'b' => some 8
  | 'f' => some 12
  | 'n' => some 10
  | 'r' => some 13
  | 't' => some 9
  | _ => none

def isHigh (n : Nat) : Bool := 0xd800 ≤ n && n ≤ 0xdbff
def isLow (n : Nat) : Bool := 0xdc00 ≤ n && n ≤ 0xdfff

/-- Puts a code point before others.  Two halves of a pair become one character; only a half that is
escaped can be at hand. -/
def join (n : Nat) (rest : Points) : Points :=
  match rest with
  | m :: ms =>
    if isHigh n && isLow m then (0x10000 + (n - 0xd800) * 0x400 + (m - 0xdc00)) :: ms
    else n :: m :: ms
  | [] => [n]

/-- Reads up to the closing quote. -/
def text : List Char → Read Points
  | [] => .error .malformed
  | '"' :: cs => .ok ([], cs)
  | '\\' :: 'u' :: a :: b :: c :: d :: cs =>
    match hex? a b c d with
    | none => .error .malformed
    | some n => (text cs).map fun (s, rest) => (join n s, rest)
  | '\\' :: e :: cs =>
    match escape? e with
    | none => .error .malformed
    | some n => (text cs).map fun (s, rest) => (n :: s, rest)
  | c :: cs =>
    if c.toNat < 0x20 || c == '\\' then .error .malformed
    else (text cs).map fun (s, rest) => (c.toNat :: s, rest)

/-! ## Numbers -/

def isDigit (c : Char) : Bool := '0' ≤ c && c ≤ '9'

def natural (ds : List Char) : Nat := ds.foldl (fun n d => n * 10 + (d.toNat - 48)) 0

def span (cs : List Char) : List Char × List Char := (cs.takeWhile isDigit, cs.dropWhile isDigit)

/-- The digits before the point: no zero stands before another digit. -/
def whole? : List Char → Option (List Char × List Char)
  | '0' :: cs => some (['0'], cs)
  | cs => match span cs with
    | ([], _) => none
    | (ds, rest) => some (ds, rest)

/-- The digits after a point, if there are any. -/
def fraction (cs : List Char) : List Char × List Char :=
  match cs with
  | '.' :: rest => match span rest with
    | ([], _) => ([], cs)
    | (ds, rest) => (ds, rest)
  | _ => ([], cs)

def signed (cs : List Char) : Bool × List Char :=
  match cs with
  | '-' :: rest => (true, rest)
  | '+' :: rest => (false, rest)
  | _ => (false, cs)

/-- The power after the letter for it, if there is one. -/
def power (cs : List Char) : Option Int × List Char :=
  match cs with
  | e :: rest =>
    if e == 'e' || e == 'E' then
      let (negative, rest) := signed rest
      match span rest with
      | ([], _) => (none, cs)
      | (ds, rest) => (some (if negative then -(natural ds : Int) else natural ds), rest)
    else (none, cs)
  | [] => (none, cs)

def integer (negative : Bool) (ds : List Char) : Except Fault Value :=
  if Text.Integer.digitLimit < ds.length then .error .tooLong
  else .ok (.integer (if negative then -(natural ds : Int) else natural ds))

def real (negative : Bool) (ds fs : List Char) (power : Int) : Value :=
  let all := (ds ++ fs).dropWhile (· == '0')
  .real (Decimal.Binary.ofDecimal negative (natural all) all.length (power - fs.length))

def number (negative : Bool) (cs : List Char) : Except Fault (Value × List Char) := do
  match whole? cs with
  | none => throw .malformed
  | some (ds, rest) =>
    let (fs, rest) := fraction rest
    let (e, rest) := power rest
    if fs.isEmpty && e.isNone then return (← integer negative ds, rest)
    return (real negative ds fs (e.getD 0), rest)

/-! ## Values -/

def words : List (String × Value) := [
  ("null", .null), ("true", .bool true), ("false", .bool false), ("NaN", .real .notNumber),
  ("Infinity", .real (.infinite false)), ("-Infinity", .real (.infinite true))]

/-- The word at hand, and what follows it. -/
def word? (cs : List Char) : Option (Value × List Char) :=
  (words.find? fun w => w.1.toList.isPrefixOf cs).map fun w => (w.2, cs.drop w.1.length)

def scalar (cs : List Char) : Read Value :=
  match word? cs, cs with
  | some r, _ => .ok r
  | none, '"' :: rest => (text rest).map fun (s, rest) => (.text s, rest)
  | none, '-' :: rest => number true rest
  | none, _ => number false cs

mutual

/-- Reads the value at hand.  Each call looks at a character that no earlier one with less fuel
looked at, twice at most. -/
def value : Nat → List Char → Read Value
  | 0, _ => .error .malformed
  | fuel + 1, '[' :: cs =>
    match skip cs with
    | ']' :: rest => .ok (.list [], rest)
    | cs => (items fuel cs).map fun (vs, rest) => (.list vs, rest)
  | fuel + 1, '{' :: cs =>
    match skip cs with
    | '}' :: rest => .ok (.record [], rest)
    | cs => (fields fuel [] cs).map fun (fs, rest) => (.record fs, rest)
  | _ + 1, cs => scalar cs

def items : Nat → List Char → Except Fault (List Value × List Char)
  | 0, _ => .error .malformed
  | fuel + 1, cs => do
    let (v, rest) ← value fuel cs
    match skip rest with
    | ',' :: rest => (items fuel (skip rest)).map fun (vs, rest) => (v :: vs, rest)
    | ']' :: rest => return ([v], rest)
    | _ => throw .malformed

def fields :
    Nat → List (Points × Value) → List Char → Except Fault (List (Points × Value) × List Char)
  | 0, _, _ => .error .malformed
  | fuel + 1, done, '"' :: cs => do
    let (k, rest) ← text cs
    match skip rest with
    | ':' :: rest =>
      let (v, rest) ← value fuel (skip rest)
      match skip rest with
      | ',' :: rest => fields fuel (putField k v done) (skip rest)
      | '}' :: rest => return (putField k v done, rest)
      | _ => throw .malformed
    | _ => throw .malformed
  | _ + 1, _, _ => .error .malformed

end

end Reading

/-- The value of a whole text, around which there may be space. -/
def Value.ofString (s : String) : Except Fault Value := do
  let cs := s.toList
  let (v, rest) ← Reading.value (2 * cs.length + 1) (Reading.skip cs)
  if (Reading.skip rest).isEmpty then return v else throw .malformed

end Json
end SchemaPaths
