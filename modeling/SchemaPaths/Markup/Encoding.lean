/-
From the bytes of a document to its characters.

Two bytes tell whether characters have one byte or two; the declaration at the start, in which only
ASCII occurs, may then name the encoding.  Decoding stops at the first bytes that are no character
and says so: what stands before them can still be judged.
-/
import SchemaPaths.Markup.CodePage
import SchemaPaths.Markup.Scan
import SchemaPaths.Text.Utf8

namespace SchemaPaths
namespace Markup

inductive Encoding where
  | utf8
  | ascii
  | tildeless
  | latin
  | page (p : CodePage)
  | utf16 (bigEndian : Bool)

/-- The declaration that may open a document. -/
structure Declaration where
  encoding : Option String := none
  standalone : Bool := false

namespace Declaration
open Scan

def isValueChar (c : Char) : Bool := c.isAlphanum || c == '.' || c == '-' || c == '_'

/-- One `name="value"` of the declaration, or nothing when only blanks are left. -/
def item? : Scan (Option (String × String)) := do
  match ← get with
  | [] => return none
  | c :: _ =>
    if !isSpace c then fail
    spaces
    if (← get).isEmpty then return none
    let name ← takeWhile fun c => c != '=' && !isSpace c
    spaces
    skip "="
    if name.isEmpty then fail
    spaces
    let q ← quote
    let value ← takeWhile isValueChar
    skip (String.singleton q)
    return some (String.ofList name, String.ofList value)

def standaloneItem : Option (String × String) → Scan Bool
  | none => return false
  | some (name, value) => do
    if name != "standalone" then fail
    spaces
    if !(← get).isEmpty then fail
    if value == "yes" then return true
    else if value == "no" then return false
    else fail

/-- The items in their order: a version, then perhaps an encoding, then perhaps whether the
document stands alone. -/
def items : Scan Declaration := do
  match ← item? with
  | some ("version", _) =>
    match ← item? with
    | some ("encoding", e) =>
      match e.toList with
      | c :: _ =>
        if !c.isAlpha then fail
        return ⟨some e, ← standaloneItem (← item?)⟩
      | [] => fail
    | other => return ⟨none, ← standaloneItem other⟩
  | _ => fail

/-- Reads the declaration if the document begins with one, and goes past it. -/
def scan? : Scan (Option Declaration) := do
  match ← get with
  | '<' :: '?' :: 'x' :: 'm' :: 'l' :: c :: cs =>
    if isSpace c || c == '?' then
      set (c :: cs)
      let inside ← upToMark "?>"
      let rest ← get
      set inside
      let d ← items
      set rest
      return some d
    else return none
  | _ => return none

end Declaration

namespace Encoding

/-- What stands in the text for bytes that are no character.  No document may hold it. -/
def fault : Char := '\x00'

def decodeBytes (char? : UInt8 → Option Char) : List UInt8 → List Char
  | [] => []
  | b :: bs =>
    match char? b with
    | some c => c :: decodeBytes char? bs
    | none => [fault]

def unit (bigEndian : Bool) (a b : UInt8) : Nat :=
  if bigEndian then a.toNat * 256 + b.toNat else b.toNat * 256 + a.toNat

/-- A unit of the upper kind makes one character with the next unit, of which only the lower ten
bits are looked at.  The second part of the answer says whether no byte is left over at the end. -/
def decodeUnits (bigEndian : Bool) : List UInt8 → List Char × Bool
  | [] => ([], true)
  | [_] => ([], false)
  | a :: b :: bs =>
    let u := unit bigEndian a b
    if 0xd800 ≤ u && u < 0xdc00 then
      match bs with
      | c :: d :: more =>
        let v := unit bigEndian c d
        let (cs, whole) := decodeUnits bigEndian more
        (Char.ofNat (0x10000 + (u - 0xd800) * 1024 + v % 1024) :: cs, whole)
      | _ => ([fault], true)
    else if 0xdc00 ≤ u && u < 0xe000 then ([fault], true)
    else
      let (cs, whole) := decodeUnits bigEndian bs
      (Char.ofNat u :: cs, whole)

def asciiChar? (b : UInt8) : Option Char :=
  if b < 0x80 then some (Char.ofNat b.toNat) else none

/-- The characters up to the first fault, with a mark for that, and whether no byte is left over. -/
def decode : Encoding → List UInt8 → List Char × Bool
  | .utf8, bs =>
    let (cs, whole) := Text.Utf8.decodeStrict bs
    (if whole then cs else cs ++ [fault], true)
  | .ascii, bs => (decodeBytes asciiChar? bs, true)
  | .tildeless, bs => (decodeBytes (fun b => (asciiChar? b).filter (· != '~')) bs, true)
  | .latin, bs => (decodeBytes (fun b => some (Char.ofNat b.toNat)) bs, true)
  | .page p, bs => (decodeBytes p.char? bs, true)
  | .utf16 bigEndian, bs => decodeUnits bigEndian bs

/-- The letters of an encoding: where characters are told apart by their units, up to U+00FF by a
table of Latin-1, that table counts. -/
def alphabet : Encoding → NameChar.Alphabet
  | .latin | .utf16 _ => .latin
  | _ => .standard

/-- What the first bytes say of the encoding, and the bytes after a byte order mark. -/
def ofBytes : List UInt8 → Encoding × List UInt8
  | 0xef :: 0xbb :: 0xbf :: bs => (.utf8, bs)
  | 0xfe :: 0xff :: bs => (.utf16 true, bs)
  | 0xff :: 0xfe :: bs => (.utf16 false, bs)
  | 0 :: bs => (.utf16 true, 0 :: bs)
  | b :: 0 :: bs => (.utf16 false, b :: 0 :: bs)
  | bs => (.utf8, bs)

/-- The single-byte encoding that goes by a name, if there is one that ASCII is a part of. -/
def single? (name : String) : Except EncodingFault (Option Encoding) :=
  if CodePage.isAmong CodePage.wideNames name then .error .wide
  else if CodePage.isAmong CodePage.reservedNames name then .error .reserved
  else if CodePage.isAmong CodePage.narrowNames name then .error .narrow
  else if CodePage.isAmong CodePage.tildeNames name then .ok (some .tildeless)
  else if CodePage.isAmong CodePage.foreignNames name then .ok none
  else match CodePage.find? name with
    | some p => .ok (some (.page p))
    | none => .error .unknown

/-- The encoding that a document of this encoding means by a name. -/
def named (found : Encoding) (name : String) : Except Fault Encoding :=
  let name' := name.toUpper
  match found with
  | .utf16 bigEndian =>
    if name' == "UTF-16" then .ok found
    else if name' == "UTF-16BE" then if bigEndian then .ok found else .error .malformed
    else if name' == "UTF-16LE" then if bigEndian then .error .malformed else .ok found
    else if ["UTF-8", "US-ASCII", "ISO-8859-1"].contains name' then .error .malformed
    else match single? name with
      | .ok _ => .error .malformed
      | .error f => .error (.encoding f)
  | _ =>
    if name' == "UTF-8" then .ok .utf8
    else if name' == "US-ASCII" then .ok .ascii
    else if name' == "ISO-8859-1" then .ok .latin
    else if ["UTF-16", "UTF-16BE", "UTF-16LE"].contains name' then .error .malformed
    else match single? name with
      | .ok (some e) => .ok e
      | .ok none => .error .malformed
      | .error f => .error (.encoding f)

end Encoding
end Markup
end SchemaPaths
