/-
Text from bytes in UTF-8.

Bytes that make up no character are not skipped: the longest run of them that could have begun a
character is read as one mark, so that what stands on either side keeps its place.
-/
namespace SchemaPaths
namespace Text
namespace Utf8

/-- What the bytes at hand begin with: a character of so many bytes, or a fault that long. -/
inductive Piece where
  | char (point : Nat) (length : Nat)
  | fault (length : Nat)

def Piece.length : Piece → Nat
  | .char _ n => n
  | .fault n => n

def Piece.char? : Piece → Option Char
  | .char point _ => some (Char.ofNat point)
  | .fault _ => none

def isTail (b : UInt8) : Bool := 0x80 ≤ b && b ≤ 0xbf

/-- The least and the greatest byte that may follow a first byte of a longer character. -/
def secondRange (first : UInt8) : UInt8 × UInt8 :=
  if first == 0xe0 then (0xa0, 0xbf)
  else if first == 0xed then (0x80, 0x9f)
  else if first == 0xf0 then (0x90, 0xbf)
  else if first == 0xf4 then (0x80, 0x8f)
  else (0x80, 0xbf)

def isSecond (first b : UInt8) : Bool :=
  (secondRange first).1 ≤ b && b ≤ (secondRange first).2

def low (b : UInt8) : Nat := b.toNat % 64

def piece (first : UInt8) (rest : List UInt8) : Piece :=
  if first < 0x80 then .char first.toNat 1
  else if 0xc2 ≤ first && first ≤ 0xdf then
    match rest with
    | b :: _ => if isTail b then .char (first.toNat % 32 * 64 + low b) 2 else .fault 1
    | _ => .fault 1
  else if 0xe0 ≤ first && first ≤ 0xef then
    match rest with
    | b :: c :: _ =>
      if !isSecond first b then .fault 1
      else if isTail c then .char ((first.toNat % 16 * 64 + low b) * 64 + low c) 3
      else .fault 2
    | [b] => if isSecond first b then .fault 2 else .fault 1
    | [] => .fault 1
  else if 0xf0 ≤ first && first ≤ 0xf4 then
    match rest with
    | b :: c :: d :: _ =>
      if !isSecond first b then .fault 1
      else if !isTail c then .fault 2
      else if isTail d then
        .char (((first.toNat % 8 * 64 + low b) * 64 + low c) * 64 + low d) 4
      else .fault 3
    | [b, c] =>
      if !isSecond first b then .fault 1
      else if isTail c then .fault 3 else .fault 2
    | [b] => if isSecond first b then .fault 2 else .fault 1
    | [] => .fault 1
  else .fault 1

/-- The pieces of a byte sequence.  `skip` bytes still belong to a piece that began before. -/
def pieces : Nat → List UInt8 → List Piece
  | _, [] => []
  | skip + 1, _ :: bs => pieces skip bs
  | 0, b :: bs => piece b bs :: pieces ((piece b bs).length - 1) bs

/-- Every byte sequence read to its end, a fault as U+FFFD. -/
def decodeLossy (bs : List UInt8) : List Char :=
  (pieces 0 bs).map fun p => p.char?.getD '\ufffd'

/-- The characters up to the first fault, and whether there was none. -/
def decodeStrict (bs : List UInt8) : List Char × Bool :=
  let found := (pieces 0 bs).map Piece.char?
  ((found.takeWhile Option.isSome).filterMap id, found.all Option.isSome)

end Utf8
end Text
end SchemaPaths
