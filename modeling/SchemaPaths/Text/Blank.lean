/-
Blank characters and the trimming of text.

Blank here means blank in any script: besides the space and the line ends it takes in the no-break
space, the ideographic space and the four separators U+001C to U+001F.  The zero width space is no
blank.
-/
namespace SchemaPaths
namespace Text

def isBlank (c : Char) : Bool :=
  (9 ≤ c.toNat && c.toNat ≤ 13) || (0x1c ≤ c.toNat && c.toNat ≤ 0x20) ||
    c.toNat == 0x85 || c.toNat == 0xa0 || c.toNat == 0x1680 ||
    (0x2000 ≤ c.toNat && c.toNat ≤ 0x200a) ||
    c.toNat == 0x2028 || c.toNat == 0x2029 || c.toNat == 0x202f ||
    c.toNat == 0x205f || c.toNat == 0x3000

def trimChars (cs : List Char) : List Char :=
  ((cs.dropWhile isBlank).reverse.dropWhile isBlank).reverse

/-- A text without the blanks it begins and ends with. -/
def trim (s : String) : String :=
  String.ofList (trimChars s.toList)

/-- The pieces of a text between the places where `mark` stands.  `skip` characters still belong to
a mark, and `piece` holds what follows the last one, in reverse.  An empty mark stands nowhere, so
callers refuse it beforehand. -/
def splitChars (mark : List Char) : Nat → List Char → List Char → List (List Char)
  | _, piece, [] => [piece.reverse]
  | skip + 1, piece, _ :: cs => splitChars mark skip piece cs
  | 0, piece, c :: cs =>
    if mark.isPrefixOf (c :: cs) && !mark.isEmpty then
      piece.reverse :: splitChars mark (mark.length - 1) [] cs
    else splitChars mark 0 (c :: piece) cs

def split (mark : String) (s : String) : List String :=
  (splitChars mark.toList 0 [] s.toList).map String.ofList

/-- The longest runs of characters without blanks. -/
def words (s : String) : List String :=
  ((wordsFrom [] s.toList).filter fun w => !w.isEmpty).map String.ofList
where
  wordsFrom : List Char → List Char → List (List Char)
    | word, [] => [word.reverse]
    | word, c :: cs =>
      if isBlank c then word.reverse :: wordsFrom [] cs else wordsFrom (c :: word) cs

/-- The text before and after the first `c`, or nothing when there is none. -/
def cut? (c : Char) (s : String) : Option (String × String) :=
  let before := s.toList.takeWhile (· != c)
  match s.toList.drop before.length with
  | [] => none
  | _ :: after => some (String.ofList before, String.ofList after)

/-- The text before and after the last `c`, or nothing when there is none. -/
def cutLast? (c : Char) (s : String) : Option (String × String) :=
  let after := (s.toList.reverse.takeWhile (· != c)).reverse
  let rest := s.toList.take (s.toList.length - after.length)
  match rest.reverse with
  | [] => none
  | _ :: before => some (String.ofList before.reverse, String.ofList after)

end Text
end SchemaPaths
