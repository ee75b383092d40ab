/-
The small pieces of markup: names, blanks, quoted values, references, comments and instructions.

A scan takes characters from the front of what is left and never gives any back.  It knows which
characters count as letters in the encoding of the document.  A loop that is
not a plain walk along the characters counts down from its `fuel`.  Each of its rounds takes a
character at least, so fuel above the number of characters left is enough.
-/
import SchemaPaths.Markup.Fault
import SchemaPaths.Markup.NameChar
import SchemaPaths.Text.Quoted

namespace SchemaPaths
namespace Markup

abbrev Scan := ReaderT NameChar.Alphabet (StateT (List Char) (Except Fault))

/-- A name as written, with the prefix that stands before its colon. -/
structure RawName where
  pre : Option String
  rest : String
deriving DecidableEq, Repr

def RawName.text (n : RawName) : String :=
  match n.pre with
  | some p => p ++ ":" ++ n.rest
  | none => n.rest

namespace Scan

def fail {α : Type} : Scan α := throw .malformed

def isSpace (c : Char) : Bool := c == ' ' || c == '\t' || c == '\n' || c == '\r'

/-- Characters that a document may hold. -/
def isAllowed (c : Char) : Bool :=
  c == '\t' || c == '\n' || c == '\r' ||
    (0x20 ≤ c.toNat && c.toNat != 0xfffe && c.toNat != 0xffff)

def takeWhile (p : Char → Bool) : Scan (List Char) := do
  let cs ← get
  set (cs.dropWhile p)
  return cs.takeWhile p

def spaces : Scan Unit := do
  let _ ← takeWhile isSpace

def spaces1 : Scan Unit := do
  let cs ← takeWhile isSpace
  if cs.isEmpty then fail

def next? : Scan (Option Char) := do
  return (← get).head?

/-- Goes past `text` if it comes next. -/
def skip? (text : String) : Scan Bool := do
  let cs ← get
  if text.toList.isPrefixOf cs then
    set (cs.drop text.toList.length)
    return true
  else return false

def skip (text : String) : Scan Unit := do
  if !(← skip? text) then fail

/-- A name without a colon. -/
def plainName : Scan String := do
  let alphabet ← read
  match ← get with
  | c :: cs =>
    if NameChar.isStart alphabet c then
      set (cs.dropWhile (NameChar.isPart alphabet))
      return String.ofList (c :: cs.takeWhile (NameChar.isPart alphabet))
    else fail
  | [] => fail

/-- A name that may have a prefix.  A second colon is left standing, for the caller to refuse. -/
def rawName : Scan RawName := do
  let first ← plainName
  if ← skip? ":" then return ⟨some first, ← plainName⟩
  else return ⟨none, first⟩

/-! ## References -/

def hexValue? (c : Char) : Option Nat :=
  if '0' ≤ c && c ≤ '9' then some (c.toNat - '0'.toNat)
  else if 'a' ≤ c && c ≤ 'f' then some (c.toNat - 'a'.toNat + 10)
  else if 'A' ≤ c && c ≤ 'F' then some (c.toNat - 'A'.toNat + 10)
  else none

def digitsValue? (base : Nat) (cs : List Char) : Option Nat :=
  if cs.isEmpty then none
  else cs.foldlM (fun n c => do
    let d ← hexValue? c
    if d < base then some (n * base + d) else none) 0

def charOfNumber? (n : Nat) : Option Char :=
  if n < 0x110000 && !(0xd800 ≤ n && n < 0xe000) && isAllowed (Char.ofNat n) then
    some (Char.ofNat n)
  else none

inductive Reference where
  | char (c : Char)
  | entity (name : String)

/-- What stands after an ampersand, up to its semicolon. -/
def reference : Scan Reference := do
  if ← skip? "#" then
    let base ← if ← skip? "x" then pure 16 else pure 10
    let digits ← takeWhile fun c => (hexValue? c).isSome
    skip ";"
    match (digitsValue? base digits).bind charOfNumber? with
    | some c => return .char c
    | none => fail
  else
    let name ← plainName
    skip ";"
    return .entity name

def predefined? (name : String) : Option Char :=
  if name == "lt" then some '<'
  else if name == "gt" then some '>'
  else if name == "amp" then some '&'
  else if name == "quot" then some '"'
  else if name == "apos" then some '\''
  else none

/-! ## Values in quotes -/

def quote : Scan Char := do
  match ← get with
  | '"' :: cs => set cs; return '"'
  | '\'' :: cs => set cs; return '\''
  | _ => fail

/-- The characters up to the next `q`, whatever they say. -/
def literal (q : Char) : Scan (List Char) := do
  let cs ← takeWhile (· != q)
  skip (String.singleton q)
  if cs.all isAllowed then return cs else fail

/-- The value of an attribute up to the quote `q`, line ends and tabs as spaces.  An entity nobody
declared is passed over when `lenient`, since it may be declared where this reader does not look. -/
def valueUpTo (lenient : Bool) (q : Char) : Nat → List Char → Scan (List Char)
  | 0, _ => fail
  | fuel + 1, done => do
    match ← get with
    | [] => fail
    | c :: cs =>
      set cs
      if c == q then return done.reverse
      else if c == '<' then fail
      else if c == '&' then
        match ← reference with
        | .char d => valueUpTo lenient q fuel (d :: done)
        | .entity name =>
          match predefined? name with
          | some d => valueUpTo lenient q fuel (d :: done)
          | none => if lenient then valueUpTo lenient q fuel done else fail
      else if isSpace c then valueUpTo lenient q fuel (' ' :: done)
      else if isAllowed c then valueUpTo lenient q fuel (c :: done)
      else fail

def attributeValue (lenient : Bool) (fuel : Nat) : Scan String := do
  let q ← quote
  let cs ← valueUpTo lenient q fuel []
  return String.ofList cs

/-! ## Comments and instructions -/

/-- What follows a comment, from the characters after its opening.  Two dashes only stand at its
end. -/
def afterComment? : List Char → Option (List Char)
  | '-' :: '-' :: '>' :: cs => some cs
  | '-' :: '-' :: _ => none
  | c :: cs => if isAllowed c then afterComment? cs else none
  | [] => none

/-- Goes past a comment after its opening `<!--`. -/
def comment : Scan Unit := do
  match afterComment? (← get) with
  | some cs => set cs
  | none => fail

/-- The characters before the first `mark`, after those `done` in reverse, and what follows it. -/
def cutAtMark? (mark : List Char) : List Char → List Char → Option (List Char × List Char)
  | _, [] => none
  | done, c :: cs =>
    if mark.isPrefixOf (c :: cs) then some (done.reverse, (c :: cs).drop mark.length)
    else if isAllowed c then cutAtMark? mark (c :: done) cs
    else none

def upToMark (mark : String) : Scan (List Char) := do
  match cutAtMark? mark.toList [] (← get) with
  | some (before, cs) =>
    set cs
    return before
  | none => fail

/-- Goes past a processing instruction after its opening `<?`.  The target `xml`, in capitals or
not, is kept for the declaration that opens a document. -/
def instruction : Scan Unit := do
  let target ← plainName
  if target.toLower == "xml" then fail
  if ← skip? "?>" then return
  spaces1
  let _ ← upToMark "?>"

/-- The text of a marked section after its opening. -/
def markedText : Scan (List Char) := upToMark "]]>"

end Scan
end Markup
end SchemaPaths
