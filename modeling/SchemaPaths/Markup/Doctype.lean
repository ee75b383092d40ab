/-
The document type declaration.

Only its attribute lists matter later on: they give absent attributes their values and say which
values are lists of words.  Declaring an entity is refused, because a few of them can grow into a
text of any size; the five predefined ones may be declared again.  Declarations that stand after a
parameter entity reference do not count, since the reference might have changed them.
-/
import SchemaPaths.Markup.Scan
import SchemaPaths.Text.Blank

namespace SchemaPaths
namespace Markup

/-- What an attribute list says of one attribute of one element. -/
structure AttributeRule where
  element : String
  name : RawName
  words : Bool
  value : Option String

/-- `lenient` says that entities may be declared outside the document. -/
structure Doctype where
  lenient : Bool := false
  rules : List AttributeRule := []

namespace Doctype
open Scan

/-- Where the reading of the declarations stands: whether declarations still count, and whether
some may stand elsewhere. -/
structure Progress where
  counting : Bool := true
  elsewhere : Bool := false
  rules : List AttributeRule := []

/-- How the values in declarations are read: whether they count, and whether entities in them may be
declared elsewhere. -/
structure Reading where
  counting : Bool
  lenient : Bool

/-- A name in a declaration.  What stands after its colon may begin as a name only goes on
elsewhere. -/
def declaredName : Scan RawName := do
  let first ← plainName
  if ← skip? ":" then
    let cs ← takeWhile (NameChar.isPart (← read))
    if cs.isEmpty then fail
    return ⟨some first, String.ofList cs⟩
  else return ⟨none, first⟩

/-! ## Content of elements -/

def multiplicity : Scan Unit := do
  match ← get with
  | '?' :: cs => set cs
  | '*' :: cs => set cs
  | '+' :: cs => set cs
  | _ => return

mutual

def particle : Nat → Scan Unit
  | 0 => fail
  | fuel + 1 => do
    if ← skip? "(" then group fuel none
    else
      let _ ← declaredName
      multiplicity

/-- The members of a group after its parenthesis; one connector holds it together. -/
def group : Nat → Option Char → Scan Unit
  | 0, _ => fail
  | fuel + 1, connector => do
    spaces
    particle fuel
    spaces
    match ← get with
    | ')' :: cs => set cs; multiplicity
    | c :: cs =>
      if (c == ',' || c == '|') && (connector == none || connector == some c) then
        set cs
        group fuel (some c)
      else fail
    | [] => fail

end

def mixedNames : Nat → Bool → Scan Unit
  | 0, _ => fail
  | fuel + 1, several => do
    spaces
    if ← skip? "|" then
      spaces
      let _ ← declaredName
      mixedNames fuel true
    else
      skip ")"
      if !(← skip? "*") && several then fail

def elementDeclaration (fuel : Nat) : Scan Unit := do
  spaces1
  let _ ← declaredName
  spaces1
  if ← skip? "(" then
    spaces
    if ← skip? "#PCDATA" then mixedNames fuel false
    else group fuel none
  else
    let word ← plainName
    if !(word == "EMPTY" || word == "ANY") then fail
  spaces
  skip ">"

/-! ## Attribute lists -/

def alternatives (word : Scan Unit) : Nat → Scan Unit
  | 0 => fail
  | fuel + 1 => do
    spaces
    word
    spaces
    if ← skip? "|" then alternatives word fuel else skip ")"

def nameToken : Scan Unit := do
  let alphabet ← read
  let cs ← takeWhile fun c => NameChar.isPart alphabet c || c == ':'
  if cs.isEmpty then fail

/-- The type of an attribute; the answer says whether its values are lists of words. -/
def attributeType (fuel : Nat) : Scan Bool := do
  if ← skip? "(" then
    alternatives nameToken fuel
    return true
  let word ← plainName
  if word == "CDATA" then return false
  else if word == "NOTATION" then
    spaces1
    skip "("
    alternatives (do let _ ← plainName) fuel
    return true
  else if ["ID", "IDREF", "IDREFS", "ENTITY", "ENTITIES", "NMTOKEN", "NMTOKENS"].contains word then
    return true
  else fail

def collapse (s : String) : String :=
  let words := (Text.split " " s).filter (· != "")
  " ".intercalate words

/-- The value given to an attribute.  What is written in one that does not count is not looked
at. -/
def givenValue (reading : Reading) (fuel : Nat) : Scan String := do
  if reading.counting then attributeValue reading.lenient fuel
  else return String.ofList (← literal (← quote))

def attributeDefault (reading : Reading) (words : Bool) (fuel : Nat) : Scan (Option String) := do
  let value := do
    let v ← givenValue reading fuel
    return some (if words then collapse v else v)
  if ← skip? "#" then
    let word ← plainName
    if word == "REQUIRED" || word == "IMPLIED" then return none
    else if word == "FIXED" then
      spaces1
      value
    else fail
  else value

def attributeRules (reading : Reading) (element : String) :
    Nat → List AttributeRule → Scan (List AttributeRule)
  | 0, _ => fail
  | fuel + 1, done => do
    let gap ← takeWhile isSpace
    if ← skip? ">" then return done.reverse
    if gap.isEmpty then fail
    let name ← declaredName
    spaces1
    let words ← attributeType fuel
    spaces1
    let value ← attributeDefault reading words fuel
    attributeRules reading element fuel (⟨element, name, words, value⟩ :: done)

/-- The first rule for an attribute is the one that holds. -/
def addRule (rules : List AttributeRule) (r : AttributeRule) : List AttributeRule :=
  if rules.any fun q => q.element == r.element && q.name == r.name then rules else rules ++ [r]

def attributeList (reading : Reading) (fuel : Nat) : Scan (List AttributeRule) := do
  spaces1
  let element ← declaredName
  attributeRules reading element.text fuel []

/-! ## Entities and notations -/

def isPublicChar (c : Char) : Bool :=
  c == ' ' || c == '\n' || c.isAlphanum || "-'()+,./:=?;!*#@$_%".toList.contains c

def publicLiteral : Scan Unit := do
  let cs ← literal (← quote)
  if !cs.all isPublicChar then fail

def systemLiteral : Scan Unit := do
  let _ ← literal (← quote)

/-- The name of something kept elsewhere.  `short` allows a public name alone. -/
def externalName (short : Bool) : Scan Unit := do
  if ← skip? "SYSTEM" then
    spaces1
    systemLiteral
  else
    skip "PUBLIC"
    spaces1
    publicLiteral
    let gap ← takeWhile isSpace
    match ← next? with
    | some '"' => if gap.isEmpty then fail else systemLiteral
    | some '\'' => if gap.isEmpty then fail else systemLiteral
    | _ => if !short then fail

/-- A value given to an entity: references in it are well formed and none is to a parameter. -/
def entityValue (q : Char) : Nat → Scan Unit
  | 0 => fail
  | fuel + 1 => do
    match ← get with
    | [] => fail
    | c :: cs =>
      set cs
      if c == q then return
      else if c == '%' then fail
      else if c == '&' then
        let _ ← reference
        entityValue q fuel
      else if isAllowed c then entityValue q fuel
      else fail

/-- Whether what comes next may stand directly after a word or a quoted value.  The end may. -/
def ends (allowed : String) : Scan Unit := do
  match ← next? with
  | some c => if !isSpace c && !allowed.toList.contains c then fail
  | none => return

/-- An entity declaration after `<!ENTITY`.  One that counts ends the reading, whatever its value
says; a new value for a predefined entity is looked at. -/
def entityDeclaration (counting : Bool) (fuel : Nat) : Scan Unit := do
  spaces1
  let parameter ← skip? "%"
  if parameter then spaces1
  let name ← plainName
  spaces1
  let counts := counting && (parameter || (predefined? name).isNone)
  match ← next? with
  | some '"' | some '\'' =>
    let q ← quote
    if counting && !counts then entityValue q fuel
    else
      let _ ← literal q
    ends ">%["
    if counts then throw .entityDeclared
  | _ =>
    externalName false
    let gap ← takeWhile isSpace
    if !parameter && !gap.isEmpty then
      if ← skip? "NDATA" then
        spaces1
        let _ ← plainName
        ends ">%[),|"
        if counts then throw .entityDeclared
  spaces
  skip ">"
  if counts then throw .entityDeclared

def notationDeclaration : Scan Unit := do
  spaces1
  let _ ← plainName
  spaces1
  externalName true
  spaces
  skip ">"

/-! ## The whole declaration -/

/-- The declarations between the brackets, up to the closing one. -/
def declarations (standalone : Bool) : Nat → Progress → Scan Progress
  | 0, _ => fail
  | fuel + 1, p => do
    spaces
    if ← skip? "]" then return p
    else if ← skip? "%" then
      let _ ← plainName
      skip ";"
      declarations standalone fuel ⟨standalone, true, p.rules⟩
    else if ← skip? "<!--" then
      comment
      declarations standalone fuel p
    else if ← skip? "<?" then
      instruction
      declarations standalone fuel p
    else if ← skip? "<!ELEMENT" then
      elementDeclaration fuel
      declarations standalone fuel p
    else if ← skip? "<!ATTLIST" then
      let rules ← attributeList ⟨p.counting, p.elsewhere && !standalone⟩ fuel
      declarations standalone fuel ⟨p.counting, p.elsewhere,
        if p.counting then rules.foldl addRule p.rules else p.rules⟩
    else if ← skip? "<!ENTITY" then
      entityDeclaration p.counting fuel
      declarations standalone fuel p
    else if ← skip? "<!NOTATION" then
      notationDeclaration
      declarations standalone fuel p
    else fail

/-- A document type declaration after `<!DOCTYPE`. -/
def scan (standalone : Bool) (fuel : Nat) : Scan Doctype := do
  spaces1
  let _ ← declaredName
  let gap ← takeWhile isSpace
  let external ← match ← next? with
    | some 'S' | some 'P' =>
      if gap.isEmpty then fail
      else do
        externalName false
        spaces
        pure true
    | _ => pure false
  let p ←
    if ← skip? "[" then do
      let p ← declarations standalone fuel ⟨true, external, []⟩
      spaces
      pure p
    else pure ⟨true, external, []⟩
  skip ">"
  return ⟨p.elsewhere && !standalone, p.rules⟩

end Doctype
end Markup
end SchemaPaths
