/-
Reading a whole document.

An element is read together with the bindings of prefixes that hold in it, so a prefix that nothing
binds is found where it stands.
-/
import SchemaPaths.Markup.Doctype
import SchemaPaths.Markup.Encoding
import SchemaPaths.Markup.Tree

namespace SchemaPaths
namespace Markup

def xmlSpace : String := "http://www.w3.org/XML/1998/namespace"

def xmlnsSpace : String := "http://www.w3.org/2000/xmlns/"

/-- Prefixes and what they stand for, the innermost binding first; the empty prefix is the
default. -/
abbrev Bindings := List (String × String)

namespace Bindings

/-- The prefix that an attribute binds, if it is a binding at all. -/
def bound? (n : RawName) : Option String :=
  match n.pre with
  | none => if n.rest == "xmlns" then some "" else none
  | some p => if p == "xmlns" then some n.rest else none

/-- The prefix `xml` keeps its meaning, no other prefix takes it, and only the default may be set
to nothing. -/
def isAllowed (p uri : String) : Bool :=
  !(uri == "" && p != "") && p != "xmlns" && (p == "xml") == (uri == xmlSpace) &&
    uri != xmlnsSpace && !uri.toList.contains '\x7d'

def expand? (b : Bindings) (p : String) : Option String :=
  if p == "xml" then some xmlSpace else b.lookup p

def element? (b : Bindings) (n : RawName) : Option Name :=
  match n.pre with
  | none => some ⟨(b.expand? "").getD "", n.rest⟩
  | some p => (b.expand? p).map fun uri => ⟨uri, n.rest⟩

def attr? (b : Bindings) (n : RawName) : Option Name :=
  match n.pre with
  | none => some ⟨"", n.rest⟩
  | some p => (b.expand? p).map fun uri => ⟨uri, n.rest⟩

end Bindings

namespace Document
open Scan

structure StartTag where
  name : RawName
  attributes : List (RawName × String)
  closed : Bool

def attributesFrom (lenient : Bool) :
    Nat → List (RawName × String) → Scan (List (RawName × String) × Bool)
  | 0, _ => fail
  | fuel + 1, done => do
    let gap ← takeWhile isSpace
    if ← skip? "/>" then return (done.reverse, true)
    if ← skip? ">" then return (done.reverse, false)
    if gap.isEmpty then fail
    let name ← rawName
    spaces
    skip "="
    spaces
    let value ← attributeValue lenient fuel
    if done.any fun d => d.1 == name then fail
    attributesFrom lenient fuel ((name, value) :: done)

/-- The attributes with what the document type says of them: lists of words lose their needless
blanks, and absent attributes with a value appear at the end. -/
def withRules (rules : List AttributeRule) (given : List (RawName × String)) :
    List (RawName × String) :=
  let given' := given.map fun (n, v) =>
    match rules.find? fun r => r.name == n with
    | some r => (n, if r.words then Doctype.collapse v else v)
    | none => (n, v)
  rules.foldl (fun done r =>
    match r.value with
    | some v => if done.any fun d => d.1 == r.name then done else done ++ [(r.name, v)]
    | none => done) given'

/-- A start tag after its `<`. -/
def startTag (doctype : Doctype) (fuel : Nat) : Scan StartTag := do
  let name ← rawName
  let (given, closed) ← attributesFrom doctype.lenient fuel []
  let rules := doctype.rules.filter fun r => r.element == name.text
  return ⟨name, withRules rules given, closed⟩

def bind (b : Bindings) (attributes : List (RawName × String)) : Except Fault Bindings :=
  attributes.foldlM (fun b (n, v) =>
    match Bindings.bound? n with
    | some p => if Bindings.isAllowed p v then .ok ((p, v) :: b) else .error .malformed
    | none => .ok b) b

def expandAttributes (b : Bindings) (attributes : List (RawName × String)) :
    Except Fault (List (Name × String)) :=
  (attributes.filter fun a => (Bindings.bound? a.1).isNone).foldlM (fun done (n, v) =>
    match b.attr? n with
    | some name =>
      if done.any fun d => d.1 == name then .error .malformed else .ok (done ++ [(name, v)])
    | none => .error .malformed) []

def endTag (name : RawName) : Scan Unit := do
  skip "</"
  let found ← rawName
  if found != name then fail
  spaces
  skip ">"

/-- The text up to the next markup.  The closing of a marked section may not stand in it. -/
def run : Nat → List Char → Scan (List Char)
  | 0, _ => fail
  | fuel + 1, done => do
    match ← get with
    | [] => return done.reverse
    | '<' :: _ => return done.reverse
    | ']' :: ']' :: '>' :: _ => fail
    | '&' :: cs =>
      set cs
      match ← reference with
      | .char c => run fuel (c :: done)
      | .entity name =>
        match predefined? name with
        | some c => run fuel (c :: done)
        | none => fail
    | c :: cs =>
      if isAllowed c then
        set cs
        run fuel (c :: done)
      else fail

/-- The content of an element up to its end tag, or to the end of the characters, which the
missing end tag then shows. -/
def content (doctype : Doctype) : Nat → Bindings → Scan (List Tree)
  | 0, _ => fail
  | fuel + 1, b => do
    match ← get with
    | [] => return []
    | '<' :: '/' :: _ => return []
    | '<' :: cs =>
      if ← skip? "<!--" then
        comment
        content doctype fuel b
      else if ← skip? "<![CDATA[" then
        let cs ← markedText
        let more ← content doctype fuel b
        return .text (String.ofList cs) :: more
      else if ← skip? "<?" then
        instruction
        content doctype fuel b
      else
        set cs
        let tag ← startTag doctype fuel
        let b' ← bind b tag.attributes
        let some name := b'.element? tag.name | fail
        let attributes ← expandAttributes b' tag.attributes
        let inner ←
          if tag.closed then pure []
          else do
            let inner ← content doctype fuel b'
            endTag tag.name
            pure inner
        let more ← content doctype fuel b
        return .element name attributes inner :: more
    | _ =>
      let cs ← run (fuel + 1) []
      let more ← content doctype fuel b
      return .text (String.ofList cs) :: more

/-- What may follow the root element. -/
def epilogue : Nat → Scan Unit
  | 0 => fail
  | fuel + 1 => do
    spaces
    if (← get).isEmpty then return
    else if ← skip? "<!--" then
      comment
      epilogue fuel
    else
      skip "<?"
      instruction
      epilogue fuel

/-- The root element after its `<`. -/
def root (doctype : Doctype) (fuel : Nat) : Scan Tree := do
  let tag ← startTag doctype fuel
  let b ← bind [] tag.attributes
  let some name := b.element? tag.name | fail
  let attributes ← expandAttributes b tag.attributes
  if tag.closed then return .element name attributes []
  let inner ← content doctype fuel b
  endTag tag.name
  return .element name attributes inner

def body (standalone : Bool) : Nat → Option Doctype → Scan Tree
  | 0, _ => fail
  | fuel + 1, doctype => do
    spaces
    if ← skip? "<!--" then
      comment
      body standalone fuel doctype
    else if ← skip? "<?" then
      instruction
      body standalone fuel doctype
    else if ← skip? "<!DOCTYPE" then
      if doctype.isSome then fail
      let d ← Doctype.scan standalone fuel
      body standalone fuel (some d)
    else
      skip "<"
      let tree ← root (doctype.getD {}) fuel
      epilogue fuel
      return tree

/-- Every line end as one line feed. -/
def unifyEnds : List Char → List Char
  | [] => []
  | '\r' :: '\n' :: cs => '\n' :: unifyEnds cs
  | '\r' :: cs => '\n' :: unifyEnds cs
  | c :: cs => c :: unifyEnds cs

def ofChars (alphabet : NameChar.Alphabet) (cs : List Char) : Except Fault Tree := do
  let scan : Scan Tree := do
    let d ← Declaration.scan?
    body (d.map (·.standalone) |>.getD false) ((← get).length + 1) none
  let (tree, _) ← (scan.run alphabet).run (unifyEnds cs)
  return tree

def encodingOf (bs : List UInt8) : Except Fault (Encoding × List UInt8) := do
  let (found, bs) := Encoding.ofBytes bs
  let opening := match found with
    | .utf16 _ => found.decode bs
    | _ => Encoding.latin.decode bs
  let (d, _) ← (Declaration.scan?.run .standard).run opening.1
  match d.bind (·.encoding) with
  | some name => return (← Encoding.named found name, bs)
  | none => return (found, bs)

/-- The tree of a document, or why there is none. -/
def ofBytes (bs : List UInt8) : Except Fault Tree := do
  let (encoding, bs) ← encodingOf bs
  let (cs, whole) := encoding.decode bs
  let tree ← ofChars encoding.alphabet cs
  if whole then return tree else .error .malformed

end Document
end Markup
end SchemaPaths
