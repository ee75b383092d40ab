/-
From the tree of a schema document to its declarations.

Declarations are entered as soon as they have been read to their end, so what a document holds up to
a fault stays entered although the document itself is given up.  The order in which the parts of a
declaration are read decides which of two faults is met first.
-/
import SchemaPaths.Markup.Prefixes
import SchemaPaths.Schema.Construct
import SchemaPaths.Schema.SchemaSet
import SchemaPaths.Text.Blank
import SchemaPaths.Text.Integer

namespace SchemaPaths
namespace Schema

open Markup (Name Tree Prefixes)

abbrev Attributes := List (Name × String)

def valueOf? (as : Attributes) (n : String) : Option String := as.lookup ⟨"", n⟩

/-- What reading needs to know of the document it reads.  A document without a namespace of its own
that is included by another is `adopted`: it takes the namespace of that other one. -/
structure Setting where
  source : String
  space : String
  adopted : Bool
  prefixes : Prefixes
  elementForm : String
  attributeForm : String

/-- A reading keeps what it has entered when it fails. -/
abbrev Declare := ExceptT Failure (StateM Declarations)

/-- A reference to another document, in the order of the document. -/
structure Directive where
  construct : Construct
  location : Option String
  space : Option String
deriving Repr

/-- The location a directive gives, if it gives one that is not blank. -/
def Directive.path? (d : Directive) : Option String :=
  d.location.bind fun l => if Text.trim l == "" then none else some (Text.trim l)

namespace Declaring

def refuse {α : Type} (problem : LoadProblem) (source : String) : Declare α :=
  throw (.load problem (some source))

/-! ## Values of attributes -/

/-- The name that a value means; an absent or empty value means none. -/
def qname (s : Setting) (value : Option String) : Declare (Option QName) :=
  match value with
  | none => pure none
  | some value =>
    if value == "" then pure none
    else
      let value := Text.trim value
      match Text.cut? ':' value with
      | some (p, rest) =>
        match s.prefixes.lookup p with
        | some space => pure (some ⟨space, some rest⟩)
        | none => refuse (.undeclaredPrefix p value) s.source
      | none =>
        let space := (s.prefixes.lookup "").getD ""
        let space := if space == "" && s.adopted then s.space else space
        pure (some ⟨space, some value⟩)

def integer (value : String) : Declare Int :=
  match Text.Integer.ofString? value with
  | some n => pure n
  | none => throw .badNumber

def occurs (as : Attributes) : Declare Occurs := do
  let min ← integer ((valueOf? as "minOccurs").getD "1")
  let max := (valueOf? as "maxOccurs").getD "1"
  if max == "unbounded" then return ⟨min, none⟩
  else return ⟨min, some (← integer max)⟩

/-- The namespace of a declaration that is not at the top: that of the document if its form is
`qualified`. -/
def localSpace (s : Setting) (as : Attributes) (form : String) : String :=
  if (valueOf? as "form").getD form == "qualified" then s.space else ""

/-- Attributes of other namespaces, each under its expanded name and then, if the document has a
prefix for its namespace, under its prefixed name. -/
def extras (s : Setting) (as : Attributes) : List (String × String) :=
  as.flatMap fun (n, v) =>
    if n.space == "" || n.space == xsSpace then []
    else match s.prefixes.prefixOf? n.space with
      | some p => [(n.text, v), (p ++ ":" ++ n.localPart, v)]
      | none => [(n.text, v)]

/-! ## Annotations -/

def note? : Tree → Option String
  | .text _ => none
  | .element n _ content =>
    match Construct.ofName? n with
    | some .documentation | some .appinfo =>
      let text := Text.trimChars (Tree.allTextList content)
      if text.isEmpty then none else some (String.ofList text)
    | _ => none

def notesOf (content : List Tree) : List String :=
  content.flatMap fun t =>
    match t with
    | .text _ => []
    | .element n _ inner =>
      if Construct.ofName? n == some .notes then inner.filterMap note? else []

/-! ## Entering declarations -/

def enterElement (e : Element) : Declare ElementId := modifyGet fun d => d.addElement e
def enterAttribute (a : Attribute) : Declare AttributeId := modifyGet fun d => d.addAttribute a
def enterSimpleType (t : SimpleType) : Declare SimpleId := modifyGet fun d => d.addSimpleType t
def enterComplexType (t : ComplexType) : Declare ComplexId := modifyGet fun d => d.addComplexType t
def enterGroup (g : Group) : Declare GroupId := modifyGet fun d => d.addGroup g
def enterAttributeGroup (g : AttributeGroup) : Declare AttributeGroupId :=
  modifyGet fun d => d.addAttributeGroup g
def enterParticle : Declare ParticleId := modifyGet Declarations.addParticle

def declaredSpace (s : Setting) (name : Option String) : String :=
  if name.getD "" == "" then "" else s.space

/-- The namespace and the name of a declaration of an element or an attribute. -/
def identity (s : Setting) (isGlobal : Bool) (form : String) (as : Attributes)
    (ref : Option QName) : String × Option String :=
  match ref with
  | some q => (if isGlobal then s.space else q.space, q.name)
  | none => (if isGlobal then s.space else localSpace s as form, valueOf? as "name")

def derivation? (simple : Bool) : Construct → Option Derivation
  | .extension => some (if simple then .simpleExtension else .complexExtension)
  | .restriction => some (if simple then .simpleRestriction else .complexRestriction)
  | _ => none

/-- A reference to a group counts only if it says which. -/
def groupRef? (s : Setting) (as : Attributes) : Declare (Option Node) := do
  if (valueOf? as "ref").getD "" == "" then return none
  let o ← occurs as
  return (← qname s (valueOf? as "ref")).map fun q => .groupRef q o

def wildcard (as : Attributes) : Declare Node := do
  let o ← occurs as
  let i ← enterParticle
  return .any (.declared i) ⟨(valueOf? as "namespace").getD "##any",
    (valueOf? as "processContents").getD "strict", o⟩

/-! ## Simple types and attributes

A declaration is read by a function that is given the readings of its parts, so that all recursion
runs over lists of trees. -/

def simpleTypeOf (s : Setting) (name : Option String) (content : List Tree)
    (parts : SimpleType → Declare SimpleType) : Declare SimpleId := do
  let t ← parts {
    name
    space := declaredSpace s name
    notes := notesOf content }
  enterSimpleType t

mutual

/-- What one part of a simple type adds to it. -/
def simplePart (s : Setting) : Tree → SimpleType → Declare SimpleType
  | .text _, t => pure t
  | .element n as content, t => do
    match Construct.ofName? n with
    | some .restriction =>
      let baseName ← qname s (valueOf? as "base")
      let base := match ← firstSimple s content with
        | some i => some (SimpleRef.declared i)
        | none => t.base
      return { t with baseName, base }
    | some .list =>
      let itemName ← qname s (valueOf? as "itemType")
      return { t with variety := .list, itemName }
    | some .union => return { t with variety := .union }
    | _ => return t

/-- What the parts of a simple type add to it, a later part over an earlier one. -/
def simpleParts (s : Setting) : List Tree → SimpleType → Declare SimpleType
  | [], t => pure t
  | part :: parts, t => do simpleParts s parts (← simplePart s part t)

/-- The simple type that a tree is, if it is one. -/
def simple? (s : Setting) : Tree → Declare (Option SimpleId)
  | .text _ => pure none
  | .element n _ content =>
    if Construct.ofName? n == some .simpleType then
      some <$> simpleTypeOf s none content (simpleParts s content)
    else pure none

/-- The first simple type written inside. -/
def firstSimple (s : Setting) : List Tree → Declare (Option SimpleId)
  | [] => pure none
  | t :: ts => do
    match ← simple? s t with
    | some i => return some i
    | none => firstSimple s ts

end

def simpleType (s : Setting) (name : Option String) (content : List Tree) : Declare SimpleId :=
  simpleTypeOf s name content (simpleParts s content)

def attr (s : Setting) (isGlobal : Bool) (as : Attributes) (content : List Tree) :
    Declare AttributeId := do
  let inline ← firstSimple s content
  let ref ← qname s (valueOf? as "ref")
  let (space, name) := identity s isGlobal s.attributeForm as ref
  let typeName ← qname s (valueOf? as "type")
  enterAttribute {
    name, space, ref, typeName
    typeText := (valueOf? as "type").getD ""
    inline
    use := (valueOf? as "use").getD "optional"
    isGlobal
    notes := notesOf content }

def attributeUses (s : Setting) : List Tree → Declare (List AttributeId × List QName)
  | [] => pure ([], [])
  | .text _ :: ts => attributeUses s ts
  | .element n as content :: ts => do
    match Construct.ofName? n with
    | some .attr =>
      let a ← attr s false as content
      let (attributes, groups) ← attributeUses s ts
      return (a :: attributes, groups)
    | some .attrGroup =>
      let q ← qname s (valueOf? as "ref")
      let (attributes, groups) ← attributeUses s ts
      return (attributes, q.toList ++ groups)
    | _ => attributeUses s ts

/-! ## Elements, complex types and their content -/

/-- An element at the top occurs once, whatever is written on it. -/
def elementOccurs (isGlobal : Bool) (as : Attributes) : Declare Occurs :=
  if isGlobal then pure {} else occurs as

def elementOf (s : Setting) (isGlobal : Bool) (as : Attributes) (content : List Tree)
    (lastInline : Declare (Option TypeRef)) : Declare ElementId := do
  let o ← elementOccurs isGlobal as
  let inline ← lastInline
  let ref ← qname s (valueOf? as "ref")
  let (space, name) := identity s isGlobal s.elementForm as ref
  let typeName ← qname s (valueOf? as "type")
  let substitution ← qname s (valueOf? as "substitutionGroup")
  enterElement {
    name, space, ref, typeName, inline, substitution
    occurs := o
    isGlobal
    notes := notesOf content
    extra := extras s as }

def complexTypeOf (s : Setting) (name : Option String) (as : Attributes) (content : List Tree)
    (model : Declare (Option Derived)) (particle : Declare (Option Node)) :
    Declare ComplexId := do
  let space := declaredSpace s name
  let mixed := (valueOf? as "mixed").getD "" == "true"
  match ← model with
  | some m =>
    enterComplexType {
      name, space, mixed
      model := some m
      notes := notesOf content }
  | none =>
    let p ← particle
    let (attributes, attributeGroups) ← attributeUses s content
    enterComplexType {
      name, space, mixed
      particle := p
      attributes, attributeGroups
      notes := notesOf content }

def derivedOf (s : Setting) (simple mixed : Bool) (derivation : Derivation) (as : Attributes)
    (content : List Tree) (particle : Declare (Option Node)) : Declare Derived := do
  let (attributes, attributeGroups) ← attributeUses s content
  let base ← qname s (valueOf? as "base")
  let p ← particle
  return ⟨simple, mixed, derivation, base, p, attributes, attributeGroups⟩

/-- A sequence or a choice, which is entered behind all that is in it. -/
def compositorOf (make : Identity → Occurs → List Node → Node) (as : Attributes)
    (items : Declare (List Node)) : Declare (Option Node) := do
  let o ← occurs as
  let ns ← items
  let i ← enterParticle
  return some (make (.declared i) o ns)

mutual

/-- The type that a tree inside an element is, if it is one. -/
def inline? (s : Setting) : Tree → Declare (Option TypeRef)
  | .text _ => pure none
  | .element n as content => do
    match Construct.ofName? n with
    | some .complexType =>
      let i ← complexTypeOf s none as content (model s none content) (particle s content)
      return some (.complex (.declared i))
    | some .simpleType => return some (.simple (.declared (← simpleType s none content)))
    | _ => return none

/-- The type written inside an element: the last one, though all are entered. -/
def lastInline (s : Setting) : List Tree → Option TypeRef → Declare (Option TypeRef)
  | [], last => pure last
  | t :: ts, last => do lastInline s ts ((← inline? s t).or last)

/-- The particle that a tree in a type, a derivation or a group is, if it is one. -/
def particle? (s : Setting) : Tree → Declare (Option Node)
  | .text _ => pure none
  | .element n as content => do
    match Construct.ofName? n with
    | some .sequence => compositorOf (.sequence · .sequence) as (items s content)
    | some .all => compositorOf (.sequence · .all) as (items s content)
    | some .choice => compositorOf .choice as (items s content)
    | some .group => groupRef? s as
    | _ => return none

/-- The content of a type, a derivation or a group: the first particle in it. -/
def particle (s : Setting) : List Tree → Declare (Option Node)
  | [] => pure none
  | t :: ts => do
    match ← particle? s t with
    | some p => return some p
    | none => particle s ts

/-- The particle that a tree in a sequence or a choice is.  A group of the kind `all` is none. -/
def item? (s : Setting) : Tree → Declare (Option Node)
  | .text _ => pure none
  | .element n as content => do
    match Construct.ofName? n with
    | some .element =>
      return some (.element (← elementOf s false as content (lastInline s content none)))
    | some .sequence => compositorOf (.sequence · .sequence) as (items s content)
    | some .choice => compositorOf .choice as (items s content)
    | some .group => groupRef? s as
    | some .any => return some (← wildcard as)
    | _ => return none

/-- The particles of a sequence or a choice. -/
def items (s : Setting) : List Tree → Declare (List Node)
  | [] => pure []
  | t :: ts => do
    let first ← item? s t
    return first.toList ++ (← items s ts)

/-- The derivation that a tree in a content model is, if it is one. -/
def derived? (s : Setting) (simple mixed : Bool) : Tree → Declare (Option Derived)
  | .text _ => pure none
  | .element n as content =>
    match (Construct.ofName? n).bind (derivation? simple) with
    | some d => some <$> derivedOf s simple mixed d as content (particle s content)
    | none => pure none

/-- The first derivation inside a content model. -/
def derived (s : Setting) (simple mixed : Bool) (name : Option String) :
    List Tree → Declare Derived
  | [] => refuse (.noDerivation name) s.source
  | t :: ts => do
    match ← derived? s simple mixed t with
    | some d => return d
    | none => derived s simple mixed name ts

/-- The content model that a tree in a type is, if it is one. -/
def model? (s : Setting) (name : Option String) : Tree → Declare (Option Derived)
  | .text _ => pure none
  | .element n as content =>
    let mixed := (valueOf? as "mixed").getD "" == "true"
    match Construct.ofName? n with
    | some .complexContent => some <$> derived s false mixed name content
    | some .simpleContent => some <$> derived s true mixed name content
    | _ => pure none

/-- The first content model of a type. -/
def model (s : Setting) (name : Option String) : List Tree → Declare (Option Derived)
  | [] => pure none
  | t :: ts => do
    match ← model? s name t with
    | some m => return some m
    | none => model s name ts

end

def element (s : Setting) (isGlobal : Bool) (as : Attributes) (content : List Tree) :
    Declare ElementId :=
  elementOf s isGlobal as content (lastInline s content none)

def complexType (s : Setting) (name : Option String) (as : Attributes) (content : List Tree) :
    Declare ComplexId :=
  complexTypeOf s name as content (model s name content) (particle s content)

/-! ## The document -/

def group (s : Setting) (as : Attributes) (content : List Tree) : Declare GroupId := do
  let p ← particle s content
  enterGroup ⟨valueOf? as "name", s.space, p, notesOf content⟩

def attributeGroup (s : Setting) (as : Attributes) (content : List Tree) :
    Declare AttributeGroupId := do
  let (attributes, attributeGroups) ← attributeUses s content
  enterAttributeGroup ⟨valueOf? as "name", s.space, attributes, attributeGroups⟩

/-- One child of the root: a declaration at the top, or a directive. -/
def topLevel (s : Setting) (n : Name) (as : Attributes) (content : List Tree)
    (doc : Document) (directives : List Directive) : Declare (Document × List Directive) := do
  match Construct.ofName? n with
  | some .includes | some .imports | some .redefines =>
    let construct := (Construct.ofName? n).getD .includes
    return (doc, directives ++ [⟨construct, valueOf? as "schemaLocation", valueOf? as "namespace"⟩])
  | some .element =>
    let i ← element s true as content
    return ({ doc with elements := doc.elements ++ [i] }, directives)
  | some .complexType =>
    let i ← complexType s (valueOf? as "name") as content
    return ({ doc with types := doc.types ++ [.complex (.declared i)] }, directives)
  | some .simpleType =>
    let i ← simpleType s (valueOf? as "name") content
    return ({ doc with types := doc.types ++ [.simple (.declared i)] }, directives)
  | some .group =>
    let i ← group s as content
    return ({ doc with groups := doc.groups ++ [i] }, directives)
  | some .attr =>
    let i ← attr s true as content
    return ({ doc with attributes := doc.attributes ++ [i] }, directives)
  | some .attrGroup =>
    let i ← attributeGroup s as content
    return ({ doc with attributeGroups := doc.attributeGroups ++ [i] }, directives)
  | _ => return (doc, directives)

def topLevels (s : Setting) (doc : Document) (directives : List Directive) :
    List Tree → Declare (Document × List Directive)
  | [] => pure (doc, directives)
  | .text _ :: ts => topLevels s doc directives ts
  | .element n as content :: ts => do
    let (doc, directives) ← topLevel s n as content doc directives
    topLevels s doc directives ts

/-- Reads the document whose root holds `content`. -/
def document (s : Setting) (content : List Tree) : Declare (Document × List Directive) :=
  topLevels s {
    source := s.source
    space := s.space
    prefixes := s.prefixes.filter fun p => p.1 != "xml" } [] content

end Declaring
end Schema
end SchemaPaths
