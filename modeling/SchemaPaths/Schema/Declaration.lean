/-
Declarations, and the nodes that content is made of.

A declaration is known by its place in the list of its kind, and everything else refers to it by
that place.  So two declarations that say the same stay apart, and recursive schemas need no
recursive values.  What linking finds out about a declaration is kept beside what was declared.
-/
import SchemaPaths.Schema.Builtin
import SchemaPaths.Schema.Kind

namespace SchemaPaths
namespace Schema

abbrev ElementId := Nat
abbrev AttributeId := Nat
abbrev SimpleId := Nat
abbrev ComplexId := Nat
abbrev GroupId := Nat
abbrev AttributeGroupId := Nat
abbrev ParticleId := Nat

inductive SimpleRef where
  | builtin (b : Builtin)
  | declared (i : SimpleId)
deriving DecidableEq, Repr

inductive ComplexRef where
  | anyType
  | declared (i : ComplexId)
deriving DecidableEq, Repr

inductive TypeRef where
  | simple (r : SimpleRef)
  | complex (r : ComplexRef)
deriving DecidableEq, Repr

def anyType : TypeRef := .complex .anyType

def TypeRef.simple? : TypeRef → Option SimpleRef
  | .simple r => some r
  | .complex _ => none

/-- How often a particle may occur; without a `max`, any number of times. -/
structure Occurs where
  min : Int := 1
  max : Option Int := some 1
deriving DecidableEq, Repr

inductive Compositor where
  | sequence
  | all
deriving DecidableEq, Repr

structure Wildcard where
  space : String
  process : String
  occurs : Occurs
deriving DecidableEq, Repr

/-- What wildcards, sequences and choices are told apart by.  One that a document declares has a
place, as declarations have.  Linking makes others: the `copy` of a sequence or a choice, when
something in it is replaced, and the sequence in which the content of a type is `joined` to that
of its base.  It makes each of these once; linked again, a set has the new ones where it had the
old. -/
inductive Identity where
  | declared (i : ParticleId)
  | copy (original : Identity)
  | joined (t : ComplexId)
deriving DecidableEq, Repr

/-- What a walk can meet.  The content of a document is made of elements, wildcards, references to
groups, sequences and choices alone.  Of an unknown node only the word for its kind can be seen,
which may be the word for a kind that walks have rules for, and the family it belongs to. -/
inductive Node where
  | element (e : ElementId)
  | attr (a : AttributeId)
  | type (t : TypeRef)
  | sequence (self : Identity) (compositor : Compositor) (occurs : Occurs) (items : List Node)
  | choice (self : Identity) (occurs : Occurs) (items : List Node)
  | any (self : Identity) (w : Wildcard)
  | content (simple : Bool) (particle : Option Node)
  | derivation (d : Derivation) (particle : Option Node)
  | group (g : GroupId)
  | groupRef (ref : QName) (occurs : Occurs)
  | unknown (kind family : String)

def Node.kind? : Node → Option Kind
  | .element _ => some .element
  | .attr _ => some .attr
  | .type (.simple _) => some .simpleType
  | .type (.complex _) => some .complexType
  | .sequence .. => some .sequence
  | .choice .. => some .choice
  | .any .. => some .any
  | .content true _ => some .simpleContent
  | .content false _ => some .complexContent
  | .derivation d _ => some (.derivation d)
  | .group _ => some .group
  | .groupRef .. => some .groupRef
  | .unknown kind _ => Kind.ofText? kind

/-- The members of a sequence or a choice. -/
def Node.items : Node → List Node
  | .sequence _ _ _ items => items
  | .choice _ _ items => items
  | _ => []

/-- Whether two particles are one and the same.  A reference to a group is never what it stands
for. -/
def Node.is : Node → Node → Bool
  | .element e, .element e' => e == e'
  | .any i _, .any j _ => i == j
  | .sequence i _ _ _, .sequence j _ _ _ => i == j
  | .choice i _ _, .choice j _ _ => i == j
  | _, _ => false

structure Element where
  name : Option String := none
  space : String := ""
  ref : Option QName := none
  typeName : Option QName := none
  inline : Option TypeRef := none
  substitution : Option QName := none
  occurs : Occurs := {}
  isGlobal : Bool := false
  notes : List String := []
  extra : List (String × String) := []
  /-- The type found by linking. -/
  type : Option TypeRef := none
deriving Repr

structure Attribute where
  name : Option String := none
  space : String := ""
  ref : Option QName := none
  typeName : Option QName := none
  typeText : String := ""
  inline : Option SimpleId := none
  use : String := "optional"
  isGlobal : Bool := false
  notes : List String := []
  /-- The type found by linking. -/
  type : Option TypeRef := none
deriving Repr

inductive Variety where
  | atomic
  | list
  | union
deriving DecidableEq, Repr

structure SimpleType where
  name : Option String := none
  space : String := ""
  variety : Variety := .atomic
  baseName : Option QName := none
  itemName : Option QName := none
  code : Option String := none
  builtin : Bool := false
  notes : List String := []
  /-- The base, declared inside the type or found by linking. -/
  base : Option SimpleRef := none
deriving Repr

/-- The extension or restriction that a type with a content model is. -/
structure Derived where
  simple : Bool
  mixed : Bool
  derivation : Derivation
  base : Option QName
  particle : Option Node
  attributes : List AttributeId
  attributeGroups : List QName

inductive ContentType where
  | empty
  | textOnly
  | elementOnly
  | mixed
deriving DecidableEq, Repr

def ContentType.hasElements : ContentType → Bool
  | .elementOnly => true
  | .mixed => true
  | _ => false

structure ComplexType where
  name : Option String := none
  space : String := ""
  model : Option Derived := none
  particle : Option Node := none
  attributes : List AttributeId := []
  attributeGroups : List QName := []
  mixed : Bool := false
  notes : List String := []
  /-- The rest is found by linking. -/
  base : Option TypeRef := none
  contentType : ContentType := .empty
  content : Option Node := none
  uses : List AttributeId := []

structure Group where
  name : Option String := none
  space : String := ""
  particle : Option Node := none
  notes : List String := []

structure AttributeGroup where
  name : Option String := none
  space : String := ""
  attributes : List AttributeId := []
  attributeGroups : List QName := []
deriving Repr

/-- All declarations of the documents read so far, in the order in which their ends were met: what
a declaration holds comes before it. -/
structure Declarations where
  elements : Array Element := #[]
  attributes : Array Attribute := #[]
  simpleTypes : Array SimpleType := #[]
  complexTypes : Array ComplexType := #[]
  groups : Array Group := #[]
  attributeGroups : Array AttributeGroup := #[]
  /-- How many wildcards, sequences and choices there are. -/
  particles : Nat := 0

namespace Declarations

def element (d : Declarations) (i : ElementId) : Element := d.elements.getD i {}

def attr (d : Declarations) (i : AttributeId) : Attribute := d.attributes.getD i {}

def simpleType (d : Declarations) (i : SimpleId) : SimpleType := d.simpleTypes.getD i {}

def complexType (d : Declarations) (i : ComplexId) : ComplexType := d.complexTypes.getD i {}

def group (d : Declarations) (i : GroupId) : Group := d.groups.getD i {}

def attributeGroup (d : Declarations) (i : AttributeGroupId) : AttributeGroup :=
  d.attributeGroups.getD i {}

/-! ## Types that need no declaration -/

def ofBuiltin (b : Builtin) : SimpleType where
  name := some b.name
  space := xsSpace
  variety := if b.isList then .list else .atomic
  baseName := b.base.map fun n => ⟨xsSpace, some n⟩
  code := some b.code
  builtin := true
  base := (b.base.bind Builtin.find?).map .builtin

def ofAnyType : ComplexType where
  name := some Builtin.anyTypeName
  space := xsSpace
  mixed := true
  contentType := .mixed

def simple (d : Declarations) : SimpleRef → SimpleType
  | .builtin b => ofBuiltin b
  | .declared i => d.simpleType i

def complex (d : Declarations) : ComplexRef → ComplexType
  | .anyType => ofAnyType
  | .declared i => d.complexType i

def typeName (d : Declarations) : TypeRef → Option String
  | .simple r => (d.simple r).name
  | .complex r => (d.complex r).name

def typeSpace (d : Declarations) : TypeRef → String
  | .simple r => (d.simple r).space
  | .complex r => (d.complex r).space

def isBuiltin (d : Declarations) : TypeRef → Bool
  | .simple r => (d.simple r).builtin
  | .complex .anyType => true
  | .complex (.declared _) => false

/-- The code of the nearest type that has one, from a type up through its bases.  A declared list
or union has none.  A chain of bases that never ends has none either. -/
def simpleCodeFrom (d : Declarations) : Nat → SimpleRef → Option String
  | 0, _ => none
  | fuel + 1, r =>
    let t := d.simple r
    if t.variety != .atomic && !t.builtin then none
    else match t.code with
      | some c => if c != "" then some c else t.base.bind (simpleCodeFrom d fuel)
      | none => t.base.bind (simpleCodeFrom d fuel)

/-- More steps than any chain of bases without repetition can have. -/
def chainBound (d : Declarations) : Nat := d.simpleTypes.size + Builtin.all.length + 1

def typeCode (d : Declarations) : TypeRef → Option String
  | .complex .anyType => some Builtin.anyTypeCode
  | .complex (.declared _) => none
  | .simple r => simpleCodeFrom d d.chainBound r

/-! ## Additions -/

def addElement (d : Declarations) (e : Element) : ElementId × Declarations :=
  (d.elements.size, { d with elements := d.elements.push e })

def addAttribute (d : Declarations) (a : Attribute) : AttributeId × Declarations :=
  (d.attributes.size, { d with attributes := d.attributes.push a })

def addSimpleType (d : Declarations) (t : SimpleType) : SimpleId × Declarations :=
  (d.simpleTypes.size, { d with simpleTypes := d.simpleTypes.push t })

def addComplexType (d : Declarations) (t : ComplexType) : ComplexId × Declarations :=
  (d.complexTypes.size, { d with complexTypes := d.complexTypes.push t })

def addGroup (d : Declarations) (g : Group) : GroupId × Declarations :=
  (d.groups.size, { d with groups := d.groups.push g })

def addAttributeGroup (d : Declarations) (g : AttributeGroup) : AttributeGroupId × Declarations :=
  (d.attributeGroups.size, { d with attributeGroups := d.attributeGroups.push g })

def addParticle (d : Declarations) : ParticleId × Declarations :=
  (d.particles, { d with particles := d.particles + 1 })

/-! ## Changes -/

def modifyElement (d : Declarations) (i : ElementId) (f : Element → Element) : Declarations :=
  { d with elements := d.elements.modify i f }

def modifyAttribute (d : Declarations) (i : AttributeId) (f : Attribute → Attribute) :
    Declarations :=
  { d with attributes := d.attributes.modify i f }

def modifySimpleType (d : Declarations) (i : SimpleId) (f : SimpleType → SimpleType) :
    Declarations :=
  { d with simpleTypes := d.simpleTypes.modify i f }

def modifyComplexType (d : Declarations) (i : ComplexId) (f : ComplexType → ComplexType) :
    Declarations :=
  { d with complexTypes := d.complexTypes.modify i f }

end Declarations
end Schema
end SchemaPaths
