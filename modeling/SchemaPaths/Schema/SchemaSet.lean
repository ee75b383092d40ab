/-
The documents read so far and the tables of what they declare at their top.
-/
import SchemaPaths.Markup.Prefixes
import SchemaPaths.Schema.Error

namespace SchemaPaths
namespace Schema

/-- One document, its top-level declarations in their order. -/
structure Document where
  source : String
  space : String
  prefixes : Markup.Prefixes := []
  elements : List ElementId := []
  types : List TypeRef := []
  groups : List GroupId := []
  attributes : List AttributeId := []
  attributeGroups : List AttributeGroupId := []

structure SchemaSet where
  documents : List Document := []
  declared : Declarations := {}
  elements : Table ElementId := []
  types : Table TypeRef := []
  groups : Table GroupId := []
  attributes : Table AttributeId := []
  attributeGroups : Table AttributeGroupId := []

def addNew (names : List String) (name : String) : List String :=
  if names.contains name then names else names ++ [name]

/-- The values in the order of their first places. -/
def distinct (names : List String) : List String := names.foldl addNew []

namespace SchemaSet

/-- Takes up a document whose declarations are already held. -/
def add (s : SchemaSet) (doc : Document) : SchemaSet :=
  let d := s.declared
  let key (name : Option String) : QName := ⟨doc.space, name⟩
  { s with
    documents := s.documents ++ [doc]
    elements := doc.elements.foldl (fun t i => t.put (key (d.element i).name) i) s.elements
    types := doc.types.foldl (fun t r => t.put (key (d.typeName r)) r) s.types
    groups := doc.groups.foldl (fun t i => t.put (key (d.group i).name) i) s.groups
    attributes := doc.attributes.foldl (fun t i => t.put (key (d.attr i).name) i) s.attributes
    attributeGroups := doc.attributeGroups.foldl
      (fun t i => t.put (key (d.attributeGroup i).name) i) s.attributeGroups }

/-! ## Look-ups -/

def element? (s : SchemaSet) (q : QName) : Option ElementId := s.elements.find? q

/-- A type of the schema language itself, or a declared one. -/
def type? (s : SchemaSet) (q : QName) : Option TypeRef :=
  if q.space == xsSpace then
    q.name.bind fun n =>
      if n == Builtin.anyTypeName then some anyType
      else (Builtin.find? n).map fun b => .simple (.builtin b)
  else s.types.find? q

def group? (s : SchemaSet) (q : QName) : Option GroupId := s.groups.find? q

def attr? (s : SchemaSet) (q : QName) : Option AttributeId := s.attributes.find? q

def attributeGroup? (s : SchemaSet) (q : QName) : Option AttributeGroupId :=
  s.attributeGroups.find? q

def found {α : Type} (what : Symbol) (q : QName) : Option α → Except Failure α
  | some a => .ok a
  | none => .error (.unresolved what q)

def element (s : SchemaSet) (q : QName) : Except Failure ElementId :=
  found .element q (s.element? q)

def type (s : SchemaSet) (q : QName) : Except Failure TypeRef := found .type q (s.type? q)

def group (s : SchemaSet) (q : QName) : Except Failure GroupId := found .group q (s.group? q)

def attr (s : SchemaSet) (q : QName) : Except Failure AttributeId := found .attr q (s.attr? q)

def attributeGroup (s : SchemaSet) (q : QName) : Except Failure AttributeGroupId :=
  found .attrGroup q (s.attributeGroup? q)

/-! ## Namespaces -/

/-- Every namespace of a document, its own first. -/
def namespaces (s : SchemaSet) : List String :=
  distinct (s.documents.flatMap fun doc => doc.space :: doc.prefixes.map (·.2))

/-- The prefixes of all documents together; the first declaration of a prefix wins. -/
def prefixes (s : SchemaSet) : Markup.Prefixes :=
  (s.documents.flatMap fun doc => doc.prefixes.filter fun p => p.1 != "").foldl
    Markup.Prefixes.add []

end SchemaSet
end Schema
end SchemaPaths
