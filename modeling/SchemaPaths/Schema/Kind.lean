/-
The kinds of schema nodes.
-/
namespace SchemaPaths
namespace Schema

/-- The ways in which a type with a content model comes from its base. -/
inductive Derivation where
  | complexExtension
  | complexRestriction
  | simpleExtension
  | simpleRestriction
deriving DecidableEq, Repr

def Derivation.isExtension : Derivation → Bool
  | .complexExtension => true
  | .simpleExtension => true
  | _ => false

inductive Kind where
  | element
  | attr
  | simpleType
  | complexType
  | sequence
  | choice
  | any
  | complexContent
  | simpleContent
  | derivation (d : Derivation)
  | group
  | groupRef
deriving DecidableEq, Repr

namespace Kind

/-- Kinds that every walk understands. -/
def core : List Kind := [.element, .attr, .simpleType, .complexType, .sequence, .choice, .any]

/-- Kinds that only some walks understand. -/
def extension : List Kind :=
  [.complexContent, .simpleContent, .derivation .complexExtension, .derivation .complexRestriction,
    .derivation .simpleExtension, .derivation .simpleRestriction, .group, .groupRef]

def all : List Kind := core ++ extension

def text : Kind → String
  | .element => "element"
  | .attr => "attribute"
  | .simpleType => "simple_type"
  | .complexType => "complex_type"
  | .sequence => "sequence"
  | .choice => "choice"
  | .any => "any"
  | .complexContent => "complex_content"
  | .simpleContent => "simple_content"
  | .derivation .complexExtension => "complex_content_extension"
  | .derivation .complexRestriction => "complex_content_restriction"
  | .derivation .simpleExtension => "simple_content_extension"
  | .derivation .simpleRestriction => "simple_content_restriction"
  | .group => "group"
  | .groupRef => "group_ref"

def ofText? (s : String) : Option Kind := all.find? fun k => k.text == s

/-- A kind as messages name it: in capitals, after the name of the family. -/
def label (k : Kind) : String := "NodeKind." ++ k.text.toUpper

end Kind
end Schema
end SchemaPaths
