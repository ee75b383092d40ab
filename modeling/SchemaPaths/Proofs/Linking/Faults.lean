/-
Why linking fails.

Linking follows bases from type to type, references from group to group and heads from element to
element, and it looks names up.  A set is `Circular` when one of these ways never ends, and the
names that linking looks up are the `Sought` ones.  A failure is a `Fault` of the set when the set
gives the reason for it.
-/
import SchemaPaths.Proofs.Schema.Sets

namespace SchemaPaths
namespace Schema

open Relation

namespace SchemaSet

/-- The base of a simple type: the one written in it, or else the one it names, if that is
simple. -/
def simpleBase? (s : SchemaSet) (i : SimpleId) : Option SimpleRef :=
  (s.declared.simpleType i).base.or
    ((s.declared.simpleType i).baseName.bind fun q => (s.type? q).bind TypeRef.simple?)

/-- The base of a complex type: the one its content model names, or else any type. -/
def complexBase? (s : SchemaSet) (t : ComplexType) : Option TypeRef :=
  match t.model with
  | none => some anyType
  | some m => m.base.bind s.type?

/-- The type of an attribute that is no reference: written in it, named by it, or any simple
type. -/
def attrType? (s : SchemaSet) (a : Attribute) : Option TypeRef :=
  match a.inline, a.typeName with
  | some t, _ => some (.simple (.declared t))
  | none, some q => s.type? q
  | none, none => some (.simple (.builtin Builtin.anySimple))

end SchemaSet

/-! ## Ways from declaration to declaration -/

def SimpleBase (s : SchemaSet) (i j : SimpleId) : Prop := s.simpleBase? i = some (.declared j)

def ComplexBase (s : SchemaSet) (i j : ComplexId) : Prop :=
  s.complexBase? (s.declared.complexType i) = some (.complex (.declared j))

/-- An element names the other as the head of its substitution group. -/
def Head (s : SchemaSet) (i j : ElementId) : Prop :=
  ∃ q, (s.declared.element i).substitution = some q ∧ s.element? q = some j

/-- The type of an element: the one it has already, or else the one written in it, named by it or
taken over from its head, or any type.  A reference has none. -/
inductive ElementType (s : SchemaSet) : ElementId → Option TypeRef → Prop
  | kept {i : ElementId} {t : TypeRef} (before : (s.declared.element i).type = some t) :
      ElementType s i (some t)
  | reference {i : ElementId} {q : QName} (new : (s.declared.element i).type = none)
      (ref : (s.declared.element i).ref = some q) : ElementType s i none
  | written {i : ElementId} {t : TypeRef} (new : (s.declared.element i).type = none)
      (noRef : (s.declared.element i).ref = none)
      (written : (s.declared.element i).inline = some t) : ElementType s i (some t)
  | named {i : ElementId} {q : QName} {t : TypeRef} (new : (s.declared.element i).type = none)
      (noRef : (s.declared.element i).ref = none)
      (unwritten : (s.declared.element i).inline = none)
      (named : (s.declared.element i).typeName = some q) (found : s.type? q = some t) :
      ElementType s i (some t)
  | taken {i h : ElementId} {o : Option TypeRef} (new : (s.declared.element i).type = none)
      (noRef : (s.declared.element i).ref = none)
      (unwritten : (s.declared.element i).inline = none)
      (unnamed : (s.declared.element i).typeName = none) (head : Head s i h)
      (type : ElementType s h o) : ElementType s i o
  | any {i : ElementId} (new : (s.declared.element i).type = none)
      (noRef : (s.declared.element i).ref = none)
      (unwritten : (s.declared.element i).inline = none)
      (unnamed : (s.declared.element i).typeName = none)
      (headless : (s.declared.element i).substitution = none) : ElementType s i (some anyType)

/-- What derives from or contains itself: a simple or a complex type whose bases never end, a group
in the tables that refers back to itself, or an element, itself no reference, whose heads never
end. -/
inductive Circular (s : SchemaSet) : Prop
  | simple {i : SimpleId} (endless : Endless (SimpleBase s) i)
  | complex {i : ComplexId} (endless : Endless (ComplexBase s) i)
  | group {q : QName} {g : GroupId} (listed : (q, g) ∈ s.groups)
      (back : TransGen (GroupUse s) g g)
  | heads {i : ElementId} (noRef : (s.declared.element i).ref = none)
      (endless : Endless (Head s) i)

/-! ## Names -/

/-- The names that linking looks up. -/
inductive Sought (s : SchemaSet) : Symbol → QName → Prop
  | simpleBase {i : SimpleId} {q : QName} (unwritten : (s.declared.simpleType i).base = none)
      (named : (s.declared.simpleType i).baseName = some q) : Sought s .type q
  | itemType {i : SimpleId} {q : QName}
      (named : (s.declared.simpleType i).itemName = some q) : Sought s .type q
  | complexBase {i : ComplexId} {m : Derived} {q : QName}
      (model : (s.declared.complexType i).model = some m) (named : m.base = some q) :
      Sought s .type q
  | content {i : ComplexId} {n : Node} {q : QName}
      (particle : Linking.ownParticle (s.declared.complexType i) = some n)
      (named : q ∈ n.groupNames) : Sought s .group q
  | group {k q : QName} {g : GroupId} {n : Node} (listed : (k, g) ∈ s.groups)
      (particle : (s.declared.group g).particle = some n) (named : q ∈ n.groupNames) :
      Sought s .group q
  | attributeGroup {i : ComplexId} {q : QName}
      (named : q ∈ (Linking.ownAttributes (s.declared.complexType i)).2) : Sought s .attrGroup q
  | innerAttributeGroup {q r : QName} {g : AttributeGroupId} (outer : Sought s .attrGroup q)
      (found : s.attributeGroup? q = some g)
      (named : r ∈ (s.declared.attributeGroup g).attributeGroups) : Sought s .attrGroup r
  | attr {i : AttributeId} {q : QName} (ref : (s.declared.attr i).ref = some q) : Sought s .attr q
  | attributeType {i : AttributeId} {q : QName} (noRef : (s.declared.attr i).ref = none)
      (unwritten : (s.declared.attr i).inline = none)
      (named : (s.declared.attr i).typeName = some q) : Sought s .type q
  | element {i : ElementId} {q : QName} (ref : (s.declared.element i).ref = some q) :
      Sought s .element q
  | head {i h : ElementId} {q : QName} (noRef : (s.declared.element i).ref = none)
      (heads : ReflTransGen (Head s) i h)
      (named : (s.declared.element h).substitution = some q) : Sought s .element q
  | elementType {i : ElementId} {q : QName} (noRef : (s.declared.element i).ref = none)
      (unwritten : (s.declared.element i).inline = none)
      (named : (s.declared.element i).typeName = some q) : Sought s .type q

/-- Whether a name is declared, or known without declaration. -/
def SchemaSet.Has (s : SchemaSet) : Symbol → QName → Prop
  | .element, q => (s.element? q).isSome
  | .type, q => (s.type? q).isSome
  | .group, q => (s.group? q).isSome
  | .attr, q => (s.attr? q).isSome
  | .attrGroup, q => (s.attributeGroup? q).isSome

/-- The failures that a set gives a reason for. -/
inductive Fault (s : SchemaSet) : Failure → Prop
  | unresolved {what : Symbol} {q : QName} (sought : Sought s what q) (missing : ¬ s.Has what q) :
      Fault s (.unresolved what q)
  | noBase {i : ComplexId} {m : Derived} (model : (s.declared.complexType i).model = some m)
      (none : m.base = none) : Fault s .missingPart
  | circular {problem : LoadProblem} (h : Circular s) : Fault s (.load problem)

/-! ## What a run fails for -/

/-- The set without its elements: only types, attributes and groups give reasons to fail. -/
def SchemaSet.withoutElements (s : SchemaSet) : SchemaSet :=
  { s with declared := { s.declared with elements := #[] } }

/-- The failures that a run comes to.  It passes over the elements that have a type already; of the
others it looks up what they refer to, their heads and the types that they name. -/
inductive Due (s : SchemaSet) : Failure → Prop
  | apart {f : Failure} (h : Fault s.withoutElements f) : Due s f
  | reference {i : ElementId} {q : QName} (ref : (s.declared.element i).ref = some q)
      (missing : s.element? q = none) : Due s (.unresolved .element q)
  | head {i h : ElementId} {q : QName} (new : (s.declared.element i).type = none)
      (noRef : (s.declared.element i).ref = none) (heads : ReflTransGen (Head s) i h)
      (named : (s.declared.element h).substitution = some q) (missing : s.element? q = none) :
      Due s (.unresolved .element q)
  | elementType {i : ElementId} {q : QName} (new : (s.declared.element i).type = none)
      (noRef : (s.declared.element i).ref = none) (unwritten : (s.declared.element i).inline = none)
      (named : (s.declared.element i).typeName = some q) (missing : s.type? q = none) :
      Due s (.unresolved .type q)
  | heads {i : ElementId} {problem : LoadProblem} (new : (s.declared.element i).type = none)
      (noRef : (s.declared.element i).ref = none) (endless : Endless (Head s) i) :
      Due s (.load problem)

section Due

variable {s : SchemaSet}

theorem element_withoutElements (s : SchemaSet) (i : ElementId) :
    s.withoutElements.declared.element i = {} := rfl

theorem not_head_withoutElements {i j : ElementId} : ¬ Head s.withoutElements i j := by
  intro ⟨q, hq, _⟩
  rw [element_withoutElements] at hq
  cases hq

theorem Sought.of_withoutElements {what : Symbol} {q : QName} (h : Sought s.withoutElements what q) :
    Sought s what q := by
  induction h with
  | simpleBase unwritten named => exact .simpleBase unwritten named
  | itemType named => exact .itemType named
  | complexBase model named => exact .complexBase model named
  | content particle named => exact .content particle named
  | group listed particle named => exact .group listed particle named
  | attributeGroup named => exact .attributeGroup named
  | innerAttributeGroup _ found named ih => exact .innerAttributeGroup ih found named
  | attr ref => exact .attr ref
  | attributeType noRef unwritten named => exact .attributeType noRef unwritten named
  | element ref => cases ref
  | head _ heads named =>
    cases named
  | elementType _ _ named => cases named

theorem Circular.of_withoutElements (h : Circular s.withoutElements) : Circular s := by
  cases h with
  | simple endless => exact .simple endless
  | complex endless => exact .complex endless
  | group listed back => exact .group listed back
  | heads _ endless =>
    obtain ⟨way, -, hway⟩ := endless
    exact absurd (hway 0) not_head_withoutElements

theorem Due.unresolved {what : Symbol} {q : QName} (sought : Sought s.withoutElements what q)
    (missing : ¬ s.Has what q) : Due s (.unresolved what q) := .apart (.unresolved sought missing)

theorem Due.fault {f : Failure} (h : Due s f) : Fault s f := by
  cases h with
  | apart h =>
    cases h with
    | unresolved sought missing => exact .unresolved sought.of_withoutElements missing
    | noBase model none => exact .noBase model none
    | circular h => exact .circular h.of_withoutElements
  | reference ref missing => exact .unresolved (.element ref) (by simp [SchemaSet.Has, missing])
  | head _ noRef heads named missing =>
    exact .unresolved (.head noRef heads named) (by simp [SchemaSet.Has, missing])
  | elementType _ noRef unwritten named missing =>
    exact .unresolved (.elementType noRef unwritten named) (by simp [SchemaSet.Has, missing])
  | heads _ noRef endless => exact .circular (.heads noRef endless)

theorem Sought.apart {q : QName} (h : Sought s .attrGroup q) :
    Sought s.withoutElements .attrGroup q := by
  generalize hwhat : Symbol.attrGroup = what at h
  induction h with
  | attributeGroup named => exact .attributeGroup named
  | innerAttributeGroup _ found named ih => exact .innerAttributeGroup (ih rfl) found named
  | _ => cases hwhat

/-- Where no element has a type yet, a run passes over none. -/
theorem Fault.due (hnew : ∀ i, (s.declared.element i).type = none) {f : Failure} (h : Fault s f) :
    Due s f := by
  cases h with
  | unresolved sought missing =>
    cases sought with
    | simpleBase unwritten named => exact .unresolved (.simpleBase unwritten named) missing
    | itemType named => exact .unresolved (.itemType named) missing
    | complexBase model named => exact .unresolved (.complexBase model named) missing
    | content particle named => exact .unresolved (.content particle named) missing
    | group listed particle named => exact .unresolved (.group listed particle named) missing
    | attributeGroup named => exact .unresolved (.attributeGroup named) missing
    | innerAttributeGroup outer found named =>
      exact .unresolved (.innerAttributeGroup outer.apart found named) missing
    | attr ref => exact .unresolved (.attr ref) missing
    | attributeType noRef unwritten named =>
      exact .unresolved (.attributeType noRef unwritten named) missing
    | element ref => exact .reference ref (by simpa [SchemaSet.Has] using missing)
    | head noRef heads named =>
      exact .head (hnew _) noRef heads named (by simpa [SchemaSet.Has] using missing)
    | elementType noRef unwritten named =>
      exact .elementType (hnew _) noRef unwritten named (by simpa [SchemaSet.Has] using missing)
  | noBase model none => exact .apart (.noBase model none)
  | circular h =>
    cases h with
    | simple endless => exact .apart (.circular (.simple endless))
    | complex endless => exact .apart (.circular (.complex endless))
    | group listed back => exact .apart (.circular (.group listed back))
    | heads noRef endless => exact .heads (hnew _) noRef endless

end Due

/-- Each element has one head at most. -/
theorem head_unique {s : SchemaSet} {i j k : ElementId} (h : Head s i j) (h' : Head s i k) :
    k = j := by
  obtain ⟨q, hq, hj⟩ := h
  obtain ⟨r, hr, hk⟩ := h'
  rw [hq] at hr
  cases hr
  rw [hj] at hk
  cases hk
  rfl

/-- Each element has one type at most. -/
theorem ElementType.unique {s : SchemaSet} {i : ElementId} {o o' : Option TypeRef}
    (h : ElementType s i o) (h' : ElementType s i o') : o' = o := by
  induction h generalizing o' with
  | kept before => cases h' <;> simp_all
  | reference new ref => cases h' <;> simp_all
  | written new noRef written => cases h' <;> simp_all
  | named new noRef unwritten named found => cases h' <;> simp_all
  | taken new noRef unwritten unnamed head type ih =>
    cases h' with
    | taken _ _ _ _ head' type' => exact ih (head_unique head head' ▸ type')
    | any _ _ _ _ headless =>
      obtain ⟨q, hq, -⟩ := head
      rw [headless] at hq
      cases hq
    | _ => simp_all
  | any new noRef unwritten unnamed headless =>
    cases h' with
    | taken _ _ _ _ head =>
      obtain ⟨q, hq, -⟩ := head
      rw [headless] at hq
      cases hq
    | _ => simp_all

end Schema
end SchemaPaths
