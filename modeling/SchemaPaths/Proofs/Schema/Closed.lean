/-
Declarations that refer to nothing beyond themselves.

Everything is referred to by its place, so a place must be there when something is looked up under
it.  Which places there are depends on how many declarations of each kind there are, the `Extent`;
what is within one extent is within every larger one, so nothing that was read before is spoiled by
what is read later.
-/
import SchemaPaths.Proofs.Schema.Content

namespace SchemaPaths
namespace Schema

/-- How many declarations of each kind there are. -/
structure Extent where
  elements : Nat
  attributes : Nat
  simpleTypes : Nat
  complexTypes : Nat
  groups : Nat
  attributeGroups : Nat
  particles : Nat

namespace Extent

structure le (x y : Extent) : Prop where
  elements : x.elements ≤ y.elements
  attributes : x.attributes ≤ y.attributes
  simpleTypes : x.simpleTypes ≤ y.simpleTypes
  complexTypes : x.complexTypes ≤ y.complexTypes
  groups : x.groups ≤ y.groups
  attributeGroups : x.attributeGroups ≤ y.attributeGroups
  particles : x.particles ≤ y.particles

instance : LE Extent := ⟨le⟩

theorem le_refl (x : Extent) : x ≤ x :=
  ⟨Nat.le_refl _, Nat.le_refl _, Nat.le_refl _, Nat.le_refl _, Nat.le_refl _, Nat.le_refl _,
    Nat.le_refl _⟩

theorem le_trans {x y z : Extent} (h : x ≤ y) (h' : y ≤ z) : x ≤ z :=
  ⟨h.elements.trans h'.elements, h.attributes.trans h'.attributes,
    h.simpleTypes.trans h'.simpleTypes, h.complexTypes.trans h'.complexTypes,
    h.groups.trans h'.groups, h.attributeGroups.trans h'.attributeGroups,
    h.particles.trans h'.particles⟩

/-! ## What is within an extent -/

def HasSimple (x : Extent) : SimpleRef → Prop
  | .builtin _ => True
  | .declared i => i < x.simpleTypes

def HasType (x : Extent) : TypeRef → Prop
  | .simple r => x.HasSimple r
  | .complex .anyType => True
  | .complex (.declared i) => i < x.complexTypes

/-- What a sequence or a choice is told apart by, whether it was declared or linking made it. -/
def HasIdentity (x : Extent) : Identity → Prop
  | .declared i => i < x.particles
  | .copy original => x.HasIdentity original
  | .joined t => t < x.complexTypes

/-- The atoms that the content of a document is made of, each one as it was declared. -/
def HasAtom (x : Extent) : Node → Prop
  | .element e => e < x.elements
  | .any (.declared i) _ => i < x.particles
  | .groupRef .. => True
  | _ => False

def HasContent (x : Extent) (n : Node) : Prop := n.MadeOf x.HasAtom x.HasIdentity

theorem HasAtom.is_self {x : Extent} {a : Node} (h : x.HasAtom a) (plain : a.groupName? = none) :
    a.is a = true := by
  cases a with
  | element e => exact beq_self_eq_true e
  | any i w => exact beq_self_eq_true i
  | groupRef q o => cases plain
  | _ => exact h.elim

structure HasElement (x : Extent) (e : Element) : Prop where
  inline : ∀ r ∈ e.inline, x.HasType r
  type : ∀ r ∈ e.type, x.HasType r

structure HasAttribute (x : Extent) (a : Attribute) : Prop where
  inline : ∀ i ∈ a.inline, i < x.simpleTypes
  type : ∀ r ∈ a.type, x.HasType r

structure HasSimpleType (x : Extent) (t : SimpleType) : Prop where
  base : ∀ r ∈ t.base, x.HasSimple r

/-- Only a type without a content model has a particle and attributes of its own. -/
structure HasComplexType (x : Extent) (t : ComplexType) : Prop where
  particle : t.model.isSome → t.particle = none
  unlisted : t.model.isSome → t.attributes = []
  own : ∀ n ∈ Linking.ownParticle t, n.IsModel ∧ x.HasContent n
  attributes : ∀ a ∈ (Linking.ownAttributes t).1, a < x.attributes
  base : ∀ r ∈ t.base, x.HasType r
  content : ∀ n ∈ t.content, x.HasContent n
  uses : ∀ a ∈ t.uses, a < x.attributes

/-- So the particle of a type, if it has one, is its own. -/
theorem HasComplexType.own_of_particle {x : Extent} {t : ComplexType} {n : Node}
    (h : x.HasComplexType t) (hn : t.particle = some n) :
    t.model = none ∧ Linking.ownParticle t = some n := by
  have hmodel : t.model = none := by
    cases hm : t.model with
    | none => rfl
    | some m =>
      have hno := h.particle (by rw [hm]; rfl)
      rw [hn] at hno
      cases hno
  refine ⟨hmodel, ?_⟩
  rw [Linking.ownParticle, hmodel]
  exact hn

theorem HasComplexType.listed {x : Extent} {t : ComplexType} (h : x.HasComplexType t) :
    ∀ a ∈ t.attributes, a < x.attributes := by
  have hattributes := h.attributes
  cases hm : t.model with
  | none =>
    rw [Linking.ownAttributes, hm] at hattributes
    exact hattributes
  | some m =>
    rw [h.unlisted (by rw [hm]; rfl)]
    exact nofun

def HasGroup (x : Extent) (g : Group) : Prop := ∀ n ∈ g.particle, n.IsModel ∧ x.HasContent n

def HasAttributeGroup (x : Extent) (g : AttributeGroup) : Prop :=
  ∀ a ∈ g.attributes, a < x.attributes

section Growth

variable {x y : Extent} (h : x ≤ y)
include h

theorem HasSimple.mono {r : SimpleRef} (hr : x.HasSimple r) : y.HasSimple r := by
  cases r with
  | builtin b => trivial
  | declared i => exact Nat.lt_of_lt_of_le hr h.simpleTypes

theorem HasType.mono {r : TypeRef} (hr : x.HasType r) : y.HasType r := by
  match r, hr with
  | .simple r, hr => exact HasSimple.mono h hr
  | .complex .anyType, _ => trivial
  | .complex (.declared i), hr => exact Nat.lt_of_lt_of_le hr h.complexTypes

theorem HasIdentity.mono {i : Identity} (hi : x.HasIdentity i) : y.HasIdentity i := by
  induction i with
  | declared i => exact Nat.lt_of_lt_of_le hi h.particles
  | copy original ih => exact ih hi
  | joined t => exact Nat.lt_of_lt_of_le hi h.complexTypes

theorem HasAtom.mono {n : Node} (hn : x.HasAtom n) : y.HasAtom n := by
  match n, hn with
  | .element _, hn => exact Nat.lt_of_lt_of_le hn h.elements
  | .any (.declared _) _, hn => exact Nat.lt_of_lt_of_le hn h.particles
  | .groupRef .., _ => trivial

theorem HasContent.mono {n : Node} (hn : x.HasContent n) : y.HasContent n :=
  Node.MadeOf.mono hn (fun _ => HasAtom.mono h) fun _ => HasIdentity.mono h

theorem HasElement.mono {e : Element} (he : x.HasElement e) : y.HasElement e :=
  ⟨fun r hr => HasType.mono h (he.inline r hr), fun r hr => HasType.mono h (he.type r hr)⟩

theorem HasAttribute.mono {a : Attribute} (ha : x.HasAttribute a) : y.HasAttribute a :=
  ⟨fun i hi => Nat.lt_of_lt_of_le (ha.inline i hi) h.simpleTypes,
    fun r hr => HasType.mono h (ha.type r hr)⟩

theorem HasSimpleType.mono {t : SimpleType} (ht : x.HasSimpleType t) : y.HasSimpleType t :=
  ⟨fun r hr => HasSimple.mono h (ht.base r hr)⟩

theorem HasComplexType.mono {t : ComplexType} (ht : x.HasComplexType t) : y.HasComplexType t where
  particle := ht.particle
  unlisted := ht.unlisted
  own n hn := ⟨(ht.own n hn).1, HasContent.mono h (ht.own n hn).2⟩
  attributes a ha := Nat.lt_of_lt_of_le (ht.attributes a ha) h.attributes
  base r hr := HasType.mono h (ht.base r hr)
  content n hn := HasContent.mono h (ht.content n hn)
  uses a ha := Nat.lt_of_lt_of_le (ht.uses a ha) h.attributes

theorem HasGroup.mono {g : Group} (hg : x.HasGroup g) : y.HasGroup g :=
  fun n hn => ⟨(hg n hn).1, HasContent.mono h (hg n hn).2⟩

theorem HasAttributeGroup.mono {g : AttributeGroup} (hg : x.HasAttributeGroup g) :
    y.HasAttributeGroup g :=
  fun a ha => Nat.lt_of_lt_of_le (hg a ha) h.attributes

end Growth

end Extent

theorem getD_of_le {α : Type} {a : Array α} {fill : α} {i : Nat} (h : a.size ≤ i) :
    a.getD i fill = fill := by
  rw [Array.getD_eq_getD_getElem?, Array.getElem?_eq_none h]
  rfl

namespace Declarations

def extent (d : Declarations) : Extent :=
  ⟨d.elements.size, d.attributes.size, d.simpleTypes.size, d.complexTypes.size, d.groups.size,
    d.attributeGroups.size, d.particles⟩

/-- All that the declarations refer to is among them. -/
structure Closed (d : Declarations) : Prop where
  element : ∀ i, d.extent.HasElement (d.element i)
  attr : ∀ i, d.extent.HasAttribute (d.attr i)
  simpleType : ∀ i, d.extent.HasSimpleType (d.simpleType i)
  complexType : ∀ i, d.extent.HasComplexType (d.complexType i)
  group : ∀ i, d.extent.HasGroup (d.group i)
  attributeGroup : ∀ i, d.extent.HasAttributeGroup (d.attributeGroup i)

theorem closed_empty : Closed {} where
  element _ := ⟨nofun, nofun⟩
  attr _ := ⟨nofun, nofun⟩
  simpleType _ := ⟨nofun⟩
  complexType _ := ⟨nofun, nofun, nofun, nofun, nofun, nofun, nofun⟩
  group _ := nofun
  attributeGroup _ := nofun

/-- The declarations that were there stay as they are. -/
structure Kept (d d' : Declarations) : Prop where
  extent : d.extent ≤ d'.extent
  element : ∀ i < d.elements.size, d'.element i = d.element i
  attr : ∀ i < d.attributes.size, d'.attr i = d.attr i
  typeName : ∀ t, d.extent.HasType t → d'.typeName t = d.typeName t
  group : ∀ i < d.groups.size, d'.group i = d.group i
  attributeGroup : ∀ i < d.attributeGroups.size, d'.attributeGroup i = d.attributeGroup i

theorem Kept.refl (d : Declarations) : Kept d d where
  extent := Extent.le_refl _
  element _ _ := rfl
  attr _ _ := rfl
  typeName _ _ := rfl
  group _ _ := rfl
  attributeGroup _ _ := rfl

theorem Kept.trans {d e f : Declarations} (h : Kept d e) (h' : Kept e f) : Kept d f where
  extent := Extent.le_trans h.extent h'.extent
  element i hi := by
    rw [h'.element i (Nat.lt_of_lt_of_le hi h.extent.elements), h.element i hi]
  attr i hi := by rw [h'.attr i (Nat.lt_of_lt_of_le hi h.extent.attributes), h.attr i hi]
  typeName t ht := by rw [h'.typeName t (ht.mono h.extent), h.typeName t ht]
  group i hi := by
    rw [h'.group i (Nat.lt_of_lt_of_le hi h.extent.groups), h.group i hi]
  attributeGroup i hi := by
    rw [h'.attributeGroup i (Nat.lt_of_lt_of_le hi h.extent.attributeGroups), h.attributeGroup i hi]

/-! ## What stands inside other declarations -/

/-- What content is made of.  Its elements are none of those at the top of a document. -/
def LocalAtom (d : Declarations) (a : Node) : Prop :=
  d.extent.HasAtom a ∧ ∀ e, a = .element e → (d.element e).isGlobal = false

def LocalContent (d : Declarations) (n : Node) : Prop :=
  n.MadeOf d.LocalAtom d.extent.HasIdentity

theorem LocalAtom.kept {d d' : Declarations} {a : Node} (h : d.LocalAtom a) (hk : d.Kept d') :
    d'.LocalAtom a := by
  refine ⟨h.1.mono hk.extent, ?_⟩
  rintro e rfl
  rw [hk.element e h.1]
  exact h.2 e rfl

theorem LocalContent.kept {d d' : Declarations} {n : Node} (h : d.LocalContent n)
    (hk : d.Kept d') : d'.LocalContent n :=
  Node.MadeOf.mono h (fun _ ha => ha.kept hk) fun _ hi => hi.mono hk.extent

theorem LocalContent.hasContent {d : Declarations} {n : Node} (h : d.LocalContent n) :
    d.extent.HasContent n := Node.MadeOf.mono h (fun _ ha => ha.1) fun _ => id

/-- An element as it is read: a type written in it has no name, and a reference is called by the
name that it refers to. -/
structure NestedElement (d : Declarations) (e : Element) : Prop where
  inline : ∀ t ∈ e.inline, d.extent.HasType t ∧ d.typeName t = none
  ref : ∀ q ∈ e.ref, e.name = q.name

theorem NestedElement.kept {d d' : Declarations} {e : Element} (h : d.NestedElement e)
    (hk : d.Kept d') : d'.NestedElement e where
  inline t ht := by
    obtain ⟨htype, hname⟩ := h.inline t ht
    exact ⟨htype.mono hk.extent, (hk.typeName t htype).trans hname⟩
  ref := h.ref

structure Nested (d : Declarations) : Prop where
  element : ∀ i, d.NestedElement (d.element i)
  own : ∀ i, ∀ n ∈ Linking.ownParticle (d.complexType i), d.LocalContent n
  group : ∀ i, ∀ n ∈ (d.group i).particle, d.LocalContent n

theorem nested_empty : Nested {} where
  element _ := ⟨nofun, nofun⟩
  own _ := nofun
  group _ := nofun

/-- Declarations stay as they should be inside others when each of them is as it was or is as it
should be. -/
theorem Nested.extend {d d' : Declarations} (h : d.Nested) (hk : d.Kept d')
    (element : ∀ i, d'.element i = d.element i ∨ d'.NestedElement (d'.element i))
    (complexType : ∀ i, d'.complexType i = d.complexType i ∨
      ∀ n ∈ Linking.ownParticle (d'.complexType i), d'.LocalContent n)
    (group : ∀ i, d'.group i = d.group i ∨ ∀ n ∈ (d'.group i).particle, d'.LocalContent n) :
    d'.Nested where
  element i := (element i).elim (fun e => e ▸ (h.element i).kept hk) id
  own i := (complexType i).elim (fun e n hn => (h.own i n (e ▸ hn)).kept hk) id
  group i := (group i).elim (fun e n hn => (h.group i n (e ▸ hn)).kept hk) id

/-! ## Growth -/

/-- What declarations become while more is read: the old ones are kept, no new element is linked,
and what stands inside others is as it should be. -/
structure Grows (d d' : Declarations) : Prop extends Kept d d' where
  unlinked : ∀ i, d.elements.size ≤ i → (d'.element i).type = none
  nested : d.Nested → d'.Nested

theorem Grows.refl (d : Declarations) : Grows d d where
  toKept := .refl d
  unlinked i hi := by
    have : d.elements[i]? = none := Array.getElem?_eq_none hi
    simp [Declarations.element, this]
  nested := id

theorem Grows.trans {d e f : Declarations} (h : Grows d e) (h' : Grows e f) : Grows d f where
  toKept := h.toKept.trans h'.toKept
  unlinked i hi := by
    rcases Nat.lt_or_ge i e.elements.size with hlt | hge
    · rw [h'.element i hlt]
      exact h.unlinked i hi
    · exact h'.unlinked i hge
  nested hd := h'.nested (h.nested hd)

/-- Declarations stay closed when each of them is as it was or is within the new extent. -/
theorem Closed.extend {d d' : Declarations} (h : d.Closed) (hx : d.extent ≤ d'.extent)
    (element : ∀ i, d'.element i = d.element i ∨ d'.extent.HasElement (d'.element i))
    (attr : ∀ i, d'.attr i = d.attr i ∨ d'.extent.HasAttribute (d'.attr i))
    (simpleType : ∀ i,
      d'.simpleType i = d.simpleType i ∨ d'.extent.HasSimpleType (d'.simpleType i))
    (complexType : ∀ i,
      d'.complexType i = d.complexType i ∨ d'.extent.HasComplexType (d'.complexType i))
    (group : ∀ i, d'.group i = d.group i ∨ d'.extent.HasGroup (d'.group i))
    (attributeGroup : ∀ i,
      d'.attributeGroup i = d.attributeGroup i ∨
        d'.extent.HasAttributeGroup (d'.attributeGroup i)) : d'.Closed where
  element i := (element i).elim (fun e => e ▸ (h.element i).mono hx) id
  attr i := (attr i).elim (fun e => e ▸ (h.attr i).mono hx) id
  simpleType i := (simpleType i).elim (fun e => e ▸ (h.simpleType i).mono hx) id
  complexType i := (complexType i).elim (fun e => e ▸ (h.complexType i).mono hx) id
  group i := (group i).elim (fun e => e ▸ (h.group i).mono hx) id
  attributeGroup i := (attributeGroup i).elim (fun e => e ▸ (h.attributeGroup i).mono hx) id

/-! ## Additions -/

theorem getD_push {α : Type} (a : Array α) (v fill : α) (i : Nat) :
    (a.push v).getD i fill = if i = a.size then v else a.getD i fill := by
  simp only [Array.getD_eq_getD_getElem?, Array.getElem?_push]
  split <;> rfl

section Additions

variable {d : Declarations}

theorem element_addElement (e : Element) (i : ElementId) :
    (d.addElement e).2.element i = if i = d.elements.size then e else d.element i :=
  getD_push ..

theorem attr_addAttribute (a : Attribute) (i : AttributeId) :
    (d.addAttribute a).2.attr i = if i = d.attributes.size then a else d.attr i :=
  getD_push ..

theorem simpleType_addSimpleType (t : SimpleType) (i : SimpleId) :
    (d.addSimpleType t).2.simpleType i =
      if i = d.simpleTypes.size then t else d.simpleType i :=
  getD_push ..

theorem complexType_addComplexType (t : ComplexType) (i : ComplexId) :
    (d.addComplexType t).2.complexType i =
      if i = d.complexTypes.size then t else d.complexType i :=
  getD_push ..

theorem group_addGroup (g : Group) (i : GroupId) :
    (d.addGroup g).2.group i = if i = d.groups.size then g else d.group i :=
  getD_push ..

theorem attributeGroup_addAttributeGroup (g : AttributeGroup) (i : AttributeGroupId) :
    (d.addAttributeGroup g).2.attributeGroup i =
      if i = d.attributeGroups.size then g else d.attributeGroup i :=
  getD_push ..

theorem extent_le_addElement (e : Element) : d.extent ≤ (d.addElement e).2.extent :=
  ⟨by simp [extent, addElement], le_rfl, le_rfl, le_rfl, le_rfl, le_rfl, le_rfl⟩

theorem extent_le_addAttribute (a : Attribute) : d.extent ≤ (d.addAttribute a).2.extent :=
  ⟨le_rfl, by simp [extent, addAttribute], le_rfl, le_rfl, le_rfl, le_rfl, le_rfl⟩

theorem extent_le_addSimpleType (t : SimpleType) : d.extent ≤ (d.addSimpleType t).2.extent :=
  ⟨le_rfl, le_rfl, by simp [extent, addSimpleType], le_rfl, le_rfl, le_rfl, le_rfl⟩

theorem extent_le_addComplexType (t : ComplexType) : d.extent ≤ (d.addComplexType t).2.extent :=
  ⟨le_rfl, le_rfl, le_rfl, by simp [extent, addComplexType], le_rfl, le_rfl, le_rfl⟩

theorem extent_le_addGroup (g : Group) : d.extent ≤ (d.addGroup g).2.extent :=
  ⟨le_rfl, le_rfl, le_rfl, le_rfl, by simp [extent, addGroup], le_rfl, le_rfl⟩

theorem extent_le_addAttributeGroup (g : AttributeGroup) :
    d.extent ≤ (d.addAttributeGroup g).2.extent :=
  ⟨le_rfl, le_rfl, le_rfl, le_rfl, le_rfl, by simp [extent, addAttributeGroup], le_rfl⟩

theorem extent_le_addParticle : d.extent ≤ d.addParticle.2.extent :=
  ⟨le_rfl, le_rfl, le_rfl, le_rfl, le_rfl, le_rfl, by simp [extent, addParticle]⟩

theorem kept_addElement (e : Element) : d.Kept (d.addElement e).2 where
  extent := extent_le_addElement e
  element i hi := by rw [element_addElement, if_neg (Nat.ne_of_lt hi)]
  attr _ _ := rfl
  typeName _ _ := rfl
  group _ _ := rfl
  attributeGroup _ _ := rfl

theorem kept_addAttribute (a : Attribute) : d.Kept (d.addAttribute a).2 where
  extent := extent_le_addAttribute a
  element _ _ := rfl
  attr i hi := by rw [attr_addAttribute, if_neg (Nat.ne_of_lt hi)]
  typeName _ _ := rfl
  group _ _ := rfl
  attributeGroup _ _ := rfl

theorem kept_addSimpleType (t : SimpleType) : d.Kept (d.addSimpleType t).2 where
  extent := extent_le_addSimpleType t
  element _ _ := rfl
  attr _ _ := rfl
  typeName r hr := by
    match r, hr with
    | .complex _, _ => rfl
    | .simple (.builtin _), _ => rfl
    | .simple (.declared i), hi =>
      refine congrArg SimpleType.name ((simpleType_addSimpleType t i).trans ?_)
      exact if_neg (Nat.ne_of_lt hi)
  group _ _ := rfl
  attributeGroup _ _ := rfl

theorem kept_addComplexType (t : ComplexType) : d.Kept (d.addComplexType t).2 where
  extent := extent_le_addComplexType t
  element _ _ := rfl
  attr _ _ := rfl
  typeName r hr := by
    match r, hr with
    | .simple _, _ => rfl
    | .complex .anyType, _ => rfl
    | .complex (.declared i), hi =>
      refine congrArg ComplexType.name ((complexType_addComplexType t i).trans ?_)
      exact if_neg (Nat.ne_of_lt hi)
  group _ _ := rfl
  attributeGroup _ _ := rfl

theorem kept_addGroup (g : Group) : d.Kept (d.addGroup g).2 where
  extent := extent_le_addGroup g
  element _ _ := rfl
  attr _ _ := rfl
  typeName _ _ := rfl
  group i hi := by rw [group_addGroup, if_neg (Nat.ne_of_lt hi)]
  attributeGroup _ _ := rfl

theorem kept_addAttributeGroup (g : AttributeGroup) : d.Kept (d.addAttributeGroup g).2 where
  extent := extent_le_addAttributeGroup g
  element _ _ := rfl
  attr _ _ := rfl
  typeName _ _ := rfl
  group _ _ := rfl
  attributeGroup i hi := by rw [attributeGroup_addAttributeGroup, if_neg (Nat.ne_of_lt hi)]

theorem kept_addParticle : d.Kept d.addParticle.2 where
  extent := extent_le_addParticle
  element _ _ := rfl
  attr _ _ := rfl
  typeName _ _ := rfl
  group _ _ := rfl
  attributeGroup _ _ := rfl

/-- Where no element is added, none needs to be linked. -/
theorem grows_of_kept {d' : Declarations} (hk : d.Kept d') (he : d'.elements = d.elements)
    (hn : d.Nested → d'.Nested) : Grows d d' where
  toKept := hk
  unlinked i hi := by
    rw [Declarations.element, he]
    exact (Grows.refl d).unlinked i hi
  nested := hn

theorem grows_addElement {e : Element} (he : e.type = none) (hn : d.NestedElement e) :
    Grows d (d.addElement e).2 where
  toKept := kept_addElement e
  unlinked i hi := by
    rw [element_addElement]
    split
    · exact he
    · exact (Grows.refl d).unlinked i hi
  nested h := by
    refine h.extend (kept_addElement e) (fun i => ?_) (fun _ => .inl rfl) fun _ => .inl rfl
    rw [element_addElement]
    split
    · exact .inr (hn.kept (kept_addElement e))
    · exact .inl rfl

theorem grows_addAttribute (a : Attribute) : Grows d (d.addAttribute a).2 :=
  grows_of_kept (kept_addAttribute a) rfl fun h =>
    h.extend (kept_addAttribute a) (fun _ => .inl rfl) (fun _ => .inl rfl) fun _ => .inl rfl

theorem grows_addSimpleType (t : SimpleType) : Grows d (d.addSimpleType t).2 :=
  grows_of_kept (kept_addSimpleType t) rfl fun h =>
    h.extend (kept_addSimpleType t) (fun _ => .inl rfl) (fun _ => .inl rfl) fun _ => .inl rfl

theorem grows_addComplexType {t : ComplexType}
    (ht : ∀ n ∈ Linking.ownParticle t, d.LocalContent n) : Grows d (d.addComplexType t).2 := by
  refine grows_of_kept (kept_addComplexType t) rfl fun h =>
    h.extend (kept_addComplexType t) (fun _ => .inl rfl) (fun i => ?_) fun _ => .inl rfl
  rw [complexType_addComplexType]
  split
  · exact .inr fun n hn => (ht n hn).kept (kept_addComplexType t)
  · exact .inl rfl

theorem grows_addGroup {g : Group} (hg : ∀ n ∈ g.particle, d.LocalContent n) :
    Grows d (d.addGroup g).2 := by
  refine grows_of_kept (kept_addGroup g) rfl fun h =>
    h.extend (kept_addGroup g) (fun _ => .inl rfl) (fun _ => .inl rfl) fun i => ?_
  rw [group_addGroup]
  split
  · exact .inr fun n hn => (hg n hn).kept (kept_addGroup g)
  · exact .inl rfl

theorem grows_addAttributeGroup (g : AttributeGroup) : Grows d (d.addAttributeGroup g).2 :=
  grows_of_kept (kept_addAttributeGroup g) rfl fun h =>
    h.extend (kept_addAttributeGroup g) (fun _ => .inl rfl) (fun _ => .inl rfl) fun _ => .inl rfl

theorem grows_addParticle : Grows d d.addParticle.2 :=
  grows_of_kept kept_addParticle rfl fun h =>
    h.extend kept_addParticle (fun _ => .inl rfl) (fun _ => .inl rfl) fun _ => .inl rfl

theorem Closed.addElement {e : Element} (h : d.Closed) (he : d.extent.HasElement e) :
    (d.addElement e).2.Closed := by
  refine h.extend (extent_le_addElement e) (fun i => ?_) (fun _ => .inl rfl) (fun _ => .inl rfl)
    (fun _ => .inl rfl) (fun _ => .inl rfl) fun _ => .inl rfl
  rw [element_addElement]
  split
  · exact .inr (he.mono (extent_le_addElement e))
  · exact .inl rfl

theorem Closed.addAttribute {a : Attribute} (h : d.Closed) (ha : d.extent.HasAttribute a) :
    (d.addAttribute a).2.Closed := by
  refine h.extend (extent_le_addAttribute a) (fun _ => .inl rfl) (fun i => ?_) (fun _ => .inl rfl)
    (fun _ => .inl rfl) (fun _ => .inl rfl) fun _ => .inl rfl
  rw [attr_addAttribute]
  split
  · exact .inr (ha.mono (extent_le_addAttribute a))
  · exact .inl rfl

theorem Closed.addSimpleType {t : SimpleType} (h : d.Closed) (ht : d.extent.HasSimpleType t) :
    (d.addSimpleType t).2.Closed := by
  refine h.extend (extent_le_addSimpleType t) (fun _ => .inl rfl) (fun _ => .inl rfl)
    (fun i => ?_) (fun _ => .inl rfl) (fun _ => .inl rfl) fun _ => .inl rfl
  rw [simpleType_addSimpleType]
  split
  · exact .inr (ht.mono (extent_le_addSimpleType t))
  · exact .inl rfl

theorem Closed.addComplexType {t : ComplexType} (h : d.Closed) (ht : d.extent.HasComplexType t) :
    (d.addComplexType t).2.Closed := by
  refine h.extend (extent_le_addComplexType t) (fun _ => .inl rfl) (fun _ => .inl rfl)
    (fun _ => .inl rfl) (fun i => ?_) (fun _ => .inl rfl) fun _ => .inl rfl
  rw [complexType_addComplexType]
  split
  · exact .inr (ht.mono (extent_le_addComplexType t))
  · exact .inl rfl

theorem Closed.addGroup {g : Group} (h : d.Closed) (hg : d.extent.HasGroup g) :
    (d.addGroup g).2.Closed := by
  refine h.extend (extent_le_addGroup g) (fun _ => .inl rfl) (fun _ => .inl rfl)
    (fun _ => .inl rfl) (fun _ => .inl rfl) (fun i => ?_) fun _ => .inl rfl
  rw [group_addGroup]
  split
  · exact .inr (hg.mono (extent_le_addGroup g))
  · exact .inl rfl

theorem Closed.addAttributeGroup {g : AttributeGroup} (h : d.Closed)
    (hg : d.extent.HasAttributeGroup g) : (d.addAttributeGroup g).2.Closed := by
  refine h.extend (extent_le_addAttributeGroup g) (fun _ => .inl rfl) (fun _ => .inl rfl)
    (fun _ => .inl rfl) (fun _ => .inl rfl) (fun _ => .inl rfl) fun i => ?_
  rw [attributeGroup_addAttributeGroup]
  split
  · exact .inr (hg.mono (extent_le_addAttributeGroup g))
  · exact .inl rfl

theorem Closed.addParticle (h : d.Closed) : d.addParticle.2.Closed :=
  h.extend extent_le_addParticle (fun _ => .inl rfl) (fun _ => .inl rfl) (fun _ => .inl rfl)
    (fun _ => .inl rfl) (fun _ => .inl rfl) fun _ => .inl rfl

end Additions

end Declarations
end Schema
end SchemaPaths
