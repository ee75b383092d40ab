/-
Declarations that stand in other places.

Everything refers to declarations by their places, so when these are moved, whatever refers to them
has to be renamed.  A renaming says of each family of declarations where its members go.  Renaming is
functorial; over what is within an extent it depends only on where the places of the extent go.
-/
import SchemaPaths.Proofs.Schema.Closed
import SchemaPaths.Schema.SchemaSet

namespace SchemaPaths
namespace Schema

/-- The families of declarations, each with places of its own. -/
inductive Family where
  | element
  | attr
  | simple
  | complex
  | group
  | attributeGroup
  | particle
deriving DecidableEq, Repr

/-- Where the declarations of each family go. -/
abbrev Renaming := Family → Nat → Nat

def Extent.count (x : Extent) : Family → Nat
  | .element => x.elements
  | .attr => x.attributes
  | .simple => x.simpleTypes
  | .complex => x.complexTypes
  | .group => x.groups
  | .attributeGroup => x.attributeGroups
  | .particle => x.particles

namespace Renaming

/-- All stay where they are. -/
def same : Renaming := fun _ i => i

/-- First one renaming, then another. -/
def after (σ ρ : Renaming) : Renaming := fun k i => σ k (ρ k i)

/-- Both do the same with the places of an extent. -/
def Agree (x : Extent) (ρ σ : Renaming) : Prop := ∀ k, ∀ i < x.count k, ρ k i = σ k i

end Renaming

open Renaming

/-! ## What is renamed -/

def SimpleRef.rename (ρ : Renaming) : SimpleRef → SimpleRef
  | .builtin b => .builtin b
  | .declared i => .declared (ρ .simple i)

def ComplexRef.rename (ρ : Renaming) : ComplexRef → ComplexRef
  | .anyType => .anyType
  | .declared i => .declared (ρ .complex i)

def TypeRef.rename (ρ : Renaming) : TypeRef → TypeRef
  | .simple r => .simple (r.rename ρ)
  | .complex r => .complex (r.rename ρ)

def Identity.rename (ρ : Renaming) : Identity → Identity
  | .declared i => .declared (ρ .particle i)
  | .copy original => .copy (original.rename ρ)
  | .joined t => .joined (ρ .complex t)

mutual

def Node.rename (ρ : Renaming) : Node → Node
  | .element e => .element (ρ .element e)
  | .attr a => .attr (ρ .attr a)
  | .type t => .type (t.rename ρ)
  | .sequence i c o items => .sequence (i.rename ρ) c o (Node.renameAll ρ items)
  | .choice i o items => .choice (i.rename ρ) o (Node.renameAll ρ items)
  | .any i w => .any (i.rename ρ) w
  | .content simple p => .content simple (Node.renameOption ρ p)
  | .derivation d p => .derivation d (Node.renameOption ρ p)
  | .group g => .group (ρ .group g)
  | .groupRef q o => .groupRef q o
  | .unknown kind family => .unknown kind family

def Node.renameAll (ρ : Renaming) : List Node → List Node
  | [] => []
  | n :: ns => n.rename ρ :: Node.renameAll ρ ns

def Node.renameOption (ρ : Renaming) : Option Node → Option Node
  | none => none
  | some n => some (n.rename ρ)

end

theorem Node.renameAll_eq_map (ρ : Renaming) (ns : List Node) :
    Node.renameAll ρ ns = ns.map (·.rename ρ) := by
  induction ns with
  | nil => rfl
  | cons n ns ih => rw [Node.renameAll, ih, List.map_cons]

def Element.rename (ρ : Renaming) (e : Element) : Element :=
  { e with inline := e.inline.map (·.rename ρ), type := e.type.map (·.rename ρ) }

def Attribute.rename (ρ : Renaming) (a : Attribute) : Attribute :=
  { a with inline := a.inline.map (ρ .simple), type := a.type.map (·.rename ρ) }

def SimpleType.rename (ρ : Renaming) (t : SimpleType) : SimpleType :=
  { t with base := t.base.map (·.rename ρ) }

def Derived.rename (ρ : Renaming) (m : Derived) : Derived :=
  { m with particle := m.particle.map (·.rename ρ), attributes := m.attributes.map (ρ .attr) }

def ComplexType.rename (ρ : Renaming) (t : ComplexType) : ComplexType :=
  { t with
    model := t.model.map (·.rename ρ)
    particle := t.particle.map (·.rename ρ)
    attributes := t.attributes.map (ρ .attr)
    base := t.base.map (·.rename ρ)
    content := t.content.map (·.rename ρ)
    uses := t.uses.map (ρ .attr) }

def Group.rename (ρ : Renaming) (g : Group) : Group :=
  { g with particle := g.particle.map (·.rename ρ) }

def AttributeGroup.rename (ρ : Renaming) (g : AttributeGroup) : AttributeGroup :=
  { g with attributes := g.attributes.map (ρ .attr) }

def Document.rename (ρ : Renaming) (doc : Document) : Document :=
  { doc with
    elements := doc.elements.map (ρ .element)
    types := doc.types.map (·.rename ρ)
    groups := doc.groups.map (ρ .group)
    attributes := doc.attributes.map (ρ .attr)
    attributeGroups := doc.attributeGroups.map (ρ .attributeGroup) }

/-! ## All stay where they are -/

@[simp] theorem SimpleRef.rename_same (r : SimpleRef) : r.rename same = r := by cases r <;> rfl

@[simp] theorem ComplexRef.rename_same (r : ComplexRef) : r.rename same = r := by cases r <;> rfl

@[simp] theorem TypeRef.rename_same (r : TypeRef) : r.rename same = r := by
  cases r <;> simp [TypeRef.rename]

@[simp] theorem Identity.rename_same (i : Identity) : i.rename same = i := by
  induction i with
  | copy original ih => rw [Identity.rename, ih]
  | _ => rfl

mutual

@[simp] theorem Node.rename_same : ∀ n : Node, n.rename same = n
  | .element _ | .attr _ | .group _ | .groupRef .. | .unknown .. => rfl
  | .any i w => by rw [Node.rename, Identity.rename_same]
  | .type t => by rw [Node.rename, TypeRef.rename_same]
  | .sequence i c o items => by
    rw [Node.rename, Identity.rename_same, Node.renameAll_same items]
  | .choice i o items => by rw [Node.rename, Identity.rename_same, Node.renameAll_same items]
  | .content simple p => by rw [Node.rename, Node.renameOption_same p]
  | .derivation d p => by rw [Node.rename, Node.renameOption_same p]

theorem Node.renameAll_same : ∀ ns : List Node, Node.renameAll same ns = ns
  | [] => rfl
  | n :: ns => by rw [Node.renameAll, Node.rename_same n, Node.renameAll_same ns]

theorem Node.renameOption_same : ∀ n : Option Node, Node.renameOption same n = n
  | none => rfl
  | some n => by rw [Node.renameOption, Node.rename_same n]

end

@[simp] theorem Element.rename_same (e : Element) : e.rename same = e := by
  simp [Element.rename]

@[simp] theorem Attribute.rename_same (a : Attribute) : a.rename same = a := by
  simp [Attribute.rename, show same .simple = id from rfl]

@[simp] theorem SimpleType.rename_same (t : SimpleType) : t.rename same = t := by
  simp [SimpleType.rename]

@[simp] theorem Derived.rename_same (m : Derived) : m.rename same = m := by
  simp [Derived.rename, show same .attr = id from rfl]

@[simp] theorem ComplexType.rename_same (t : ComplexType) : t.rename same = t := by
  simp [ComplexType.rename, show same .attr = id from rfl]

@[simp] theorem Group.rename_same (g : Group) : g.rename same = g := by simp [Group.rename]

@[simp] theorem AttributeGroup.rename_same (g : AttributeGroup) : g.rename same = g := by
  simp [AttributeGroup.rename, show same .attr = id from rfl]

@[simp] theorem Document.rename_same (doc : Document) : doc.rename same = doc := by
  have hsame (k : Family) : same k = id := rfl
  simp [Document.rename, hsame]

/-! ## One renaming after another -/

section After

variable (σ ρ : Renaming)

@[simp] theorem SimpleRef.rename_rename (r : SimpleRef) :
    (r.rename ρ).rename σ = r.rename (σ.after ρ) := by cases r <;> rfl

@[simp] theorem ComplexRef.rename_rename (r : ComplexRef) :
    (r.rename ρ).rename σ = r.rename (σ.after ρ) := by cases r <;> rfl

@[simp] theorem TypeRef.rename_rename (r : TypeRef) :
    (r.rename ρ).rename σ = r.rename (σ.after ρ) := by
  cases r <;> simp [TypeRef.rename]

@[simp] theorem Identity.rename_rename (i : Identity) :
    (i.rename ρ).rename σ = i.rename (σ.after ρ) := by
  induction i with
  | copy original ih => simp only [Identity.rename, ih]
  | _ => rfl

mutual

@[simp] theorem Node.rename_rename : ∀ n : Node, (n.rename ρ).rename σ = n.rename (σ.after ρ)
  | .element _ | .attr _ | .group _ | .groupRef .. | .unknown .. => rfl
  | .any i w => by simp only [Node.rename, Identity.rename_rename]
  | .type t => by simp only [Node.rename, TypeRef.rename_rename]
  | .sequence i c o items => by
    simp only [Node.rename, Identity.rename_rename, Node.renameAll_renameAll items]
  | .choice i o items => by
    simp only [Node.rename, Identity.rename_rename, Node.renameAll_renameAll items]
  | .content simple p => by simp only [Node.rename, Node.renameOption_renameOption p]
  | .derivation d p => by simp only [Node.rename, Node.renameOption_renameOption p]

theorem Node.renameAll_renameAll : ∀ ns : List Node,
    Node.renameAll σ (Node.renameAll ρ ns) = Node.renameAll (σ.after ρ) ns
  | [] => rfl
  | n :: ns => by
    simp only [Node.renameAll, Node.rename_rename n, Node.renameAll_renameAll ns]

theorem Node.renameOption_renameOption : ∀ n : Option Node,
    Node.renameOption σ (Node.renameOption ρ n) = Node.renameOption (σ.after ρ) n
  | none => rfl
  | some n => by simp only [Node.renameOption, Node.rename_rename n]

end

@[simp] theorem Element.rename_rename (e : Element) :
    (e.rename ρ).rename σ = e.rename (σ.after ρ) := by
  simp [Element.rename, Function.comp_def]

@[simp] theorem Attribute.rename_rename (a : Attribute) :
    (a.rename ρ).rename σ = a.rename (σ.after ρ) := by
  simp only [Attribute.rename, Option.map_map, Function.comp_def, TypeRef.rename_rename]
  rfl

@[simp] theorem SimpleType.rename_rename (t : SimpleType) :
    (t.rename ρ).rename σ = t.rename (σ.after ρ) := by
  simp [SimpleType.rename, Function.comp_def]

@[simp] theorem Derived.rename_rename (m : Derived) :
    (m.rename ρ).rename σ = m.rename (σ.after ρ) := by
  simp [Derived.rename, Function.comp_def, after]

@[simp] theorem ComplexType.rename_rename (t : ComplexType) :
    (t.rename ρ).rename σ = t.rename (σ.after ρ) := by
  simp [ComplexType.rename, Function.comp_def, after]

@[simp] theorem Group.rename_rename (g : Group) :
    (g.rename ρ).rename σ = g.rename (σ.after ρ) := by
  simp [Group.rename, Function.comp_def]

@[simp] theorem AttributeGroup.rename_rename (g : AttributeGroup) :
    (g.rename ρ).rename σ = g.rename (σ.after ρ) := by
  simp [AttributeGroup.rename, Function.comp_def, after]

@[simp] theorem Document.rename_rename (doc : Document) :
    (doc.rename ρ).rename σ = doc.rename (σ.after ρ) := by
  simp [Document.rename, Function.comp_def, after]

end After

/-! ## What is within an extent -/

section Within

variable {x : Extent} {ρ σ : Renaming}

theorem SimpleRef.rename_congr {r : SimpleRef} (h : Agree x ρ σ) (hr : x.HasSimple r) :
    r.rename ρ = r.rename σ := by
  cases r with
  | builtin b => rfl
  | declared i => rw [SimpleRef.rename, SimpleRef.rename, h .simple i hr]

theorem TypeRef.rename_congr {r : TypeRef} (h : Agree x ρ σ) (hr : x.HasType r) :
    r.rename ρ = r.rename σ := by
  match r, hr with
  | .simple r, hr => rw [TypeRef.rename, TypeRef.rename, SimpleRef.rename_congr h hr]
  | .complex .anyType, _ => rfl
  | .complex (.declared i), hi =>
    rw [TypeRef.rename, TypeRef.rename, ComplexRef.rename, ComplexRef.rename, h .complex i hi]

theorem Identity.rename_congr {i : Identity} (h : Agree x ρ σ) (hi : x.HasIdentity i) :
    i.rename ρ = i.rename σ := by
  induction i with
  | declared i => rw [Identity.rename, Identity.rename, h .particle i hi]
  | copy original ih => rw [Identity.rename, Identity.rename, ih hi]
  | joined t => rw [Identity.rename, Identity.rename, h .complex t hi]

theorem Node.rename_congr_atom {a : Node} (h : Agree x ρ σ) (ha : x.HasAtom a) :
    a.rename ρ = a.rename σ := by
  match a, ha with
  | .element e, he => rw [Node.rename, Node.rename, h .element e he]
  | .any (.declared i) w, hi =>
    rw [Node.rename, Node.rename, Identity.rename, Identity.rename, h .particle i hi]
  | .groupRef .., _ => rfl

mutual

theorem Node.rename_congr (h : Agree x ρ σ) : ∀ n : Node, x.HasContent n → n.rename ρ = n.rename σ
  | .element _, hn => Node.rename_congr_atom h (hn.atoms _ (List.mem_singleton_self _))
  | .attr _, hn => Node.rename_congr_atom h (hn.atoms _ (List.mem_singleton_self _))
  | .type _, hn => Node.rename_congr_atom h (hn.atoms _ (List.mem_singleton_self _))
  | .any .., hn => Node.rename_congr_atom h (hn.atoms _ (List.mem_singleton_self _))
  | .content .., hn => Node.rename_congr_atom h (hn.atoms _ (List.mem_singleton_self _))
  | .derivation .., hn => Node.rename_congr_atom h (hn.atoms _ (List.mem_singleton_self _))
  | .group _, hn => Node.rename_congr_atom h (hn.atoms _ (List.mem_singleton_self _))
  | .groupRef .., hn => Node.rename_congr_atom h (hn.atoms _ (List.mem_singleton_self _))
  | .unknown .., hn => Node.rename_congr_atom h (hn.atoms _ (List.mem_singleton_self _))
  | .sequence i c o items, hn => by
    obtain ⟨hi, hitems⟩ := Node.MadeOf.items (Node.composes_sequence c) hn
    rw [Node.rename, Node.rename, Identity.rename_congr h hi, Node.renameAll_congr h items hitems]
  | .choice i o items, hn => by
    obtain ⟨hi, hitems⟩ := Node.MadeOf.items Node.composes_choice hn
    rw [Node.rename, Node.rename, Identity.rename_congr h hi, Node.renameAll_congr h items hitems]

theorem Node.renameAll_congr (h : Agree x ρ σ) : ∀ ns : List Node,
    (∀ n ∈ ns, x.HasContent n) → Node.renameAll ρ ns = Node.renameAll σ ns
  | [], _ => rfl
  | n :: ns, hns => by
    obtain ⟨hn, hrest⟩ := List.forall_mem_cons.1 hns
    rw [Node.renameAll, Node.renameAll, Node.rename_congr h n hn, Node.renameAll_congr h ns hrest]

end

theorem Option.map_congr_of_mem {α β : Type} {f g : α → β} {o : Option α}
    (h : ∀ a ∈ o, f a = g a) : o.map f = o.map g := by
  cases o with
  | none => rfl
  | some a => rw [Option.map_some, Option.map_some, h a rfl]

theorem Element.rename_congr {e : Element} (h : Agree x ρ σ) (he : x.HasElement e) :
    e.rename ρ = e.rename σ := by
  rw [Element.rename, Element.rename,
    Option.map_congr_of_mem fun r hr => TypeRef.rename_congr h (he.inline r hr),
    Option.map_congr_of_mem fun r hr => TypeRef.rename_congr h (he.type r hr)]

theorem Attribute.rename_congr {a : Attribute} (h : Agree x ρ σ) (ha : x.HasAttribute a) :
    a.rename ρ = a.rename σ := by
  rw [Attribute.rename, Attribute.rename,
    Option.map_congr_of_mem fun i hi => h .simple i (ha.inline i hi),
    Option.map_congr_of_mem fun r hr => TypeRef.rename_congr h (ha.type r hr)]

theorem SimpleType.rename_congr {t : SimpleType} (h : Agree x ρ σ) (ht : x.HasSimpleType t) :
    t.rename ρ = t.rename σ := by
  rw [SimpleType.rename, SimpleType.rename,
    Option.map_congr_of_mem fun r hr => SimpleRef.rename_congr h (ht.base r hr)]

theorem map_attr_congr {as : List AttributeId} (h : Agree x ρ σ) (ha : ∀ a ∈ as, a < x.attributes) :
    as.map (ρ .attr) = as.map (σ .attr) := List.map_congr_left fun a hmem => h .attr a (ha a hmem)

theorem Derived.rename_congr {m : Derived} (h : Agree x ρ σ)
    (hp : ∀ n ∈ m.particle, x.HasContent n) (ha : ∀ a ∈ m.attributes, a < x.attributes) :
    m.rename ρ = m.rename σ := by
  rw [Derived.rename, Derived.rename, map_attr_congr h ha,
    Option.map_congr_of_mem fun n hn => Node.rename_congr h n (hp n hn)]

theorem ComplexType.rename_congr {t : ComplexType} (h : Agree x ρ σ) (ht : x.HasComplexType t) :
    t.rename ρ = t.rename σ := by
  have hmodel : t.model.map (·.rename ρ) = t.model.map (·.rename σ) := by
    refine Option.map_congr_of_mem fun m hm => ?_
    have hown := ht.own
    have hattributes := ht.attributes
    rw [Linking.ownParticle, Option.mem_def.1 hm] at hown
    rw [Linking.ownAttributes, Option.mem_def.1 hm] at hattributes
    exact Derived.rename_congr h (fun n hn => (hown n hn).2) hattributes
  have hparticle : t.particle.map (·.rename ρ) = t.particle.map (·.rename σ) :=
    Option.map_congr_of_mem fun n hn =>
      Node.rename_congr h n (ht.own n (ht.own_of_particle hn).2).2
  rw [ComplexType.rename, ComplexType.rename, hmodel, hparticle, map_attr_congr h ht.listed,
    map_attr_congr h ht.uses,
    Option.map_congr_of_mem fun r hr => TypeRef.rename_congr h (ht.base r hr),
    Option.map_congr_of_mem fun n hn => Node.rename_congr h n (ht.content n hn)]

theorem Group.rename_congr {g : Group} (h : Agree x ρ σ) (hg : x.HasGroup g) :
    g.rename ρ = g.rename σ := by
  rw [Group.rename, Group.rename,
    Option.map_congr_of_mem fun n hn => Node.rename_congr h n (hg n hn).2]

theorem AttributeGroup.rename_congr {g : AttributeGroup} (h : Agree x ρ σ)
    (hg : x.HasAttributeGroup g) : g.rename ρ = g.rename σ := by
  rw [AttributeGroup.rename, AttributeGroup.rename, map_attr_congr h hg]

end Within

/-! ## What particles are made of -/

section Atoms

variable (ρ : Renaming)

@[simp] theorem Node.groupName?_rename (n : Node) : (n.rename ρ).groupName? = n.groupName? := by
  cases n <;> rfl

@[simp] theorem Node.kind?_rename (n : Node) : (n.rename ρ).kind? = n.kind? := by
  cases n with
  | type t => cases t <;> rfl
  | content simple p => cases simple <;> rfl
  | _ => rfl

theorem Node.items_rename (n : Node) : (n.rename ρ).items = n.items.map (·.rename ρ) := by
  cases n <;> first | rfl | exact Node.renameAll_eq_map ρ _

theorem Node.isAtom_rename {n : Node} (h : n.IsAtom) : (n.rename ρ).IsAtom := by
  cases n <;> trivial

mutual

theorem Node.atoms_rename : ∀ n : Node, (n.rename ρ).atoms = n.atoms.map (·.rename ρ)
  | .element _ | .attr _ | .type _ | .any .. | .content .. | .derivation .. | .group _
  | .groupRef .. | .unknown .. => rfl
  | .sequence _ _ _ items => Node.atomsOf_renameAll items
  | .choice _ _ items => Node.atomsOf_renameAll items

theorem Node.atomsOf_renameAll : ∀ ns : List Node,
    Node.atomsOf (Node.renameAll ρ ns) = (Node.atomsOf ns).map (·.rename ρ)
  | [] => rfl
  | n :: ns => by
    rw [Node.renameAll, Node.atomsOf, Node.atomsOf, List.map_append, Node.atoms_rename n,
      Node.atomsOf_renameAll ns]

end

/-- Groups are referred to by their names, which stay. -/
@[simp] theorem Node.groupNames_rename (n : Node) : (n.rename ρ).groupNames = n.groupNames := by
  rw [Node.groupNames, Node.groupNames, Node.atoms_rename, List.filterMap_map]
  exact congrArg (List.filterMap · _) (funext (Node.groupName?_rename ρ))

/-- So renaming makes no difference to what is the same when groups are written out. -/
theorem Identity.writtenOut_rename (i : Identity) (items : List Node) :
    (i.rename ρ).writtenOut (Node.renameAll ρ items) = (i.writtenOut items).rename ρ := by
  have hplain : (Node.atomsOf (Node.renameAll ρ items)).all (·.groupName?.isNone) =
      (Node.atomsOf items).all (·.groupName?.isNone) := by
    rw [Node.atomsOf_renameAll, List.all_map]
    exact congrArg (List.all _) (funext fun n => by simp)
  rw [Identity.writtenOut, Identity.writtenOut, hplain, apply_ite (Identity.rename ρ)]
  rfl

end Atoms

end Schema
end SchemaPaths
