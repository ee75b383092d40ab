/-
The references of declarations, and which of them linking looks up.

Linking comes to a reference on its way through what uses it.  So it passes over what an attribute
group refers to that no complex type uses, over what a group refers to that another of its name has
displaced, and over the head that an element names which is a reference itself.  After linking, all
other references mean something that is declared.
-/
import SchemaPaths.Proofs.Linking.AttributeGroups
import SchemaPaths.Proofs.Walk.Walkable

namespace SchemaPaths
namespace Schema

open Relation

/-- One name of an attribute group leads to the other: what it means refers to that. -/
def InnerGroup (s : SchemaSet) (q r : QName) : Prop :=
  ∃ g, s.attributeGroup? q = some g ∧ r ∈ (s.declared.attributeGroup g).attributeGroups

/-- A name of an attribute group that some complex type leads to. -/
def UsedByType (s : SchemaSet) (q : QName) : Prop :=
  ∃ i, ∃ r ∈ (Linking.ownAttributes (s.declared.complexType i)).2, ReflTransGen (InnerGroup s) r q

/-! ## Attribute groups that types use -/

section AttributeGroups

variable {s : SchemaSet} {d : Declarations}

theorem isSome_of_attributesOfGroup (hs : s.Closed) {q r : QName} {as : List AttributeId}
    (h : Linking.attributesOfGroup s q = .ok as) (hway : ReflTransGen (InnerGroup s) q r) :
    (s.attributeGroup? r).isSome := by
  obtain ⟨way, hwalk, hfound, -⟩ := walk_of_attributesOfGroup hs h
  have hplace : s.attributeGroup? r ∈ way.map s.attributeGroup? := by
    induction hway with
    | refl => exact hwalk.covers q (List.mem_singleton_self q)
    | @tail b c _ hstep ih =>
      obtain ⟨b', hb', hsame⟩ := List.mem_map.1 ih
      obtain ⟨g, hg, hc⟩ := hstep
      have hinner : innerNames s b' = (s.declared.attributeGroup g).attributeGroups := by
        rw [innerNames, hsame, hg]
      exact hwalk.closed b' hb' c (hinner ▸ hc)
  obtain ⟨q', hq', hsame⟩ := List.mem_map.1 hplace
  exact hsame ▸ hfound q' hq'

theorem attributesOfGroup_of_declaredUses {t : ComplexType} {added : List AttributeId}
    (h : Linking.declaredUses s t = .ok added) {q : QName} (hq : q ∈ (Linking.ownAttributes t).2) :
    ∃ as, Linking.attributesOfGroup s q = .ok as := by
  obtain ⟨lists, hlists, -⟩ := exists_of_bind h
  exact exists_of_mapM hlists hq

theorem Linked.isSome_attributeGroup? (h : Linked s d) (hs : s.Closed) {q : QName} (hq : UsedByType s q) :
    (s.attributeGroup? q).isSome := by
  obtain ⟨i, r, hr, hway⟩ := hq
  by_cases hi : i < s.declared.complexTypes.size
  · obtain ⟨b, own, added, hf⟩ := h.complex i hi
    obtain ⟨as, has⟩ := attributesOfGroup_of_declaredUses hf.declared hr
    exact isSome_of_attributesOfGroup hs has hway
  · rw [complexType_of_le (Nat.not_lt.1 hi)] at hr
    cases hr

end AttributeGroups

theorem SchemaSet.IsLinked.isSome_attributeGroup? {s : SchemaSet} (h : s.IsLinked) {q : QName}
    (hq : UsedByType s q) : (s.attributeGroup? q).isSome := by
  obtain ⟨s₀, hs₀, hl, heq⟩ := h
  have hgroup : ∀ g, s.declared.attributeGroup g = s₀.declared.attributeGroup g := fun g => by
    rw [Declarations.attributeGroup, hl.frame.attributeGroups, Declarations.attributeGroup]
  have htables : s.attributeGroup? = s₀.attributeGroup? := by
    rw [heq]
    rfl
  have hinner : InnerGroup s = InnerGroup s₀ := by
    funext q r
    simp only [InnerGroup, htables, hgroup]
  rw [htables]
  obtain ⟨i, r, hr, hway⟩ := hq
  have hown : Linking.ownAttributes (s.declared.complexType i) =
      Linking.ownAttributes (s₀.declared.complexType i) :=
    (congrArg Linking.ownAttributes (hl.frame.complexType i) :)
  exact hl.isSome_attributeGroup? hs₀ ⟨i, r, hown ▸ hr, hinner ▸ hway⟩

/-! ## All references -/

/-- The names by which declarations refer to elements, groups, attributes and attribute groups,
whether or not anything uses the declarations. -/
inductive Mentions (s : SchemaSet) : Symbol → QName → Prop
  | element {i : ElementId} {q : QName} (ref : (s.declared.element i).ref = some q) :
      Mentions s .element q
  | head {i : ElementId} {q : QName} (named : (s.declared.element i).substitution = some q) :
      Mentions s .element q
  | content {i : ComplexId} {n : Node} {q : QName}
      (particle : Linking.ownParticle (s.declared.complexType i) = some n)
      (named : q ∈ n.groupNames) : Mentions s .group q
  | group {g : GroupId} {n : Node} {q : QName}
      (particle : (s.declared.group g).particle = some n) (named : q ∈ n.groupNames) :
      Mentions s .group q
  | attr {i : AttributeId} {q : QName} (ref : (s.declared.attr i).ref = some q) :
      Mentions s .attr q
  | attributeGroup {i : ComplexId} {q : QName}
      (named : q ∈ (Linking.ownAttributes (s.declared.complexType i)).2) : Mentions s .attrGroup q
  | innerAttributeGroup {g : AttributeGroupId} {q : QName}
      (named : q ∈ (s.declared.attributeGroup g).attributeGroups) : Mentions s .attrGroup q

/-- The references that linking passes over. -/
inductive PassedOver (s : SchemaSet) : Symbol → QName → Prop
  | head {i : ElementId} {q r : QName} (ref : (s.declared.element i).ref = some r)
      (named : (s.declared.element i).substitution = some q) : PassedOver s .element q
  | group {g : GroupId} {n : Node} {q : QName} (displaced : ∀ k, (k, g) ∉ s.groups)
      (particle : (s.declared.group g).particle = some n) (named : q ∈ n.groupNames) :
      PassedOver s .group q
  | attributeGroup {g : AttributeGroupId} {q : QName}
      (unused : ∀ k, s.attributeGroup? k = some g → ¬ UsedByType s k)
      (named : q ∈ (s.declared.attributeGroup g).attributeGroups) : PassedOver s .attrGroup q

section Mentions

variable {s : SchemaSet} {what : Symbol} {q : QName}

theorem element_lt_of_ne {i : ElementId} (h : s.declared.element i ≠ {}) :
    i < s.declared.elements.size := (element_cases _ i).resolve_right h

/-- In a loaded set a reference means something that is declared, unless linking passed it over. -/
theorem references_bound (h : s.Loaded) (hq : Mentions s what q) :
    s.Has what q ∨ PassedOver s what q := by
  have hw := h.isLinked.walkable
  cases hq with
  | @element i _ ref =>
    have hi : i < s.declared.elements.size := by
      refine element_lt_of_ne fun hnone => ?_
      rw [hnone] at ref
      cases ref
    exact .inl (hw.ref i hi q ref)
  | @head i _ named =>
    have hi : i < s.declared.elements.size := by
      refine element_lt_of_ne fun hnone => ?_
      rw [hnone] at named
      cases named
    rcases href : (s.declared.element i).ref with _ | r
    · exact .inl (hw.head i hi href q named)
    · exact .inr (.head href named)
  | content particle named => exact .inl (hw.ownGroups _ _ particle _ named)
  | @group g _ _ particle named =>
    by_cases hlisted : ∃ k, (k, g) ∈ s.groups
    · obtain ⟨k, hk⟩ := hlisted
      exact .inl (hw.innerGroups (k, g) hk _ particle q named)
    · exact .inr (.group (not_exists.1 hlisted) particle named)
  | @attr i _ ref =>
    have hi : i < s.declared.attributes.size := by
      by_contra hge
      rw [show s.declared.attr i = {} from getD_of_le (Nat.not_lt.1 hge)] at ref
      cases ref
    exact .inl (hw.attr i hi q ref)
  | @attributeGroup i _ named => exact .inl (h.isLinked.isSome_attributeGroup? ⟨i, q, named, .refl⟩)
  | @innerAttributeGroup g _ named =>
    by_cases hused : ∃ k, s.attributeGroup? k = some g ∧ UsedByType s k
    · obtain ⟨k, hk, i, r, hr, hway⟩ := hused
      exact .inl (h.isLinked.isSome_attributeGroup? ⟨i, r, hr, hway.tail ⟨g, hk, named⟩⟩)
    · exact .inr (.attributeGroup (fun k hk huse => hused ⟨k, hk, huse⟩) named)

end Mentions

theorem nested_reference_bound : nested.Loaded ∧ Mentions nested .element ⟨"", some "a"⟩ ∧
    (nested.Has .element ⟨"", some "a"⟩ ∨ PassedOver nested .element ⟨"", some "a"⟩) := by
  have href : (nested.declared.element 1).ref = some ⟨"", some "a"⟩ := by
    rw [nested_eq, SchemaSet.ofText_eq]
    decide +kernel
  exact ⟨nested_loaded, .element href, references_bound nested_loaded (.element href)⟩

/-! ## References that linking passes over -/

/-- Nothing is named `h`: neither the head of the reference to `e`, nor what the displaced group `k`
refers to, nor what the unused attribute group `g` does. -/
def danglingText : String :=
  "<s:schema xmlns:s=\"" ++ xsSpace ++ "\"><s:element name=\"e\"/><s:complexType name=\"t\">" ++
    "<s:sequence><s:element ref=\"e\" substitutionGroup=\"h\"/></s:sequence></s:complexType>" ++
    "<s:group name=\"k\"><s:sequence><s:group ref=\"h\"/></s:sequence></s:group>" ++
    "<s:group name=\"k\"/>" ++
    "<s:attributeGroup name=\"g\"><s:attributeGroup ref=\"h\"/></s:attributeGroup></s:schema>"

def dangling : SchemaSet := .ofText danglingText

theorem references_dangle : (Loader.ofText danglingText).2 = .ok () ∧
    (Mentions dangling .element ⟨"", some "h"⟩ ∧ ¬ dangling.Has .element ⟨"", some "h"⟩) ∧
    (Mentions dangling .group ⟨"", some "h"⟩ ∧ ¬ dangling.Has .group ⟨"", some "h"⟩) ∧
    Mentions dangling .attrGroup ⟨"", some "h"⟩ ∧ ¬ dangling.Has .attrGroup ⟨"", some "h"⟩ := by
  obtain ⟨hload, hhead, helement, hnames, hgroup, hinner, hattributeGroup⟩ :
      (Loader.ofText danglingText).2 = .ok () ∧
      (dangling.declared.element 1).substitution = some ⟨"", some "h"⟩ ∧
      dangling.element? ⟨"", some "h"⟩ = none ∧
      (dangling.declared.group 0).particle.map Node.groupNames = some [⟨"", some "h"⟩] ∧
      dangling.group? ⟨"", some "h"⟩ = none ∧
      (dangling.declared.attributeGroup 0).attributeGroups = [⟨"", some "h"⟩] ∧
      dangling.attributeGroup? ⟨"", some "h"⟩ = none := by
    rw [dangling, SchemaSet.ofText_eq, Loader.ofText_eq]
    decide +kernel
  obtain ⟨n, hparticle, hn⟩ := Option.map_eq_some_iff.1 hnames
  refine ⟨hload, ⟨.head hhead, ?_⟩, ⟨.group hparticle (hn ▸ List.mem_singleton_self _), ?_⟩,
    .innerAttributeGroup (hinner ▸ List.mem_singleton_self _), ?_⟩
  · simp [SchemaSet.Has, helement]
  · simp [SchemaSet.Has, hgroup]
  · simp [SchemaSet.Has, hattributeGroup]

end Schema
end SchemaPaths
