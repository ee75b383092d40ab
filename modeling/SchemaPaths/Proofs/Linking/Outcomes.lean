/-
What becomes of linking.

A failure of linking has a reason in the set.  Conversely, in a set that was linked everything was
looked up that linking looks up, and everything that derives from or contains something else has been
followed to its end; so such a set gives no reason to fail.  Whether linking succeeds is therefore a
matter of what the set declares, not of the order in which linking goes through it.
-/
import SchemaPaths.Proofs.Linking.References

namespace SchemaPaths
namespace Schema

open Relation

variable {s : SchemaSet} {d : Declarations}

/-- A complex type with a content model is one of those that were filled in. -/
theorem Linked.filled_of_model (h : Linked s d) {i : ComplexId} {m : Derived}
    (hm : (s.declared.complexType i).model = some m) : ∃ b own added, FilledIn s d i b own added := by
  refine h.complex i ((complexType_cases _ i).resolve_right fun hnone => ?_)
  rw [hnone] at hm
  cases hm

theorem Linked.sought_complexBase (h : Linked s d) {i : ComplexId} {m : Derived} {q : QName}
    (hm : (s.declared.complexType i).model = some m) (hq : m.base = some q) :
    (s.type? q).isSome := by
  obtain ⟨b, own, added, hf⟩ := h.filled_of_model hm
  have hnamed := hf.named
  rw [SchemaSet.complexBase?, hm] at hnamed
  dsimp only at hnamed
  rw [hq, Option.bind_some] at hnamed
  rw [hnamed]
  rfl

theorem Linked.sought_content (h : Linked s d) {i : ComplexId} {n : Node} {q : QName}
    (hn : Linking.ownParticle (s.declared.complexType i) = some n) (hq : q ∈ n.groupNames) :
    (s.group? q).isSome := by
  have hi : i < s.declared.complexTypes.size := by
    refine (complexType_cases _ i).resolve_right fun hnone => ?_
    rw [hnone] at hn
    cases hn
  obtain ⟨b, own, added, hf⟩ := h.complex i hi
  have hwritten := hf.written
  rw [hn] at hwritten
  obtain ⟨g, hg, -⟩ := WrittenOut.ends hwritten q hq
  rw [hg]
  rfl

theorem Linked.sought_group (h : Linked s d) {k q : QName} {g : GroupId} {n : Node}
    (hlisted : (k, g) ∈ s.groups) (hn : (s.declared.group g).particle = some n)
    (hq : q ∈ n.groupNames) : (s.group? q).isSome := by
  obtain ⟨out, hout⟩ := h.group (k, g) hlisted
  have hwritten := groupContent_iff.1 hout
  rw [hn] at hwritten
  obtain ⟨g', hg', -⟩ := WrittenOut.ends hwritten q hq
  rw [hg']
  rfl

/-- The names of attribute groups that linking looks up are those that types lead to. -/
theorem Sought.usedByType {q : QName} (h : Sought s .attrGroup q) : UsedByType s q := by
  generalize hwhat : Symbol.attrGroup = what at h
  induction h with
  | attributeGroup named => exact ⟨_, _, named, .refl⟩
  | innerAttributeGroup _ found named ih =>
    obtain ⟨i, r, hr, hway⟩ := ih rfl
    exact ⟨i, r, hr, hway.tail ⟨_, found, named⟩⟩
  | _ => cases hwhat

/-- Everything that linking looks up for the types, attributes and groups of a set that was linked is
there. -/
theorem Linked.has (h : Linked s d) (hs : s.Closed) {what : Symbol} {q : QName}
    (hq : Sought s.withoutElements what q) : s.Has what q := by
  cases hq with
  | @simpleBase i _ unwritten named => exact (h.simpleDone i).named unwritten q named
  | @itemType i _ named => exact (h.simpleDone i).item q named
  | complexBase model named => exact h.sought_complexBase model named
  | content particle named => exact h.sought_content particle named
  | group listed particle named => exact h.sought_group listed particle named
  | attributeGroup named =>
    exact h.isSome_attributeGroup? hs (Sought.attributeGroup named).usedByType
  | innerAttributeGroup outer found named =>
    have hinner := outer.of_withoutElements.innerAttributeGroup found named
    exact h.isSome_attributeGroup? hs hinner.usedByType
  | @attr i _ ref =>
    refine h.attr i ?_ q ref
    by_contra hge
    have hnone : s.declared.attr i = {} := getD_of_le (Nat.not_lt.1 hge)
    rw [show s.withoutElements.declared.attr i = {} from hnone] at ref
    cases ref
  | @attributeType i _ noRef unwritten named =>
    have hi : i < s.declared.attributes.size := by
      by_contra hge
      have hnone : s.declared.attr i = {} := getD_of_le (Nat.not_lt.1 hge)
      rw [show s.withoutElements.declared.attr i = {} from hnone] at named
      cases named
    obtain ⟨t, ht, -⟩ := h.attrType i hi noRef
    rw [SchemaSet.attrType?, show (s.declared.attr i).inline = none from unwritten,
      show (s.declared.attr i).typeName = some q from named] at ht
    exact Option.isSome_of_eq_some ht
  | element ref => cases ref
  | head _ _ named => cases named
  | elementType _ _ named => cases named

/-- The type that an element names is there unless the element had its type before. -/
theorem Linked.namedType (h : Linked s d) {i : ElementId} {q : QName}
    (hnew : (s.declared.element i).type = none) (noRef : (s.declared.element i).ref = none)
    (unwritten : (s.declared.element i).inline = none)
    (named : (s.declared.element i).typeName = some q) : (s.type? q).isSome := by
  have hi : i < s.declared.elements.size := by
    refine (element_cases _ i).resolve_right fun hnone => ?_
    rw [hnone] at named
    cases named
  have htype := h.elementType i hi
  generalize (d.element i).type = o at htype
  cases htype with
  | named _ _ _ named' found =>
    rw [named] at named'
    cases named'
    exact Option.isSome_of_eq_some found
  | _ => simp_all

/-- A set that was linked gives a run no reason to fail. -/
theorem Linked.not_due (h : Linked s d) (hs : s.Closed) {f : Failure} : ¬ Due s f := by
  intro hf
  cases hf with
  | apart hf =>
    cases hf with
    | unresolved sought missing => exact missing (h.has hs sought)
    | noBase model none =>
      obtain ⟨b, own, added, hfilled⟩ := h.filled_of_model model
      have hnamed := hfilled.named
      rw [SchemaSet.complexBase?, show (s.declared.complexType _).model = _ from model] at hnamed
      dsimp only at hnamed
      rw [none] at hnamed
      cases hnamed
    | circular hc => exact h.not_circular_apart hc
  | @reference i q ref missing =>
    have hi : i < s.declared.elements.size := by
      refine (element_cases _ i).resolve_right fun hnone => ?_
      rw [hnone] at ref
      cases ref
    have hfound := (h.element i hi).ref q ref
    rw [missing] at hfound
    cases hfound
  | @head i k q new noRef heads named missing =>
    have hfound := (h.headsEnd new noRef).found k heads q named
    rw [missing] at hfound
    cases hfound
  | elementType new noRef unwritten named missing =>
    have hfound := h.namedType new noRef unwritten named
    rw [missing] at hfound
    cases hfound
  | heads new noRef endless => exact ends_iff_not_endless.1 (h.headsEnd new noRef).ends endless

/-- Where no element had its type before, it gives no reason to fail at all. -/
theorem Linked.no_fault (h : Linked s d) (hs : s.Closed)
    (hnew : ∀ i, (s.declared.element i).type = none) {f : Failure} : ¬ Fault s f :=
  fun hf => h.not_due hs (hf.due hnew)

/-- Linking what was just read succeeds if and only if the set gives no reason to fail. -/
theorem link_succeeds_iff (h : s.Parsed) : s.link.2 = .ok () ↔ ∀ f, ¬ Fault s f := by
  constructor
  · exact fun hok f => (Linked.of_link h.closed hok).no_fault h.closed h.unlinked
  · intro hno
    rcases link_cases h.closed with ⟨hok, -⟩ | ⟨f, -, hfault, -⟩
    · exact hok
    · exact absurd hfault.fault (hno f)

end Schema
end SchemaPaths
