/-
Linking a second time.

What linking fills in does not change what a set means: the same types are bases, the same elements
are heads and the same groups are written out.  So what is linked in a set is linked just as well in
the set that it makes, and that set gives no reason to fail.  As there is one way to link a set,
linking again leaves it as it is.
-/
import SchemaPaths.Proofs.Linking.Alike
import SchemaPaths.Proofs.Linking.Contents
import SchemaPaths.Proofs.Loading

namespace SchemaPaths
namespace Schema

open Relation

variable {s : SchemaSet} {d d' : Declarations}

/-! ## One way to link -/

theorem eq_of_getD {α : Type} {a a' : Array α} {fill : α} (hsize : a'.size = a.size)
    (h : ∀ i, a'.getD i fill = a.getD i fill) : a' = a := by
  apply Array.ext hsize
  intro i hi hi'
  have hi := h i
  simpa [hi', hsize] using hi

namespace Linked

variable (h : Linked s d) (h' : Linked s d')
include h h'

theorem element_unique (i : ElementId) : d'.element i = d.element i := by
  by_cases hi : i < s.declared.elements.size
  · apply Element.eq_of_asDeclared ((h'.frame.element i).trans (h.frame.element i).symm)
    exact (h.elementType i hi).unique (h'.elementType i hi)
  · rw [Declarations.element, Declarations.element, getD_of_le, getD_of_le]
    · exact h.frame.elements_size ▸ Nat.not_lt.1 hi
    · exact h'.frame.elements_size ▸ Nat.not_lt.1 hi

theorem attr_unique (i : AttributeId) : d'.attr i = d.attr i := by
  by_cases hi : i < s.declared.attributes.size
  · apply Attribute.eq_of_asDeclared ((h'.frame.attr i).trans (h.frame.attr i).symm)
    cases href : (s.declared.attr i).ref with
    | none =>
      obtain ⟨t, ht, htype⟩ := h.attrType i hi href
      obtain ⟨t', ht', htype'⟩ := h'.attrType i hi href
      rw [htype, htype', ← ht, ← ht']
    | some q =>
      have hisSome : (s.declared.attr i).ref.isSome := Option.isSome_of_eq_some href
      rw [h.frame.attrRef i hisSome, h'.frame.attrRef i hisSome]
  · rw [Declarations.attr, Declarations.attr, getD_of_le, getD_of_le]
    · exact h.frame.attributes_size ▸ Nat.not_lt.1 hi
    · exact h'.frame.attributes_size ▸ Nat.not_lt.1 hi

theorem simpleType_unique (i : SimpleId) : d'.simpleType i = d.simpleType i := by
  apply SimpleType.eq_of_asDeclared ((h'.frame.simpleType i).trans (h.frame.simpleType i).symm)
  rw [(h'.simpleDone i).base, (h.simpleDone i).base]

/-- By induction along the bases, since a type is filled in from its base. -/
theorem complexType_unique (i : ComplexId) : d'.complexType i = d.complexType i := by
  induction h.ends_complexBase i with
  | intro i _ ih =>
    by_cases hi : i < s.declared.complexTypes.size
    · obtain ⟨b, own, added, hf⟩ := h.complex i hi
      obtain ⟨b', own', added', hf'⟩ := h'.complex i hi
      have hb : b' = b := Option.some.inj (hf'.named.symm.trans hf.named)
      subst hb
      have hown : own' = own := hf.written.unique hf'.written
      have hadded : added' = added := Except.ok.inj (hf'.declared.symm.trans hf.declared)
      have hinherited : Linking.inherited d' b' = Linking.inherited d b' := by
        match b', hf.named with
        | .simple _, _ => rfl
        | .complex .anyType, _ => rfl
        | .complex (.declared j), hj => exact congrArg some (ih j hj)
      apply ComplexType.eq_of_asDeclared
        ((h'.frame.complexType i).trans (h.frame.complexType i).symm)
      · rw [hf'.base, hf.base]
      · rw [hf'.content, hf.content, hinherited, hown]
      · rw [hf'.uses, hf.uses, hinherited, hadded]
    · rw [complexType_of_le, complexType_of_le]
      · exact h.frame.complexTypes_size ▸ Nat.not_lt.1 hi
      · exact h'.frame.complexTypes_size ▸ Nat.not_lt.1 hi

theorem unique : d' = d := by
  have hextent : d'.extent = d.extent := h'.frame.extent.trans h.frame.extent.symm
  have helements : d'.elements = d.elements :=
    eq_of_getD (congrArg Extent.elements hextent) (h.element_unique h')
  have hattributes : d'.attributes = d.attributes :=
    eq_of_getD (congrArg Extent.attributes hextent) (h.attr_unique h')
  have hsimple : d'.simpleTypes = d.simpleTypes :=
    eq_of_getD (congrArg Extent.simpleTypes hextent) (h.simpleType_unique h')
  have hcomplex : d'.complexTypes = d.complexTypes :=
    eq_of_getD (congrArg Extent.complexTypes hextent) (h.complexType_unique h')
  have hgroups : d'.groups = d.groups := h'.frame.groups.trans h.frame.groups.symm
  have hattributeGroups : d'.attributeGroups = d.attributeGroups :=
    h'.frame.attributeGroups.trans h.frame.attributeGroups.symm
  have hparticles : d'.particles = d.particles := congrArg Extent.particles hextent
  cases d
  cases d'
  simp_all

end Linked

/-! ## Linked declarations in the set that they make -/

section Framed

variable (h : Frame s d)
include h

theorem Frame.complexBase_eq :
    ComplexBase { s with declared := d } = ComplexBase s := by
  funext i j
  exact congrArg (· = some (TypeRef.complex (.declared j)))
    (congrArg s.complexBase? (h.complexType i) :)

theorem Frame.head_eq : Head { s with declared := d } = Head s := by
  funext i j
  show (∃ q, (d.element i).substitution = some q ∧ s.element? q = some j) = _
  rw [h.substitution_eq]
  rfl

theorem HeadsEnd.framed {i : ElementId} (hi : HeadsEnd s i) :
    HeadsEnd { s with declared := d } i where
  ends := by
    rw [h.head_eq]
    exact hi.ends
  found k hk q hq := by
    rw [h.head_eq] at hk
    exact hi.found k hk q (h.substitution_eq k ▸ hq)

/-- An element whose type is filled in has its heads gone through. -/
theorem Headed.framed {i : ElementId} (hi : Headed s i) : Headed { s with declared := d } i where
  found q hq := hi.found q (h.substitution_eq i ▸ hq)
  heads hnew := (hi.heads (h.new hnew)).framed h

theorem Visited.framed {i : ElementId} (hi : Visited s i) : Visited { s with declared := d } i := by
  constructor
  · intro q hq
    exact hi.ref q (h.ref_eq i ▸ hq)
  · intro hnone
    exact (hi.headed (h.ref_eq i ▸ hnone)).framed h

theorem declaredUses_framed (t : ComplexType) :
    Linking.declaredUses { s with declared := d } t = Linking.declaredUses s t := by
  have hgroup : Linking.attributesOfGroup { s with declared := d } = Linking.attributesOfGroup s :=
    attributesOfGroup_congr rfl h.attributeGroups
  rw [Linking.declaredUses, Linking.declaredUses, hgroup]

end Framed

namespace Linked

variable (h : Linked s d)
include h

/-- The base that was filled in is the one that the type has from now on. -/
theorem simpleBase?_eq (i : SimpleId) :
    ({ s with declared := d } : SchemaSet).simpleBase? i = s.simpleBase? i := by
  have hbase := (h.simpleDone i).base
  have hname := h.frame.baseName i
  show (d.simpleType i).base.or ((d.simpleType i).baseName.bind fun q =>
    (s.type? q).bind TypeRef.simple?) = _
  rw [hbase, hname, SchemaSet.simpleBase?, Option.or_assoc, Option.or_self]

theorem simpleBase_eq : SimpleBase { s with declared := d } = SimpleBase s := by
  funext i j
  rw [SimpleBase, h.simpleBase?_eq, SimpleBase]

theorem filledIn_again {i : ComplexId} {b : TypeRef} {own : Option Node}
    {added : List AttributeId} (hf : FilledIn s d i b own added) :
    FilledIn { s with declared := d } d i b own added := by
  have hsame := h.frame.complexType i
  obtain ⟨hcontent, hown⟩ := contentOf_congr hsame
  constructor
  · exact (congrArg s.complexBase? hsame :).trans hf.named
  · exact hf.base
  · show OptionWrittenOut _ (Linking.ownParticle (d.complexType i)) own
    rw [hown]
    exact hf.written.framed h.frame.groups
  · show _ = Linking.contentOf i (d.complexType i) _ own
    rw [hcontent]
    exact hf.content
  · rw [declaredUses_framed h.frame]
    exact (congrArg (Linking.declaredUses s) hsame :).trans hf.declared
  · rw [hf.uses, effectiveUses_congr h.frame.attr]

theorem type_eq {i : ElementId} {o : Option TypeRef} (hi : i < s.declared.elements.size)
    (ht : ElementType s i o) : (d.element i).type = o :=
  ht.unique (h.elementType i hi)

/-- An element keeps the type that was filled in.  One that has none refers to another or takes over
none from its head, as before. -/
theorem elementType_again (hs : s.Closed) {i : ElementId} {o : Option TypeRef}
    (ht : ElementType s i o) (hi : i < s.declared.elements.size) :
    ElementType { s with declared := d } i o := by
  have hof := h.type_eq hi ht
  induction ht with
  | kept => exact .kept hof
  | written => exact .kept hof
  | named => exact .kept hof
  | any => exact .kept hof
  | @reference i q new ref =>
    exact .reference hof ((h.frame.ref_eq i).trans ref)
  | @taken i j o new noRef unwritten unnamed head type ih =>
    have hj := head_lt hs head
    cases o with
    | some t => exact .kept hof
    | none =>
      have hsame := h.frame.element i
      apply ElementType.taken hof
      · exact (h.frame.ref_eq i).trans noRef
      · exact (congrArg Element.inline hsame :).trans unwritten
      · exact (congrArg Element.typeName hsame :).trans unnamed
      · exact h.frame.head_eq ▸ head
      · exact ih hj (h.type_eq hj type)

/-- What is linked in a set is linked in the set that it makes. -/
theorem again (hs : s.Closed) : Linked { s with declared := d } d where
  frame := .start (hs.framed h.frame)
  simple i _ := by
    have hdone := h.simpleDone i
    constructor
    · rw [h.simpleBase?_eq]
      exact hdone.base
    · rw [h.simpleBase_eq]
      exact hdone.ends
    · intro hnone q hq
      exact hdone.named (h.frame.unwritten hnone) q (h.frame.baseName i ▸ hq)
    · intro q hq
      exact hdone.item q (h.frame.itemName i ▸ hq)
  complex i hi := by
    obtain ⟨b, own, added, hf⟩ := h.filledIn hi
    exact ⟨b, own, added, h.filledIn_again hf⟩
  derives i _ := by
    rw [h.frame.complexBase_eq]
    exact h.ends_complexBase i
  attr i hi q hq := h.attr i (h.frame.attributes_size ▸ hi) q (h.frame.attrRef_eq i ▸ hq)
  attrType i hi hnone := by
    obtain ⟨t, ht, htype⟩ :=
      h.attrType i (h.frame.attributes_size ▸ hi) (h.frame.attrRef_eq i ▸ hnone)
    exact ⟨t, (congrArg s.attrType? (h.frame.attr i) :).trans ht, htype⟩
  element i hi := (h.element i (h.frame.elements_size ▸ hi)).framed h.frame
  elementType i hi := by
    have hi : i < s.declared.elements.size := h.frame.elements_size ▸ hi
    exact h.elementType_again hs (h.elementType i hi) hi
  group e he := by
    obtain ⟨out, hout⟩ := h.group e he
    exact ⟨out, hout.framed h.frame.groups⟩

end Linked

/-- Linking a set again that was linked changes nothing and does not fail. -/
theorem SchemaSet.IsLinked.link_again (h : s.IsLinked) : s.link = (s, .ok ()) := by
  obtain ⟨s₀, hs₀, hl, heq⟩ := h
  have hs : s.Closed := by
    rw [heq]
    exact hs₀.framed hl.frame
  have hagain : Linked s s.declared := by
    have h := hl.again hs₀
    rwa [← heq] at h
  rcases link_cases hs with ⟨hok, hl'⟩ | ⟨f, -, hdue, -⟩
  · have hset : s.link.1 = s := by
      show { s with declared := s.link.1.declared } = s
      rw [hagain.unique hl']
    exact Prod.ext hset hok
  · exact absurd hdue (hagain.not_due hs)

end Schema
end SchemaPaths
