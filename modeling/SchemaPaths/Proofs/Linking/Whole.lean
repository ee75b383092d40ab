/-
Linking a whole set.

All types come first, then the attributes and the elements, and last the groups.  A run that
succeeds leaves everything linked; one that fails does so for a reason that the set gives.  Either
way the set is closed as it was before.
-/
import SchemaPaths.Proofs.Linking.Complex
import SchemaPaths.Proofs.Linking.Elements

namespace SchemaPaths
namespace Schema

open Linking (Progress)

/-- Linking that takes the elements in any order. -/
def Linking.allInOrder (s : SchemaSet) (order : List ElementId) : Linking.Link Unit := do
  let d := s.declared
  (places d.simpleTypes).forM (simpleType s)
  (places d.complexTypes).forM (complexType s)
  (places d.attributes).forM (attr s)
  order.forM (element s)
  s.groups.forM fun (_, g) => do let _ ← expandGroup s g

def SchemaSet.linkInOrder (s : SchemaSet) (order : List ElementId) :
    SchemaSet × Except Failure Unit :=
  let (outcome, p) := (Linking.allInOrder s order).run.run { declared := s.declared }
  ({ s with declared := p.declared }, outcome)

/-- Everything that a set declares is linked in `d`. -/
structure Linked (s : SchemaSet) (d : Declarations) : Prop where
  frame : Frame s d
  simple : ∀ i < s.declared.simpleTypes.size, SimpleDone s d i
  complex : ∀ i < s.declared.complexTypes.size, ∃ b own added, FilledIn s d i b own added
  derives : ∀ i < s.declared.complexTypes.size, Ends (ComplexBase s) i
  attr : ∀ i < s.declared.attributes.size, ∀ q ∈ (s.declared.attr i).ref, (s.attr? q).isSome
  attrType : ∀ i < s.declared.attributes.size, AttributeTyped s d i
  element : ∀ i < s.declared.elements.size, Visited s i
  elementType : ∀ i < s.declared.elements.size, ElementType s i (d.element i).type
  group : ∀ e ∈ s.groups, ∃ out, GroupContent s e.2 out

variable {s : SchemaSet} {p : Progress}

/-! ## The parts of a run -/

theorem links_simpleTypes (hs : s.Closed) :
    Links s p ((Linking.places s.declared.simpleTypes).forM (Linking.simpleType s)) fun p' _ =>
      ∀ i ∈ Linking.places s.declared.simpleTypes, i ∈ p'.simple :=
  .forM (fun _ _ _ h hi => h.simple hi) fun _ hi _ => links_simpleType hs (List.mem_range.1 hi)

theorem links_complexTypes (hs : s.Closed) :
    Links s p ((Linking.places s.declared.complexTypes).forM (Linking.complexType s)) fun p' _ =>
      ∀ i ∈ Linking.places s.declared.complexTypes, i ∈ p'.complex :=
  .forM (fun _ _ _ h hi => h.complex hi) fun _ hi _ => links_complexType hs (List.mem_range.1 hi)

theorem links_attrs (hs : s.Closed) :
    Links s p ((Linking.places s.declared.attributes).forM (Linking.attr s)) fun p' _ =>
      ∀ i ∈ Linking.places s.declared.attributes,
        (∀ q ∈ (s.declared.attr i).ref, (s.attr? q).isSome) ∧ AttributeTyped s p'.declared i :=
  .forM (fun i _ _ hlater h => ⟨h.1, hlater.attrType i h.2⟩)
    fun _ hi _ => links_attr hs (List.mem_range.1 hi)

theorem links_elements (hs : s.Closed) {order : List ElementId}
    (horder : ∀ i ∈ order, i < s.declared.elements.size) :
    Links s p (order.forM (Linking.element s)) fun p' _ =>
      ∀ i ∈ order, Visited s i ∧ ElementType s i (p'.declared.element i).type :=
  .forM (fun i _ _ hlater h => ⟨h.1, hlater.elementType i h.2⟩)
    fun i hi _ => links_element hs (horder i hi)

theorem links_groups (hs : s.Closed) :
    Links s p (s.groups.forM fun (_, g) => do let _ ← Linking.expandGroup s g) fun _ _ =>
      ∀ e ∈ s.groups, ∃ out, GroupContent s e.2 out :=
  .forM (fun _ _ _ _ h => h) fun _ he p =>
    (links_expandGroup hs p he).bind fun out _ _ hout => .pure ⟨out, hout.2⟩

theorem links_allInOrder (hs : s.Closed) {order : List ElementId}
    (horder : ∀ i, i ∈ order ↔ i < s.declared.elements.size) :
    Links s { declared := s.declared } (Linking.allInOrder s order) fun p' _ =>
      Linked s p'.declared := by
  unfold Linking.allInOrder
  dsimp only
  refine (links_simpleTypes hs).bind fun _ p₁ _ hsimple => ?_
  refine (links_complexTypes hs).bind fun _ p₂ h₂ hcomplex => ?_
  refine (links_attrs hs).bind fun _ p₃ h₃ hattr => ?_
  refine (links_elements hs fun i => (horder i).1).bind fun _ p₄ h₄ helement => ?_
  refine (links_groups hs).andSound.mono fun _ p₅ h₅ hend => ?_
  obtain ⟨hsound, hgroup⟩ := hend
  have hlater₃ : Later s p₃ p₅ := h₄.trans h₅
  have hlater₂ : Later s p₂ p₅ := h₃.trans hlater₃
  have hlater₁ : Later s p₁ p₅ := h₂.trans hlater₂
  exact {
    frame := hsound.frame
    simple := fun i hi => hsound.simple i (hlater₁.simple (hsimple i (List.mem_range.2 hi)))
    complex := fun i hi =>
      (hsound.complex i (hlater₂.complex (hcomplex i (List.mem_range.2 hi)))).filled
    derives := fun i hi =>
      (hsound.complex i (hlater₂.complex (hcomplex i (List.mem_range.2 hi)))).ends
    attr := fun i hi => (hattr i (List.mem_range.2 hi)).1
    attrType := fun i hi => hlater₃.attrType i (hattr i (List.mem_range.2 hi)).2
    element := fun i hi => (helement i ((horder i).2 hi)).1
    elementType := fun i hi => h₅.elementType i (helement i ((horder i).2 hi)).2
    group := hgroup }

/-! ## What becomes of a set -/

theorem linkInOrder_cases (hs : s.Closed) {order : List ElementId}
    (horder : ∀ i, i ∈ order ↔ i < s.declared.elements.size) :
    ((s.linkInOrder order).2 = .ok () ∧ Linked s (s.linkInOrder order).1.declared) ∨
      ∃ f, (s.linkInOrder order).2 = .error f ∧ Due s f ∧
        Frame s (s.linkInOrder order).1.declared := by
  have hrun := links_allInOrder hs horder (.start hs)
  unfold Ensures at hrun
  unfold SchemaSet.linkInOrder
  split at hrun
  · rename_i u p heq
    rw [heq]
    exact .inl ⟨rfl, hrun.2.2⟩
  · rename_i f p heq
    rw [heq]
    exact .inr ⟨f, rfl, hrun.1, hrun.2.frame⟩

theorem link_cases (hs : s.Closed) :
    (s.link.2 = .ok () ∧ Linked s s.link.1.declared) ∨
      ∃ f, s.link.2 = .error f ∧ Due s f ∧ Frame s s.link.1.declared :=
  linkInOrder_cases hs fun _ => List.mem_range

theorem Linked.of_link (hs : s.Closed) (h : s.link.2 = .ok ()) : Linked s s.link.1.declared := by
  rcases link_cases hs with ⟨-, hl⟩ | ⟨f, hf, -⟩
  · exact hl
  · rw [h] at hf
    cases hf

theorem Fault.of_link (hs : s.Closed) {f : Failure} (h : s.link.2 = .error f) : Fault s f := by
  rcases link_cases hs with ⟨hok, -⟩ | ⟨f', hf, hfault, -⟩
  · rw [h] at hok
    cases hok
  · rw [h] at hf
    cases hf
    exact hfault.fault

theorem Frame.of_link (hs : s.Closed) : Frame s s.link.1.declared := by
  rcases link_cases hs with ⟨-, hl⟩ | ⟨f, -, -, hf⟩
  · exact hl.frame
  · exact hf

/-! ## What linking leaves as it was -/

section Frames

variable {d : Declarations}

theorem group_framed (h : d.groups = s.declared.groups) (g : GroupId) :
    d.group g = s.declared.group g := by
  rw [Declarations.group, h, Declarations.group]

theorem Frame.group (h : Frame s d) (g : GroupId) : d.group g = s.declared.group g :=
  group_framed h.groups g

theorem Frame.typeName (h : Frame s d) (t : TypeRef) : d.typeName t = s.declared.typeName t := by
  match t with
  | .simple (.builtin _) => rfl
  | .simple (.declared i) => exact (congrArg SimpleType.name (h.simpleType i) :)
  | .complex .anyType => rfl
  | .complex (.declared i) => exact (congrArg ComplexType.name (h.complexType i) :)

theorem Frame.ownParticle (h : Frame s d) (i : ComplexId) :
    Linking.ownParticle (d.complexType i) = Linking.ownParticle (s.declared.complexType i) :=
  (congrArg Linking.ownParticle (h.complexType i) :)

theorem Frame.localContent (h : Frame s d) {n : Node} (hn : s.declared.LocalContent n) :
    d.LocalContent n := by
  refine Node.MadeOf.mono hn (fun a ⟨hatom, hlocal⟩ => ?_) fun _ hi => h.extent ▸ hi
  refine ⟨h.extent ▸ hatom, fun e he => ?_⟩
  have hsame : (d.element e).isGlobal = (s.declared.element e).isGlobal :=
    (congrArg Element.isGlobal (h.element e) :)
  exact hsame.trans (hlocal e he)

theorem Frame.nested (h : Frame s d) (hs : s.declared.Nested) : d.Nested where
  element i := by
    have hinline : (d.element i).inline = (s.declared.element i).inline :=
      (congrArg Element.inline (h.element i) :)
    have href : (d.element i).ref = (s.declared.element i).ref :=
      (congrArg Element.ref (h.element i) :)
    have hname : (d.element i).name = (s.declared.element i).name :=
      (congrArg Element.name (h.element i) :)
    refine ⟨fun t ht => ?_, fun q hq => hname.trans ((hs.element i).ref q (href ▸ hq))⟩
    rw [h.extent, h.typeName t]
    exact (hs.element i).inline t (hinline ▸ ht)
  own i n hn := h.localContent (hs.own i n (h.ownParticle i ▸ hn))
  group i n hn := h.localContent (hs.group i n (h.group i ▸ hn))

theorem Frame.filed (h : Frame s d) (hs : s.Filed) : ({ s with declared := d } : SchemaSet).Filed where
  elements e he := by
    have hname : (d.element e.2).name = (s.declared.element e.2).name :=
      (congrArg Element.name (h.element e.2) :)
    rw [hname]
    exact hs.elements e he
  types e he := by
    rw [h.typeName]
    exact hs.types e he
  groups e he := by
    rw [h.group]
    exact hs.groups e he
  registered doc hdoc g hg := by
    rw [h.group]
    exact hs.registered doc hdoc g hg

end Frames

namespace SchemaSet

/-- The same names lead to the same declarations, with what linking found out about them. -/
theorem Closed.framed {d : Declarations} (hs : s.Closed) (h : Frame s d) :
    ({ s with declared := d } : SchemaSet).Closed where
  declared := h.closed
  nested := h.nested hs.nested
  filed := h.filed hs.filed
  elements e he := h.elements_size ▸ hs.elements e he
  types e he := h.extent ▸ hs.types e he
  groups e he := h.groups ▸ hs.groups e he
  attributeGroups e he := by
    have hsame : ∀ i, d.attributeGroup i = s.declared.attributeGroup i := fun i => by
      rw [Declarations.attributeGroup, h.attributeGroups, Declarations.attributeGroup]
    show e.2 < d.attributeGroups.size ∧ _ = (⟨(d.attributeGroup e.2).space, _⟩ : QName)
    rw [hsame, h.attributeGroups]
    exact hs.attributeGroups e he
  documents doc hdoc := by
    have hgrows : GoodDocument s.declared doc := hs.documents doc hdoc
    refine ⟨fun i hi => ?_, fun i hi => ?_, fun r hr => ?_, fun i hi => ?_, fun i hi => ?_,
      fun i hi => ?_⟩
    · show i < d.elements.size
      rw [h.elements_size]
      exact hgrows.elements i hi
    · have hsame : (d.element i).isGlobal = (s.declared.element i).isGlobal :=
        (congrArg Element.isGlobal (h.element i) :)
      exact hsame.trans (hgrows.isGlobal i hi)
    · show d.extent.HasType r
      rw [h.extent]
      exact hgrows.types r hr
    · show i < d.groups.size
      rw [h.groups]
      exact hgrows.groups i hi
    · show i < d.extent.attributes
      rw [h.extent]
      exact hgrows.attributes i hi
    · show i < d.attributeGroups.size ∧ (d.attributeGroup i).space = doc.space
      rw [Declarations.attributeGroup, h.attributeGroups]
      exact hgrows.attributeGroups i hi
  typed i hi := by
    obtain ⟨href, hheaded⟩ := h.typed i hi
    have hsame := h.element i
    have href' : (d.element i).ref = (s.declared.element i).ref := (congrArg Element.ref hsame :)
    have hsub : (d.element i).substitution = (s.declared.element i).substitution :=
      (congrArg Element.substitution hsame :)
    show (d.element i).ref = none ∧ ∀ q ∈ (d.element i).substitution, (s.element? q).isSome
    rw [href', hsub]
    exact ⟨href, hheaded.found⟩
  given i t ht := (h.given i t ht).imp_left fun hname => (h.typeName t).trans hname

theorem Closed.link (hs : s.Closed) : s.link.1.Closed := hs.framed (Frame.of_link hs)

end SchemaSet
end Schema
end SchemaPaths
