/-
Linking declarations in other places.

Whether a set can be linked is a matter of the names that are looked up, of what they lead to, and of
the ways from declaration to declaration.  All of that stays as it is when the declarations stand in
other places.
-/
import SchemaPaths.Proofs.Linking.Outcomes
import SchemaPaths.Proofs.Schema.Naming

namespace SchemaPaths
namespace Schema

open Relation Renaming

variable {s s' : SchemaSet} {ρ σ : Renaming}

/-! ## What linking goes by -/

theorem ownParticle_rename (ρ : Renaming) (t : ComplexType) :
    Linking.ownParticle (t.rename ρ) = (Linking.ownParticle t).map (·.rename ρ) := by
  rw [Linking.ownParticle, Linking.ownParticle, ComplexType.rename]
  cases t.model <;> rfl

theorem ownAttributes_rename (ρ : Renaming) (t : ComplexType) :
    Linking.ownAttributes (t.rename ρ) =
      ((Linking.ownAttributes t).1.map (ρ .attr), (Linking.ownAttributes t).2) := by
  rw [Linking.ownAttributes, Linking.ownAttributes, ComplexType.rename]
  cases t.model <;> rfl

namespace SchemaSet.Rearranged

variable (h : s.Rearranged ρ σ s')
include h

theorem simpleBase? (i : SimpleId) :
    s'.simpleBase? (ρ .simple i) = (s.simpleBase? i).map (·.rename ρ) := by
  rw [SchemaSet.simpleBase?, SchemaSet.simpleBase?, h.declared.simpleType, SimpleType.rename]
  cases (s.declared.simpleType i).base with
  | some r => rfl
  | none =>
    cases (s.declared.simpleType i).baseName with
    | none => rfl
    | some q =>
      simp only [Option.map_none, Option.none_or, Option.bind_some]
      rw [h.type? q]
      rcases s.type? q with _ | _ | _ <;> rfl

theorem complexBase? (t : ComplexType) :
    s'.complexBase? (t.rename ρ) = (s.complexBase? t).map (·.rename ρ) := by
  unfold SchemaSet.complexBase?
  rw [ComplexType.rename]
  cases t.model with
  | none => rfl
  | some m =>
    dsimp only [Option.map_some, Derived.rename]
    cases m.base with
    | none => rfl
    | some q => exact h.type? q

theorem attrType? (a : Attribute) :
    s'.attrType? (a.rename ρ) = (s.attrType? a).map (·.rename ρ) := by
  unfold SchemaSet.attrType?
  rw [Attribute.rename]
  cases a.inline with
  | some i => rfl
  | none =>
    cases a.typeName with
    | none => rfl
    | some q => exact h.type? q

theorem has {what : Symbol} {q : QName} : s'.Has what q ↔ s.Has what q := by
  cases what with
  | element => simp only [SchemaSet.Has, h.element?, Option.isSome_map]
  | type => simp only [SchemaSet.Has, h.type?, Option.isSome_map]
  | group => simp only [SchemaSet.Has, h.group?, Option.isSome_map]
  | attr => simp only [SchemaSet.Has, h.attr?, Option.isSome_map]
  | attrGroup => simp only [SchemaSet.Has, h.attributeGroup?, Option.isSome_map]

/-! ### Ways -/

theorem simpleBase {i j : SimpleId} (hij : SimpleBase s i j) :
    SimpleBase s' (ρ .simple i) (ρ .simple j) := by
  rw [SimpleBase, h.simpleBase?, hij]
  rfl

theorem complexBase {i j : ComplexId} (hij : ComplexBase s i j) :
    ComplexBase s' (ρ .complex i) (ρ .complex j) := by
  rw [ComplexBase, h.declared.complexType, h.complexBase?, hij]
  rfl

theorem head {i j : ElementId} (hij : Head s i j) : Head s' (ρ .element i) (ρ .element j) := by
  obtain ⟨q, hq, hj⟩ := hij
  refine ⟨q, ?_, by rw [h.element?, hj]; rfl⟩
  rw [h.declared.element]
  exact hq

theorem groupUse {i j : GroupId} (hij : GroupUse s i j) :
    GroupUse s' (ρ .group i) (ρ .group j) := by
  obtain ⟨n, q, hn, hq, hj⟩ := hij
  refine ⟨n.rename ρ, q, ?_, by rwa [Node.groupNames_rename], by rw [h.group?, hj]; rfl⟩
  rw [h.declared.group, Group.rename, hn]
  rfl

theorem circular (hc : Circular s) : Circular s' := by
  cases hc with
  | simple endless => exact .simple (endless.map (f := ρ .simple) fun _ _ => h.simpleBase)
  | complex endless => exact .complex (endless.map (f := ρ .complex) fun _ _ => h.complexBase)
  | group listed back =>
    exact .group (h.groups.mem listed) (TransGen.lift (ρ .group) (fun _ _ => h.groupUse) _ _ back)
  | @heads i noRef endless =>
    refine .heads (i := ρ .element i) ?_ (endless.map (f := ρ .element) fun _ _ => h.head)
    rw [h.declared.element]
    exact noRef

/-! ### Reasons to fail -/

theorem sought {what : Symbol} {q : QName} (hq : Sought s what q) : Sought s' what q := by
  induction hq with
  | @simpleBase i q unwritten named =>
    have ht := h.declared.simpleType i
    refine .simpleBase (i := ρ .simple i) ?_ ?_
    · rw [ht, SimpleType.rename, unwritten]
      rfl
    · rw [ht]
      exact named
  | @itemType i q named =>
    refine .itemType (i := ρ .simple i) ?_
    rw [h.declared.simpleType]
    exact named
  | @complexBase i m q model named =>
    refine .complexBase (i := ρ .complex i) (m := m.rename ρ) ?_ named
    rw [h.declared.complexType, ComplexType.rename, model]
    rfl
  | @content i n q particle named =>
    refine .content (i := ρ .complex i) (n := n.rename ρ) ?_ (by rwa [Node.groupNames_rename])
    rw [h.declared.complexType, ownParticle_rename, particle]
    rfl
  | @group k q g n listed particle named =>
    refine .group (h.groups.mem listed) (n := n.rename ρ) ?_ (by rwa [Node.groupNames_rename])
    rw [h.declared.group, Group.rename, particle]
    rfl
  | @attributeGroup i q named =>
    refine .attributeGroup (i := ρ .complex i) ?_
    rw [h.declared.complexType, ownAttributes_rename]
    exact named
  | @innerAttributeGroup q r g _ found named ih =>
    refine .innerAttributeGroup (g := ρ .attributeGroup g) ih ?_ ?_
    · rw [h.attributeGroup?, found]
      rfl
    · rw [h.declared.attributeGroup]
      exact named
  | @attr i q ref =>
    refine .attr (i := ρ .attr i) ?_
    rw [h.declared.attr]
    exact ref
  | @attributeType i q noRef unwritten named =>
    have ha := h.declared.attr i
    refine .attributeType (i := ρ .attr i) ?_ ?_ ?_
    · rw [ha]
      exact noRef
    · rw [ha, Attribute.rename, unwritten]
      rfl
    · rw [ha]
      exact named
  | @element i q ref =>
    refine .element (i := ρ .element i) ?_
    rw [h.declared.element]
    exact ref
  | @head i e q noRef heads named =>
    refine .head (i := ρ .element i) (h := ρ .element e) ?_
      (ReflTransGen.lift (ρ .element) (fun _ _ => h.head) _ _ heads) ?_
    · rw [h.declared.element]
      exact noRef
    · rw [h.declared.element]
      exact named
  | @elementType i q noRef unwritten named =>
    have he := h.declared.element i
    refine .elementType (i := ρ .element i) ?_ ?_ ?_
    · rw [he]
      exact noRef
    · rw [he, Element.rename, unwritten]
      rfl
    · rw [he]
      exact named

theorem fault {f : Failure} (hf : Fault s f) : Fault s' f := by
  cases hf with
  | unresolved sought missing => exact .unresolved (h.sought sought) (mt h.has.1 missing)
  | @noBase i m model none =>
    refine .noBase (i := ρ .complex i) (m := m.rename ρ) ?_ none
    rw [h.declared.complexType, ComplexType.rename, model]
    rfl
  | circular hc => exact .circular (h.circular hc)

/-- Either both sets can be linked or neither can. -/
theorem link_succeeds_iff (hs : s.Parsed) (hs' : s'.Parsed) :
    s'.link.2 = .ok () ↔ s.link.2 = .ok () := by
  rw [Schema.link_succeeds_iff hs, Schema.link_succeeds_iff hs']
  exact ⟨fun hno f hf => hno f (h.fault hf), fun hno f hf => hno f (h.symm.fault hf)⟩

end SchemaSet.Rearranged

end Schema
end SchemaPaths
