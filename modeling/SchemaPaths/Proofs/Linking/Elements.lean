/-
Linking attributes and elements.

Before an element takes over the type of the head of its substitution group, its heads are followed
to their end.  Each head is one step nearer to that end, so taking over types ends as well.
-/
import SchemaPaths.Proofs.Linking.Simple

namespace SchemaPaths
namespace Schema

open Relation
open Linking (Progress)

variable {s : SchemaSet} {p : Progress}

/-! ## Attributes -/

section Attributes

variable {i : AttributeId}

theorem attr_modify {j : AttributeId} (d : Declarations) (f : Attribute → Attribute) :
    (d.modifyAttribute i f).attr j =
      if j = i ∧ i < d.attributes.size then f (d.attr i) else d.attr j :=
  getD_modify ..

theorem hasType_attrType? (hs : s.Closed) {r : TypeRef}
    (h : s.attrType? (s.declared.attr i) = some r) : s.declared.extent.HasType r := by
  unfold SchemaSet.attrType? at h
  split at h
  · rename_i t hinline
    cases h
    exact (hs.declared.attr i).inline t hinline
  · exact hasType_of_type? hs h
  · cases h
    trivial

theorem Frame.setAttributeType {d : Declarations} {r : TypeRef} (h : Frame s d)
    (href : (s.declared.attr i).ref = none) (hr : s.declared.extent.HasType r) :
    Frame s (d.modifyAttribute i fun a => { a with type := some r }) := by
  have hext : (d.modifyAttribute i fun a => { a with type := some r }).extent = d.extent := by
    simp [Declarations.extent, Declarations.modifyAttribute]
  refine { h with
    closed := ?_
    extent := hext.trans h.extent
    attr := fun j => ?_
    attrRef := fun j hj => ?_ }
  · refine h.closed.extend (hext ▸ Extent.le_refl _) (fun _ => .inl rfl) (fun j => ?_)
      (fun _ => .inl rfl) (fun _ => .inl rfl) (fun _ => .inl rfl) fun _ => .inl rfl
    rw [attr_modify, hext]
    split
    · refine .inr { h.closed.attr i with type := fun r' hr' => ?_ }
      cases hr'
      rw [h.extent]
      exact hr
    · exact .inl rfl
  · rw [attr_modify]
    split
    · rename_i hj
      rw [hj.1]
      exact h.attr i
    · exact h.attr j
  · rw [attr_modify]
    split
    · rename_i hji
      rw [hji.1, href] at hj
      cases hj
    · exact h.attrRef j hj

theorem links_setAttributeType (hs : s.Closed) {r : TypeRef} (hi : i < s.declared.attributes.size)
    (href : (s.declared.attr i).ref = none) (hr : s.attrType? (s.declared.attr i) = some r) :
    Links s p (Linking.setAttributeType i r) fun p' _ => AttributeTyped s p'.declared i := by
  refine .sound fun hp => ?_
  have hsize := hp.frame.attributes_size
  have hself : AttributeTyped s
      (p.declared.modifyAttribute i fun a => { a with type := some r }) i := by
    refine fun _ => ⟨r, hr, ?_⟩
    rw [attr_modify, if_pos ⟨rfl, hsize ▸ hi⟩]
  have hkeep : ∀ j, AttributeTyped s p.declared j → AttributeTyped s
      (p.declared.modifyAttribute i fun a => { a with type := some r }) j := by
    intro j hj
    by_cases hji : j = i
    · rw [hji]
      exact hself
    · intro hnone
      rw [attr_modify, if_neg fun h => hji h.1]
      exact hj hnone
  refine .modify (fun hp => ?_) { Later.refl p with attrType := hkeep } hself
  exact { hp with
    frame := hp.frame.setAttributeType href (hasType_attrType? hs hr)
    simple := fun j hj => (hp.simple j hj).congr rfl
    complex := fun j hj => (hp.complex j hj).congr hj fun _ _ => rfl }

theorem links_attributeType {a : Attribute} (h : ∀ q, a.inline = none → a.typeName = some q →
    Sought s.withoutElements .type q) :
    Links s p (Linking.attributeType s a) fun _ r => s.attrType? a = some r := by
  unfold Linking.attributeType SchemaSet.attrType?
  rcases hinline : a.inline with _ | t
  · rcases hq : a.typeName with _ | q
    · exact .pure rfl
    · dsimp only
      rw [← bind_pure (Linking.lift _)]
      exact links_typeNamed (h q hinline hq) fun _ hr => .pure hr
  · exact .pure rfl

/-- An attribute that refers to another has that looked up, and any other is given its type. -/
theorem links_attr (hs : s.Closed) (hi : i < s.declared.attributes.size) :
    Links s p (Linking.attr s i) fun p' _ =>
      (∀ q ∈ (s.declared.attr i).ref, (s.attr? q).isSome) ∧ AttributeTyped s p'.declared i := by
  refine .sound fun hp => .declared ?_
  dsimp only
  have hsame := hp.frame.attr i
  have href : (p.declared.attr i).ref = (s.declared.attr i).ref := (congrArg Attribute.ref hsame :)
  have htype : Linking.attributeType s (p.declared.attr i) =
      Linking.attributeType s (s.declared.attr i) := (congrArg (Linking.attributeType s) hsame :)
  rw [href, htype]
  split
  · rename_i q hq
    refine links_attrNamed (.attr hq) fun j hj => .pure ⟨fun r hr => ?_, fun hnone => ?_⟩
    · rw [hq] at hr
      cases hr
      rw [hj]
      rfl
    · rw [hq] at hnone
      cases hnone
  · rename_i hnone
    refine (links_attributeType fun q hinline hq => .attributeType hnone hinline hq).bind
      fun r p' _ hr => ?_
    refine (links_setAttributeType hs hi hnone hr).mono fun _ _ _ htyped => ⟨fun q hq => ?_, htyped⟩
    rw [hnone] at hq
    cases hq

end Attributes

/-! ## Heads -/

section Elements

variable {i j : ElementId}

theorem elementId_lt (hs : s.Closed) {q : QName} (h : s.element? q = some i) :
    i < s.declared.elements.size :=
  hs.elements (q, i) (Table.mem_of_find? h)

theorem head_lt (hs : s.Closed) (h : Head s i j) : j < s.declared.elements.size := by
  obtain ⟨q, -, hj⟩ := h
  exact elementId_lt hs hj

theorem ends_of_no_head (h : (s.declared.element i).substitution = none) : Ends (Head s) i := by
  refine .intro fun j hj => ?_
  obtain ⟨q, hq, -⟩ := hj
  rw [h] at hq
  cases hq

theorem HeadsEnd.of_no_head (h : (s.declared.element i).substitution = none) : HeadsEnd s i where
  ends := ends_of_no_head h
  found k hk q hq := by
    rcases hk.cases_head with rfl | ⟨j, ⟨r, hr, -⟩, -⟩
    · rw [h] at hq
      cases hq
    · rw [h] at hr
      cases hr

/-- Heads are there and come to an end if those of the head do. -/
theorem HeadsEnd.of_head (hij : Head s i j) (h : HeadsEnd s j) : HeadsEnd s i where
  ends := h.ends.of_step fun _ hk => head_unique hij hk
  found k hk q hq := by
    rcases hk.cases_head with rfl | ⟨j', hj', hk⟩
    · obtain ⟨r, hr, hj⟩ := hij
      rw [hr] at hq
      cases hq
      rw [hj]
      rfl
    · rw [head_unique hij hj'] at hk
      exact h.found k hk q hq

theorem HeadsEnd.of_heads (hij : ReflTransGen (Head s) i j) (h : HeadsEnd s j) : HeadsEnd s i := by
  induction hij using ReflTransGen.head_induction_on with
  | refl => exact h
  | head hstep _ ih => exact ih.of_head hstep

/-- The heads are those of an element that is no reference and has no type yet. -/
theorem links_checkHeads (hs : s.Closed) {e : ElementId} (hnew : (s.declared.element e).type = none)
    (he : (s.declared.element e).ref = none) (fuel : Nat) : ∀ (seen : List ElementId) (i : ElementId) (p : Progress),
      Above (Head s) s.declared.elements.size seen i → i < s.declared.elements.size →
      ReflTransGen (Head s) e i → s.declared.elements.size < fuel + seen.length →
      Links s p (Linking.checkHeads s fuel seen i) fun p' _ => Untouched p p' ∧ HeadsEnd s i := by
  induction fuel with
  | zero =>
    intro seen i p habove _ _ hfuel
    have := habove.length_le
    omega
  | succ fuel ih =>
    intro seen i p habove hi hway hfuel
    unfold Linking.checkHeads
    refine .get (.sound fun hp => ?_)
    split
    · rename_i hnone
      have hends : HeadsEnd s i := by
        split at hnone
        · rename_i hmem
          exact hp.headed i (List.contains_iff_mem.1 hmem)
        · exact .of_no_head hnone
      refine .modify (fun _ => ?_) { Later.refl p with } ⟨⟨rfl, rfl, rfl⟩, hends⟩
      refine { hp with headed := fun k hk => ?_ }
      rcases List.mem_append.1 hk with hk | hk
      · exact hends.of_heads (habove.way k hk).to_reflTransGen
      · exact hp.headed k hk
    · rename_i q hq
      have hq : (s.declared.element i).substitution = some q := by
        split at hq
        · cases hq
        · exact hq
      split
      · rename_i hmem
        have hcycle := habove.way i (List.contains_iff_mem.1 hmem)
        exact .fail (.heads hnew he ((endless_of_cycle hcycle).of_steps hway))
      · rename_i hmem
        have hunseen : i ∉ seen := fun h => hmem (List.contains_iff_mem.2 h)
        refine links_elementNamed (.head hnew he hway hq) fun h hh => ?_
        have hstep : Head s i h := ⟨q, hq, hh⟩
        refine (ih (i :: seen) h p (habove.down hi hunseen hstep) (elementId_lt hs hh)
          (hway.tail hstep) ?_).mono fun _ p' _ hp' => ⟨hp'.1, ?_⟩
        · rw [List.length_cons]
          omega
        · exact hp'.2.of_head hstep

theorem links_headOf (hs : s.Closed) (hi : i < s.declared.elements.size)
    (hnew : (s.declared.element i).type = none) (href : (s.declared.element i).ref = none) :
    Links s p (Linking.headOf s i (s.declared.element i).substitution) fun p' o =>
      Untouched p p' ∧ HeadsEnd s i ∧
        (∀ h ∈ o, Head s i h) ∧ (o = none → (s.declared.element i).substitution = none) := by
  rcases hq : (s.declared.element i).substitution with _ | q
  · exact .pure ⟨.refl p, .of_no_head hq, nofun, fun _ => rfl⟩
  · refine (links_checkHeads hs hnew href _ [] i p .start hi .refl (by simp)).bind
      fun _ p' _ hp' => ?_
    refine links_elementNamed (.head hnew href .refl hq) fun h hh => .pure ⟨hp'.1, hp'.2, ?_, nofun⟩
    rintro k ⟨⟩
    exact ⟨q, hq, hh⟩

/-! ## Elements -/

/-- An element was gone through: what it refers to is there, or else its heads are in order. -/
structure Visited (s : SchemaSet) (i : ElementId) : Prop where
  ref : ∀ q ∈ (s.declared.element i).ref, (s.element? q).isSome
  headed : (s.declared.element i).ref = none → Headed s i

theorem Visited.of_noRef (href : (s.declared.element i).ref = none) (hheaded : Headed s i) :
    Visited s i := by
  refine ⟨fun q hq => ?_, fun _ => hheaded⟩
  rw [href] at hq
  cases hq

theorem links_reference {q : QName} (hq : (s.declared.element i).ref = some q) :
    Links s p (do let _ ← Linking.lift (s.element q)) fun p' _ => p' = p ∧ Visited s i := by
  refine links_elementNamed (.reference hq) fun j hj => .pure ⟨rfl, fun r hr => ?_, fun hnone => ?_⟩
  · rw [hq] at hr
    cases hr
    rw [hj]
    rfl
  · rw [hq] at hnone
    cases hnone

theorem element_modify (d : Declarations) (f : Element → Element) :
    (d.modifyElement i f).element j =
      if j = i ∧ i < d.elements.size then f (d.element i) else d.element j :=
  getD_modify ..

section SetType

variable {o : Option TypeRef}

theorem Frame.setElementType {d : Declarations} (h : Frame s d)
    (hx : ∀ r ∈ o, d.extent.HasType r) (hgiven : ∀ r ∈ o, s.IsGiven r) (htype : ElementType s i o)
    (href : (s.declared.element i).ref = none) (hheaded : Headed s i) :
    Frame s (d.modifyElement i fun e => { e with type := o }) := by
  have hext : (d.modifyElement i fun e => { e with type := o }).extent = d.extent := by
    simp [Declarations.extent, Declarations.modifyElement]
  refine { h with
    closed := ?_
    extent := hext.trans h.extent
    element := fun j => ?_
    elementType := fun j => ?_
    typed := fun j hj => ?_
    given := fun j r hr => ?_ }
  · refine h.closed.extend (hext ▸ Extent.le_refl _) (fun j => ?_) (fun _ => .inl rfl)
      (fun _ => .inl rfl) (fun _ => .inl rfl) (fun _ => .inl rfl) fun _ => .inl rfl
    rw [element_modify, hext]
    split
    · exact .inr { h.closed.element i with type := hx }
    · exact .inl rfl
  · rw [element_modify]
    split
    · rename_i hj
      rw [hj.1]
      exact h.element i
    · exact h.element j
  · rw [element_modify]
    split
    · rename_i hj
      rw [hj.1]
      exact .inr htype
    · exact h.elementType j
  · rw [element_modify] at hj
    split at hj
    · rename_i hji
      rw [hji.1]
      exact ⟨href, hheaded⟩
    · exact h.typed j hj
  · rw [element_modify] at hr
    split at hr
    · exact hgiven r hr
    · exact h.given j r hr

theorem links_setElementType (hi : i < s.declared.elements.size)
    (hx : ∀ r ∈ o, s.declared.extent.HasType r ∧ s.IsGiven r) (htype : ElementType s i o)
    (href : (s.declared.element i).ref = none) (hheaded : Headed s i) :
    Links s p (Linking.setElementType i o) fun p' _ =>
      Visited s i ∧ ElementType s i (p'.declared.element i).type := by
  refine .sound fun hp => ?_
  have hself : ElementType s i
      ((p.declared.modifyElement i fun e => { e with type := o }).element i).type := by
    rw [element_modify, if_pos ⟨rfl, hp.frame.elements_size ▸ hi⟩]
    exact htype
  have hkeep : ∀ j, ElementType s j (p.declared.element j).type → ElementType s j
      ((p.declared.modifyElement i fun e => { e with type := o }).element j).type := by
    intro j hj
    by_cases hji : j = i
    · rw [hji]
      exact hself
    · rw [element_modify, if_neg fun h => hji h.1]
      exact hj
  refine .modify (fun hp => ?_) { Later.refl p with elementType := hkeep }
    ⟨.of_noRef href hheaded, hself⟩
  have hdeclared : ∀ r ∈ o, p.declared.extent.HasType r := by
    rw [hp.frame.extent]
    exact fun r hr => (hx r hr).1
  exact { hp with
    frame := hp.frame.setElementType hdeclared (fun r hr => (hx r hr).2) htype href hheaded
    simple := fun j hj => (hp.simple j hj).congr rfl
    complex := fun j hj => (hp.complex j hj).congr hj fun _ _ => rfl }

end SetType

/-- What has its type already has its own. -/
theorem Frame.elementType_of_isSome {d : Declarations} (h : Frame s d)
    (ht : (d.element i).type.isSome) : ElementType s i (d.element i).type := by
  rcases h.elementType i with heq | htype
  · obtain ⟨t, ht⟩ := Option.isSome_iff_exists.1 ht
    rw [ht] at heq ⊢
    exact .kept heq.symm
  · exact htype

/-- What has no type yet had none before. -/
theorem Frame.new {d : Declarations} (h : Frame s d) (ht : (d.element i).type = none) :
    (s.declared.element i).type = none := by
  rcases h.elementType i with heq | htype
  · rw [← heq, ht]
  · rw [ht] at htype
    cases htype with
    | reference new => exact new
    | taken new => exact new

theorem links_elementFrom (hs : s.Closed) (fuel : Nat) : ∀ (i : ElementId) (p : Progress),
    i < s.declared.elements.size → 0 < fuel →
    (Ends (Head s) i → rank (Head s) s.declared.elements.size i < fuel) →
    Links s p (Linking.elementFrom s fuel i) fun p' _ =>
      Visited s i ∧ ElementType s i (p'.declared.element i).type := by
  induction fuel with
  | zero => exact fun i p _ hpos _ => absurd hpos (Nat.lt_irrefl 0)
  | succ fuel ih =>
    intro i p hi _ hrank
    unfold Linking.elementFrom
    refine .sound fun hp => .declared ?_
    dsimp only
    have hsame := hp.frame.element i
    have href : (p.declared.element i).ref = (s.declared.element i).ref := (congrArg Element.ref hsame :)
    have hinline : (p.declared.element i).inline = (s.declared.element i).inline :=
      (congrArg Element.inline hsame :)
    have hname : (p.declared.element i).typeName = (s.declared.element i).typeName :=
      (congrArg Element.typeName hsame :)
    have hsub : (p.declared.element i).substitution = (s.declared.element i).substitution :=
      (congrArg Element.substitution hsame :)
    rw [href, hinline, hname, hsub]
    split
    · rename_i htyped
      obtain ⟨hnone, hheaded⟩ := hp.frame.typed i htyped
      exact .pure ⟨.of_noRef hnone hheaded, hp.frame.elementType_of_isSome htyped⟩
    · rename_i huntyped
      have htype : (p.declared.element i).type = none := by simpa using huntyped
      have hnew := hp.frame.new htype
      split
      · rename_i q hq
        refine (links_reference hq).mono fun _ p' _ hp' => ⟨hp'.2, ?_⟩
        rw [hp'.1, htype]
        exact .reference hnew hq
      · rename_i hnone
        refine (links_headOf hs hi hnew hnone).bind fun head p₁ _ hp₁ => ?_
        obtain ⟨-, hends, hhead, hheadless⟩ := hp₁
        have hheaded : Headed s i := ⟨hends.found i .refl, fun _ => hends⟩
        have hset : ∀ r, s.declared.extent.HasType r ∧ s.IsGiven r → ElementType s i (some r) →
            ∀ p, Links s p (Linking.setElementType i (some r)) fun p' _ =>
              Visited s i ∧ ElementType s i (p'.declared.element i).type := by
          intro r hr htype p
          refine links_setElementType hi (fun r' hr' => ?_) htype hnone hheaded
          cases hr'
          exact hr
        split
        · rename_i r hr
          obtain ⟨htype, hname⟩ := (hs.nested.element i).inline r hr
          exact hset r ⟨htype, .inl hname⟩ (.written hnew hnone hr) p₁
        · rename_i q _ hwritten hq
          exact links_found (.elementType hnew hnone hwritten hq) fun r hr =>
            hset r ⟨hasType_of_type? hs hr, .inr (isTop_of_type? hs hr)⟩
              (.named hnew hnone hwritten hq hr) p₁
        · rename_i h hwritten hunnamed
          have hstep : Head s i h := hhead h rfl
          have hlt : h < s.declared.elements.size := head_lt hs hstep
          have hnearer := rank_lt_rank hends.ends hstep hlt
          have hroom := hrank hends.ends
          split
          · rename_i hself
            rw [eq_of_beq hself] at hstep
            exact absurd (.single hstep) hends.ends.not_cycle
          · refine (ih h p₁ hlt (by omega) fun _ => by omega).bind fun _ p₂ _ hp₂ => ?_
            refine .sound fun hs₂ => .declared ?_
            refine links_setElementType hi (fun r hr => ?_)
              (.taken hnew hnone hwritten hunnamed hstep hp₂.2) hnone hheaded
            refine ⟨?_, hs₂.frame.given h r hr⟩
            rw [← hs₂.frame.extent]
            exact (hs₂.frame.closed.element h).type r hr
        · rename_i hwritten hunnamed
          exact hset anyType ⟨trivial, .inr nofun⟩
            (.any hnew hnone hwritten hunnamed (hheadless rfl)) p₁

theorem links_element (hs : s.Closed) (hi : i < s.declared.elements.size) :
    Links s p (Linking.element s i) fun p' _ =>
      Visited s i ∧ ElementType s i (p'.declared.element i).type := by
  refine .sound fun hp => .declared ?_
  rw [hp.frame.elements_size]
  exact links_elementFrom hs _ i p hi (Nat.succ_pos _) fun h => Nat.lt_succ_of_lt (rank_lt h hi)

end Elements
end Schema
end SchemaPaths
