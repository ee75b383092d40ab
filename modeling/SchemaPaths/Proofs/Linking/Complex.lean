/-
Linking complex types.

A complex type is filled in after its base, from what the base has become by then.  Filling it in
leaves all types alone that are done with, so these stay as they were filled in.
-/
import SchemaPaths.Proofs.Linking.Groups
import SchemaPaths.Proofs.Linking.Simple
import SchemaPaths.Proofs.Linking.Uses

namespace SchemaPaths
namespace Schema

open Relation
open Linking (Progress)

variable {s : SchemaSet} {p : Progress} {i j : ComplexId} {b : TypeRef}

/-! ## Content -/

theorem atomsOf_joined (i : ComplexId) (b own : Option Node) :
    Node.atomsOf (Linking.joined i b own).toList =
      Node.atomsOf b.toList ++ Node.atomsOf own.toList := by
  cases b with
  | none => rfl
  | some b =>
    cases own with
    | none => simp [Linking.joined, Node.atomsOf]
    | some n => simp [Linking.joined, Node.atomsOf, Node.atoms]

theorem asContent_eq_some {mixed : Bool} {whole : Option Node} {n : Node}
    (h : (Linking.asContent mixed whole).2 = some n) : whole = some n := by
  unfold Linking.asContent at h
  split at h
  · exact h
  · cases h

section MadeOf

variable {atom : Node → Prop} {compositor : Identity → Prop} {base : Option ComplexType}
  {own : Option Node} {n : Node}

theorem madeOf_joined {b : Option Node} (h : Linking.joined i b own = some n)
    (hb : ∀ m ∈ b, m.MadeOf atom compositor) (hown : ∀ m ∈ own, m.MadeOf atom compositor)
    (hi : compositor (.joined i)) : n.MadeOf atom compositor := by
  rcases b with _ | b
  · exact hown n h
  · rcases own with _ | p
    · cases h
      exact hb n rfl
    · cases h
      refine .compose (Node.composes_sequence .sequence) hi fun m hm => ?_
      rcases List.mem_pair.1 hm with rfl | rfl
      · exact hb m rfl
      · exact hown m rfl

/-- Whatever content is made of comes from the base or from the type itself, but for the sequence
that the two stand in. -/
theorem madeOf_contentOf {t : ComplexType} (hn : (Linking.contentOf i t base own).2 = some n)
    (hbase : ∀ c ∈ base, ∀ m ∈ c.content, m.MadeOf atom compositor)
    (hown : ∀ m ∈ own, m.MadeOf atom compositor) (hi : compositor (.joined i)) :
    n.MadeOf atom compositor := by
  unfold Linking.contentOf at hn
  split at hn
  · cases hn
  · refine madeOf_joined (asContent_eq_some hn) (fun m hm => ?_) hown hi
    unfold Linking.extended at hm
    split at hm
    · obtain ⟨c, hc, hcm⟩ := Option.bind_eq_some_iff.1 hm
      exact hbase c hc m hcm
    · cases hm

end MadeOf

/-! ## Filling in -/

theorem complexType_modify (d : Declarations) (f : ComplexType → ComplexType) :
    (d.modifyComplexType i f).complexType j =
      if j = i ∧ i < d.complexTypes.size then f (d.complexType i) else d.complexType j :=
  getD_modify ..

theorem complexType_modify_self {d : Declarations} (hi : i < d.complexTypes.size)
    (f : ComplexType → ComplexType) :
    (d.modifyComplexType i f).complexType i = f (d.complexType i) := by
  rw [complexType_modify, if_pos ⟨rfl, hi⟩]

theorem complexType_modify_of_ne {d : Declarations} (h : j ≠ i) (f : ComplexType → ComplexType) :
    (d.modifyComplexType i f).complexType j = d.complexType j := by
  rw [complexType_modify, if_neg fun hji => h hji.1]

theorem extent_modifyComplexType (d : Declarations) (f : ComplexType → ComplexType) :
    (d.modifyComplexType i f).extent = d.extent := by
  simp [Declarations.extent, Declarations.modifyComplexType]

/-- A base other than the type itself gives what it gave before the type was changed. -/
theorem inherited_modify {d : Declarations} (h : b ≠ .complex (.declared i))
    (f : ComplexType → ComplexType) :
    Linking.inherited (d.modifyComplexType i f) b = Linking.inherited d b := by
  match b, h with
  | .simple _, _ => rfl
  | .complex .anyType, _ => rfl
  | .complex (.declared j), h =>
    have hj : j ≠ i := fun hji => h (hji ▸ rfl)
    exact congrArg some (complexType_modify_of_ne hj f)

theorem inherited_eq_some {d : Declarations} {c : ComplexType}
    (h : Linking.inherited d b = some c) :
    ∃ j, b = .complex (.declared j) ∧ c = d.complexType j := by
  match b, h with
  | .complex (.declared j), h =>
    cases h
    exact ⟨j, rfl, rfl⟩

theorem Frame.modifyComplexType {d : Declarations} {f : ComplexType → ComplexType} (h : Frame s d)
    (hf : ∀ t, (f t).asDeclared = t.asDeclared)
    (hx : d.extent.HasComplexType (f (d.complexType i))) : Frame s (d.modifyComplexType i f) := by
  have hext := extent_modifyComplexType (i := i) d f
  refine { h with closed := ?_, extent := hext.trans h.extent, complexType := fun j => ?_ }
  · refine h.closed.extend (hext ▸ Extent.le_refl _) (fun _ => .inl rfl) (fun _ => .inl rfl)
      (fun _ => .inl rfl) (fun j => ?_) (fun _ => .inl rfl) fun _ => .inl rfl
    rw [complexType_modify, hext]
    split
    · exact .inr hx
    · exact .inl rfl
  · rw [complexType_modify]
    split
    · rename_i hj
      rw [hj.1, hf]
      exact h.complexType i
    · exact h.complexType j

theorem links_modifyComplex (f : ComplexType → ComplexType) (hf : ∀ t, (f t).asDeclared = t.asDeclared)
    (hx : p.declared.extent.HasComplexType (f (p.declared.complexType i))) (hi : i ∉ p.complex) :
    Links s p (Linking.modifyComplex i f) fun p' _ =>
      p'.complex = p.complex ∧ p'.declared = p.declared.modifyComplexType i f := by
  refine .modify (fun hp => ?_) { Later.refl p with } ⟨rfl, rfl⟩
  have hsame : ∀ j ∈ p.complex,
      (p.declared.modifyComplexType i f).complexType j = p.declared.complexType j :=
    fun j hj => complexType_modify_of_ne (fun (hji : j = i) => hi (hji ▸ hj)) f
  exact { hp with
    frame := hp.frame.modifyComplexType hf hx
    simple := fun j hj => (hp.simple j hj).congr rfl
    complex := fun j hj => (hp.complex j hj).congr hj hsame }

theorem hasType_of_complexBase? (hs : s.Closed) {t : ComplexType} (h : s.complexBase? t = some b) :
    s.declared.extent.HasType b := by
  unfold SchemaSet.complexBase? at h
  split at h
  · cases h
    trivial
  · obtain ⟨q, -, hq⟩ := Option.bind_eq_some_iff.1 h
    exact hasType_of_type? hs hq

theorem links_complexBase (i : ComplexId) :
    Links s p (Linking.complexBase s (s.declared.complexType i)) fun p' b =>
      p' = p ∧ s.complexBase? (s.declared.complexType i) = some b := by
  rcases hm : (s.declared.complexType i).model with _ | m
  · simp only [Linking.complexBase, SchemaSet.complexBase?, hm]
    exact .pure ⟨rfl, rfl⟩
  · simp only [Linking.complexBase, SchemaSet.complexBase?, hm]
    rcases hq : m.base with _ | q
    · exact .fail (.apart (.noBase hm hq))
    · simp only
      rw [← bind_pure (Linking.lift _)]
      exact links_typeNamed (.complexBase hm hq) fun r hr => .pure ⟨rfl, hr⟩

/-! ## Filling in -/

section Fill

variable {d : Declarations} {own : Option Node} {added : List AttributeId}

theorem Frame.hasBase (hd : Frame s d) (hs : s.Closed)
    (hb : s.complexBase? (s.declared.complexType i) = some b) :
    d.extent.HasComplexType { d.complexType i with base := some b } := by
  refine { hd.closed.complexType i with base := fun r hr => ?_ }
  cases hr
  rw [hd.extent]
  exact hasType_of_complexBase? hs hb

/-- The content that a type is given is declared, as that of its base and its own are. -/
theorem Frame.hasContent (hd : Frame s d) (hs : s.Closed) (hi : i < s.declared.complexTypes.size)
    (hw : OptionWrittenOut s (Linking.ownParticle (s.declared.complexType i)) own)
    {contentType : ContentType} {content : Option Node}
    (hcontent : Linking.contentOf i (s.declared.complexType i) (Linking.inherited d b) own =
      (contentType, content)) :
    d.extent.HasComplexType { d.complexType i with contentType, content } := by
  refine { hd.closed.complexType i with content := fun n hn => ?_ }
  have hn' : (Linking.contentOf i (s.declared.complexType i) (Linking.inherited d b) own).2 =
      some n := by
    rw [hcontent]
    exact hn
  refine madeOf_contentOf hn' (fun c hc m hm => ?_) ?_ ?_
  · obtain ⟨j, -, rfl⟩ := inherited_eq_some hc
    exact (hd.closed.complexType j).content m hm
  · rw [hd.extent]
    exact hw.hasContent hs.declared fun n hn => ((hs.declared.complexType i).own n hn).2
  · rw [hd.extent]
    exact hi

/-- So are the attributes, though more may have been filled in since the base was looked at. -/
theorem Frame.hasUses {d' : Declarations} (hd : Frame s d) (hd' : Frame s d') (hs : s.Closed)
    (hadded : Linking.declaredUses s (s.declared.complexType i) = .ok added) :
    d'.extent.HasComplexType { d'.complexType i with
      uses := Linking.effectiveUses d (((Linking.inherited d b).map (·.uses)).getD []) added } := by
  refine { hd'.closed.complexType i with uses := fun a ha => ?_ }
  rw [hd'.extent, ← hd.extent]
  rcases mem_effectiveUses ha with ha | ha
  · rcases hc : Linking.inherited d b with _ | c
    · rw [hc] at ha
      cases ha
    · obtain ⟨j, -, rfl⟩ := inherited_eq_some hc
      rw [hc] at ha
      exact (hd.closed.complexType j).uses a ha
  · rw [hd.extent]
    exact (gives_declaredUses hs i).ok added hadded a ha

end Fill

theorem links_fillComplex (hs : s.Closed) (hi : i < s.declared.complexTypes.size)
    (hnew : i ∉ p.complex) (hb : s.complexBase? (s.declared.complexType i) = some b)
    (hafter : ∀ j, b = .complex (.declared j) → j ∈ p.complex) :
    Links s p (Linking.fillComplex s i (s.declared.complexType i) b) fun p' _ =>
      p'.complex = p.complex ∧ ∃ own added, FilledIn s p'.declared i b own added := by
  have hne : b ≠ .complex (.declared i) := fun h => hnew (hafter i h)
  have hlt : ∀ {p : Progress}, Sound s p → i < p.declared.complexTypes.size := by
    intro p hp
    rw [hp.frame.complexTypes_size]
    exact hi
  unfold Linking.fillComplex
  -- First the base,
  refine .sound fun hp => ?_
  refine (links_modifyComplex (fun t => { t with base := some b }) (fun _ => rfl)
    (hp.frame.hasBase hs hb) hnew).bind fun _ p₁ _ hp₁ => ?_
  obtain ⟨hmem₁, hdecl₁⟩ := hp₁
  have hown := fun n hn => ((hs.declared.complexType i).own n hn).2
  refine (links_expand hs p₁ hown fun n hn q hq => .content hn hq).bind fun own p₂ _ hp₂ => ?_
  obtain ⟨hsame, hwritten⟩ := hp₂
  have hdecl₂ := hsame.declared.trans hdecl₁
  have hmem₂ := hsame.complex.trans hmem₁
  -- then the content, which is the base's and the type's own,
  refine .sound fun hp₂ => .declared ?_
  rcases hcontent : Linking.contentOf i (s.declared.complexType i)
    (Linking.inherited p₂.declared b) own with ⟨contentType, content⟩
  dsimp only
  refine (links_modifyComplex (fun t => { t with contentType, content }) (fun _ => rfl)
    (hp₂.frame.hasContent hs hi hwritten hcontent) (hmem₂ ▸ hnew)).bind fun _ p₃ _ hp₃ => ?_
  obtain ⟨hmem₃, hdecl₃⟩ := hp₃
  have hmem₃ := hmem₃.trans hmem₂
  -- and last the attributes.
  refine .lift (fun added hadded => ?_) (gives_declaredUses hs i).error
  refine .sound fun hp₃ => ?_
  refine (links_modifyComplex (fun t => { t with
    uses := Linking.effectiveUses p₂.declared
      (((Linking.inherited p₂.declared b).map (·.uses)).getD []) added }) (fun _ => rfl)
    (hp₂.frame.hasUses hp₃.frame hs hadded) (hmem₃ ▸ hnew)).mono fun _ p₄ _ hp₄ => ?_
  obtain ⟨hmem₄, hdecl₄⟩ := hp₄
  refine ⟨hmem₄.trans hmem₃, own, added, ?_⟩
  have hself : p₄.declared.complexType i = { p.declared.complexType i with
      base := some b
      contentType, content
      uses := Linking.effectiveUses p₂.declared
        (((Linking.inherited p₂.declared b).map (·.uses)).getD []) added } := by
    rw [hdecl₄, complexType_modify_self (hlt hp₃), hdecl₃, complexType_modify_self (hlt hp₂),
      hdecl₂, complexType_modify_self (hlt hp)]
  have hinh : Linking.inherited p₄.declared b = Linking.inherited p₂.declared b := by
    rw [hdecl₄, inherited_modify hne, hdecl₃, inherited_modify hne]
  constructor
  · exact hb
  · rw [hself]
  · exact hwritten
  · rw [hself, hinh, hcontent]
  · exact hadded
  · rw [hself, hinh, effectiveUses_congr hp₂.frame.attr]

/-! ## Types after their bases -/

/-- Nothing about a type that is filled in later plays a part in how it is linked. -/
theorem linkedFrom_congr {t u : ComplexType} (h : t.asDeclared = u.asDeclared) :
    Linking.complexBase s t = Linking.complexBase s u ∧
      Linking.fillComplex s i t = Linking.fillComplex s i u := by
  show Linking.complexBase s t.asDeclared = Linking.complexBase s u.asDeclared ∧
    Linking.fillComplex s i t.asDeclared = Linking.fillComplex s i u.asDeclared
  rw [h]
  exact ⟨rfl, rfl⟩

/-- A base that is declared is linked first; other bases need nothing. -/
theorem links_onComplexBase (hs : s.Closed)
    (hb : s.complexBase? (s.declared.complexType i) = some b) {go : ComplexId → Linking.Link Unit}
    (hgo : ∀ j, ComplexBase s i j → j < s.declared.complexTypes.size →
      Links s p (go j) fun p' _ =>
        j ∈ p'.complex ∧ ∀ k ∈ p'.complex, k ∈ p.complex ∨ ReflTransGen (ComplexBase s) j k) :
    Links s p (Linking.onComplexBase b go) fun p' _ =>
      (∀ j, b = .complex (.declared j) → j ∈ p'.complex) ∧
        ∀ k ∈ p'.complex, k ∈ p.complex ∨ TransGen (ComplexBase s) i k := by
  match b, hb with
  | .simple _, _ => exact .pure ⟨nofun, fun k hk => .inl hk⟩
  | .complex .anyType, _ => exact .pure ⟨nofun, fun k hk => .inl hk⟩
  | .complex (.declared j), hb =>
    have hlt : j < s.declared.complexTypes.size := hasType_of_complexBase? hs hb
    refine (hgo j hb hlt).mono fun _ p' _ hp' => ⟨fun k hk => ?_, fun k hk => ?_⟩
    · cases hk
      exact hp'.1
    · exact (hp'.2 k hk).imp_right fun hway => .head' hb hway

/-- A type may be put on the account once it is filled in. -/
theorem Sound.addComplex (h : Sound s p) (hi : ComplexDone s p.declared (i :: p.complex) i) :
    Sound s { p with complex := i :: p.complex } := by
  refine { h with complex := fun k hk => ?_ }
  rcases List.mem_cons.1 hk with rfl | hk
  · exact hi
  · have hdone := h.complex k hk
    exact ⟨hdone.filled, hdone.ends, fun j hj => List.mem_cons_of_mem _ (hdone.after j hj)⟩

/-- Besides what was done with before, only the type itself and its bases are done with. -/
theorem links_complexTypeFrom (hs : s.Closed) (fuel : Nat) :
    ∀ (derived : List ComplexId) (i : ComplexId) (p : Progress),
      Above (ComplexBase s) s.declared.complexTypes.size derived i →
      i < s.declared.complexTypes.size → s.declared.complexTypes.size < fuel + derived.length →
      Links s p (Linking.complexTypeFrom s fuel derived i) fun p' _ =>
        i ∈ p'.complex ∧ ∀ k ∈ p'.complex, k ∈ p.complex ∨ ReflTransGen (ComplexBase s) i k := by
  induction fuel with
  | zero =>
    intro derived i p habove _ hfuel
    have := habove.length_le
    omega
  | succ fuel ih =>
    intro derived i p habove hi hfuel
    unfold Linking.complexTypeFrom
    refine .get ?_
    split
    · rename_i hdone
      exact .pure ⟨List.contains_iff_mem.1 hdone, fun k hk => .inl hk⟩
    · rename_i hdone
      have hnotYet : i ∉ p.complex := fun hmem => hdone (List.contains_iff_mem.2 hmem)
      refine .sound fun hp => .declared ?_
      dsimp only
      obtain ⟨hcongr, hfill⟩ := linkedFrom_congr (s := s) (i := i) (hp.frame.complexType i)
      rw [hcongr, hfill]
      refine (links_refuseAgain fun hmem => .complex (endless_of_cycle (habove.way i hmem))).bind
        fun _ p₁ _ hp₁ => ?_
      obtain ⟨rfl, hnew⟩ := hp₁
      refine (links_complexBase i).bind fun b p₂ _ hp₂ => ?_
      obtain ⟨rfl, hb⟩ := hp₂
      have hroom : s.declared.complexTypes.size < fuel + (i :: derived).length := by
        rw [List.length_cons]
        omega
      refine (links_onComplexBase hs hb fun j hstep hlt =>
        ih (i :: derived) j p₂ (habove.down hi hnew hstep) hlt hroom).bind
          fun _ p₃ _ hp₃ => .sound fun hs₃ => ?_
      obtain ⟨hafter, hbelow⟩ := hp₃
      have hstep : ∀ j, ComplexBase s i j → b = .complex (.declared j) := by
        intro j hj
        rw [ComplexBase, hb] at hj
        exact Option.some.inj hj
      have hends : Ends (ComplexBase s) i :=
        .intro fun j hj => (hs₃.complex j (hafter j (hstep j hj))).ends
      have hnew₃ : i ∉ p₃.complex := fun hmem =>
        (hbelow i hmem).elim hnotYet fun hcycle => hends.not_cycle hcycle
      refine (links_fillComplex hs hi hnew₃ hb hafter).bind fun _ p₄ _ hp₄ => ?_
      obtain ⟨hsame, own, added, hfilled⟩ := hp₄
      have hdone : ComplexDone s p₄.declared (i :: p₄.complex) i := by
        refine ⟨⟨b, own, added, hfilled⟩, hends, fun j hj => ?_⟩
        exact List.mem_cons_of_mem _ (hsame ▸ hafter j (hstep j hj))
      refine .modify (fun hs₄ => hs₄.addComplex hdone)
        { Later.refl p₄ with complex := fun _ h => List.mem_cons_of_mem _ h }
        ⟨List.mem_cons_self, fun k hk => ?_⟩
      rcases List.mem_cons.1 hk with rfl | hk
      · exact .inr .refl
      · rw [hsame] at hk
        exact (hbelow k hk).imp_right fun hway => hway.to_reflTransGen

theorem links_complexType (hs : s.Closed) (hi : i < s.declared.complexTypes.size) :
    Links s p (Linking.complexType s i) fun p' _ => i ∈ p'.complex := by
  refine .sound fun hp => .declared ?_
  rw [hp.frame.complexTypes_size]
  exact (links_complexTypeFrom hs _ [] i p .start hi (by simp)).mono fun _ _ _ h => h.1

end Schema
end SchemaPaths
