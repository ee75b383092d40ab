/-
Linking simple types.

A type is linked after its base, so the types above the one at hand are those that derive from it.
A type that is met above itself has bases that never end; all others are done with in the end.
-/
import SchemaPaths.Proofs.Linking.Progress

namespace SchemaPaths
namespace Schema

open Linking (Progress)

variable {s : SchemaSet} {p : Progress} {i j : SimpleId}

/-- The types that names lead to are declared, or need no declaration. -/
theorem hasType_of_type? (hs : s.Closed) {q : QName} {r : TypeRef} (h : s.type? q = some r) :
    s.declared.extent.HasType r := by
  unfold SchemaSet.type? at h
  split at h
  · obtain ⟨n, -, hn⟩ := Option.bind_eq_some_iff.1 h
    split at hn
    · cases hn
      trivial
    · obtain ⟨b, -, rfl⟩ := Option.map_eq_some_iff.1 hn
      trivial
  · exact hs.types (q, r) (Table.mem_of_find? h)

/-- They stand at the top of a document, too. -/
theorem isTop_of_type? (hs : s.Closed) {q : QName} {r : TypeRef} (h : s.type? q = some r) :
    s.IsTop r := by
  intro hdeclared
  unfold SchemaSet.type? at h
  split at h
  · obtain ⟨n, -, hn⟩ := Option.bind_eq_some_iff.1 h
    split at hn
    · cases hn
      exact hdeclared.elim
    · obtain ⟨b, -, rfl⟩ := Option.map_eq_some_iff.1 hn
      exact hdeclared.elim
  · obtain ⟨doc, hdoc, hr, -⟩ := hs.filed.types (q, r) (Table.mem_of_find? h)
    exact ⟨doc, hdoc, hr⟩

/-! ## Giving a type its base -/

/-- The base that a type names counts only where none is written in it. -/
theorem simpleBase?_of_unwritten (h : (s.declared.simpleType i).base = none) {q : QName}
    (hq : (s.declared.simpleType i).baseName = some q) :
    s.simpleBase? i = (s.type? q).bind TypeRef.simple? := by
  rw [SchemaSet.simpleBase?, h, hq]
  rfl

theorem simpleBase?_of_written {r : SimpleRef} (h : (s.declared.simpleType i).base = some r) :
    s.simpleBase? i = some r := by
  rw [SchemaSet.simpleBase?, h]
  rfl

theorem simpleBase?_of_noName (h : (s.declared.simpleType i).base = none)
    (hq : (s.declared.simpleType i).baseName = none) : s.simpleBase? i = none := by
  rw [SchemaSet.simpleBase?, h, hq]
  rfl

theorem Frame.baseName {d : Declarations} (h : Frame s d) (i : SimpleId) :
    (d.simpleType i).baseName = (s.declared.simpleType i).baseName := by
  show (d.simpleType i).asDeclared.baseName = (s.declared.simpleType i).asDeclared.baseName
  rw [h.simpleType i]

theorem Frame.itemName {d : Declarations} (h : Frame s d) (i : SimpleId) :
    (d.simpleType i).itemName = (s.declared.simpleType i).itemName := by
  show (d.simpleType i).asDeclared.itemName = (s.declared.simpleType i).asDeclared.itemName
  rw [h.simpleType i]

/-- A base that is there is the right one. -/
theorem Frame.simpleBase_of_some {d : Declarations} (h : Frame s d) {r : SimpleRef}
    (hr : (d.simpleType i).base = some r) : s.simpleBase? i = some r := by
  rcases h.base i with hb | hb
  · exact simpleBase?_of_written (hb ▸ hr)
  · exact hb ▸ hr

/-- Where no base is there yet, none is written in the type. -/
theorem Frame.unwritten {d : Declarations} (h : Frame s d) (hn : (d.simpleType i).base = none) :
    (s.declared.simpleType i).base = none := by
  cases hw : (s.declared.simpleType i).base with
  | none => rfl
  | some r =>
    rcases h.base i with hb | hb
    · rw [hn, hw] at hb
      cases hb
    · rw [hn, simpleBase?_of_written hw] at hb
      cases hb

theorem simpleType_modify (d : Declarations) (f : SimpleType → SimpleType) :
    (d.modifySimpleType i f).simpleType j =
      if j = i ∧ i < d.simpleTypes.size then f (d.simpleType i) else d.simpleType j :=
  getD_modify ..

theorem extent_modifySimpleType (d : Declarations) (f : SimpleType → SimpleType) :
    (d.modifySimpleType i f).extent = d.extent := by
  simp [Declarations.extent, Declarations.modifySimpleType]

section SetBase

variable {r : SimpleRef}

theorem Frame.setSimpleBase {d : Declarations} (h : Frame s d) (hr : s.simpleBase? i = some r)
    (hx : s.declared.extent.HasSimple r) :
    Frame s (d.modifySimpleType i fun t => { t with base := some r }) := by
  have hext := extent_modifySimpleType (i := i) d fun t => { t with base := some r }
  refine { h with closed := ?_, extent := hext.trans h.extent, simpleType := ?_, base := ?_ }
  · refine h.closed.extend (hext ▸ Extent.le_refl _) (fun _ => .inl rfl) (fun _ => .inl rfl)
      (fun j => ?_) (fun _ => .inl rfl) (fun _ => .inl rfl) fun _ => .inl rfl
    rw [simpleType_modify, hext]
    split
    · refine .inr ⟨fun r' hr' => ?_⟩
      cases hr'
      rw [h.extent]
      exact hx
    · exact .inl rfl
  · intro j
    rw [simpleType_modify]
    split
    · rename_i hj
      rw [hj.1]
      exact h.simpleType i
    · exact h.simpleType j
  · intro j
    rw [simpleType_modify]
    split
    · rename_i hj
      rw [hj.1]
      exact .inr hr.symm
    · exact h.base j

theorem links_setSimpleBase (hi : i < s.declared.simpleTypes.size) (hr : s.simpleBase? i = some r)
    (hx : s.declared.extent.HasSimple r) :
    Links s p (Linking.setSimpleBase i r) fun p' _ =>
      (p'.declared.simpleType i).base = s.simpleBase? i := by
  refine .sound fun hp => ?_
  have hsize := hp.frame.simpleTypes_size
  -- A base that was right before is right after.
  have hkeep : ∀ j, (p.declared.simpleType j).base = s.simpleBase? j →
      ((p.declared.modifySimpleType i fun t => { t with base := some r }).simpleType j).base =
        s.simpleBase? j := by
    intro j hj
    rw [simpleType_modify]
    split
    · rename_i hji
      rw [hji.1]
      exact hr.symm
    · exact hj
  refine .modify (fun _ => ?_) { Later.refl p with base := hkeep } ?_
  · exact { hp with
      frame := hp.frame.setSimpleBase hr hx
      simple := fun j hj => { hp.simple j hj with base := hkeep j (hp.simple j hj).base }
      complex := fun j hj => (hp.complex j hj).congr hj fun _ _ => rfl }
  · rw [simpleType_modify, if_pos ⟨rfl, hsize ▸ hi⟩]
    exact hr.symm

end SetBase

/-- A base that a type has without writing it is found under the name that the type gives. -/
theorem isSome_type?_of_simpleBase? {r : SimpleRef} (h : s.simpleBase? i = some r)
    (hwritten : (s.declared.simpleType i).base = none) :
    ∀ q ∈ (s.declared.simpleType i).baseName, (s.type? q).isSome := by
  intro q hq
  rw [simpleBase?_of_unwritten hwritten hq] at h
  obtain ⟨t, ht, -⟩ := Option.bind_eq_some_iff.1 h
  rw [ht]
  rfl

theorem links_nameSimpleBase (hs : s.Closed) (hi : i < s.declared.simpleTypes.size) :
    Links s p (Linking.nameSimpleBase s i) fun p' _ =>
      (p'.declared.simpleType i).base = s.simpleBase? i ∧
        ((s.declared.simpleType i).base = none →
          ∀ q ∈ (s.declared.simpleType i).baseName, (s.type? q).isSome) := by
  refine .sound fun hp => .declared ?_
  dsimp only
  split
  · rename_i q hnone hq
    rw [hp.frame.baseName] at hq
    have hunwritten := hp.frame.unwritten hnone
    refine links_typeNamed (.simpleBase hunwritten hq) fun r hr => ?_
    have hbase := simpleBase?_of_unwritten hunwritten hq
    rw [hr] at hbase
    have hnamed : (s.declared.simpleType i).base = none →
        ∀ q ∈ (s.declared.simpleType i).baseName, (s.type? q).isSome := by
      rintro - q' hq'
      rw [hq] at hq'
      cases hq'
      rw [hr]
      rfl
    cases r with
    | simple r =>
      exact (links_setSimpleBase hi hbase (hasType_of_type? hs hr)).mono fun _ _ _ h => ⟨h, hnamed⟩
    | complex r => exact .pure ⟨hnone.trans hbase.symm, hnamed⟩
  · rename_i hcase
    refine .pure ?_
    cases hb : (p.declared.simpleType i).base with
    | some r =>
      have hbase := hp.frame.simpleBase_of_some hb
      exact ⟨hbase.symm, isSome_type?_of_simpleBase? hbase⟩
    | none =>
      cases hq : (p.declared.simpleType i).baseName with
      | some q => exact absurd hq (hcase q hb)
      | none =>
        rw [hp.frame.baseName] at hq
        rw [hq]
        exact ⟨(simpleBase?_of_noName (hp.frame.unwritten hb) hq).symm, fun _ => nofun⟩

theorem links_onSimpleBase {go : SimpleId → Linking.Link Unit}
    (hbase : (p.declared.simpleType i).base = s.simpleBase? i)
    (hgo : ∀ j, SimpleBase s i j → Links s p (go j) fun p' _ => j ∈ p'.simple) :
    Links s p (Linking.onSimpleBase i go) fun p' _ => ∀ j, SimpleBase s i j → j ∈ p'.simple := by
  refine .declared ?_
  rw [hbase]
  split
  · rename_i j hj
    refine (hgo j hj).mono fun _ p' _ hmem k hk => ?_
    rw [SimpleBase, hj] at hk
    cases hk
    exact hmem
  · rename_i hnone
    exact .pure fun j hj => absurd hj (hnone j)

theorem links_seeType {o : Option QName} (h : ∀ q ∈ o, Sought s.withoutElements .type q) :
    Links s p (Linking.seeType s o) fun _ _ => ∀ q ∈ o, (s.type? q).isSome := by
  cases o with
  | none => exact .pure nofun
  | some q =>
    refine links_typeNamed (h q rfl) fun r hr => .pure fun q' hq' => ?_
    cases hq'
    rw [hr]
    rfl

/-! ## Types after their bases -/

theorem simpleId_lt (hs : s.Closed) (h : SimpleBase s i j) : j < s.declared.simpleTypes.size := by
  rcases hw : (s.declared.simpleType i).base with _ | r
  · rcases hq : (s.declared.simpleType i).baseName with _ | q
    · rw [SimpleBase, simpleBase?_of_noName hw hq] at h
      cases h
    · rw [SimpleBase, simpleBase?_of_unwritten hw hq] at h
      obtain ⟨r, hr, hrj⟩ := Option.bind_eq_some_iff.1 h
      cases r with
      | simple r =>
        cases hrj
        exact hasType_of_type? hs hr
      | complex r => cases hrj
  · rw [SimpleBase, simpleBase?_of_written hw] at h
    cases h
    exact (hs.declared.simpleType i).base _ hw

theorem links_simpleTypeFrom (hs : s.Closed) (fuel : Nat) :
    ∀ (derived : List SimpleId) (i : SimpleId) (p : Progress),
      Above (SimpleBase s) s.declared.simpleTypes.size derived i →
      i < s.declared.simpleTypes.size → s.declared.simpleTypes.size < fuel + derived.length →
      Links s p (Linking.simpleTypeFrom s fuel derived i) fun p' _ => i ∈ p'.simple := by
  induction fuel with
  | zero =>
    intro derived i p habove _ hfuel
    have := habove.length_le
    omega
  | succ fuel ih =>
    intro derived i p habove hi hfuel
    unfold Linking.simpleTypeFrom
    refine .get ?_
    split
    · rename_i hdone
      exact .pure (List.contains_iff_mem.1 hdone)
    · refine .sound fun hp => .declared ?_
      dsimp only
      refine (links_refuseAgain fun hmem => .simple (endless_of_cycle (habove.way i hmem))).bind
        fun _ p₁ _ hp₁ => ?_
      obtain ⟨rfl, hnew⟩ := hp₁
      refine (links_nameSimpleBase hs hi).bind fun _ p₂ _ hp₂ => ?_
      obtain ⟨hbase, hnamed⟩ := hp₂
      have hroom : s.declared.simpleTypes.size < fuel + (i :: derived).length := by
        rw [List.length_cons]
        omega
      refine (links_onSimpleBase hbase fun j hj => ih (i :: derived) j p₂
        (habove.down hi hnew hj) (simpleId_lt hs hj) hroom).bind fun _ p₃ h₃ hafter => ?_
      rw [hp.frame.itemName]
      refine (links_seeType fun q hq => .itemType hq).bind fun _ p₄ h₄ hitem => ?_
      · have hbase₄ := h₄.base i (h₃.base i hbase)
        refine .modify (fun hp₄ => ?_)
          { Later.refl p₄ with simple := fun _ h => List.mem_cons_of_mem _ h } List.mem_cons_self
        have hends : Ends (SimpleBase s) i :=
          .intro fun j hj => (hp₄.simple j (h₄.simple (hafter j hj))).ends
        have hdone : SimpleDone s p₄.declared i := ⟨hbase₄, hends, hnamed, hitem⟩
        exact { hp₄ with
          simple := fun k hk => (List.mem_cons.1 hk).elim (fun e => e ▸ hdone) (hp₄.simple k) }

theorem links_simpleType (hs : s.Closed) (hi : i < s.declared.simpleTypes.size) :
    Links s p (Linking.simpleType s i) fun p' _ => i ∈ p'.simple := by
  refine .sound fun hp => .declared ?_
  have hsize := hp.frame.simpleTypes_size
  exact links_simpleTypeFrom hs _ [] i p .start hi (by simp [hsize])

end Schema
end SchemaPaths
