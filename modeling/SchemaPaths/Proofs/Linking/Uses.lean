/-
The attributes of a complex type.

Attribute groups may refer to each other in circles, and each is opened once.  A name leads to one
group and two names never lead to the same, so the references in the groups that are not opened yet
bound the names that are still to come.
-/
import Mathlib.Algebra.BigOperators.Group.Finset.Basic
import Mathlib.Algebra.GroupWithZero.Nat
import SchemaPaths.Proofs.Linking.Progress

namespace SchemaPaths
namespace Schema

open Linking (Uses)

/-! ## Results worked out without the account -/

/-- What a result is when there is one, and that the set gives the reason when there is none. -/
structure Gives {α : Type} (s : SchemaSet) (r : Except Failure α) (good : α → Prop) : Prop where
  ok : ∀ a, r = .ok a → good a
  error : ∀ e, r = .error e → Due s e

namespace Gives

variable {α β : Type} {s : SchemaSet} {r : Except Failure α} {f : α → Except Failure β}
  {good : α → Prop} {good' : β → Prop}

theorem pure {a : α} (h : good a) : Gives s (.ok a) good where
  ok b hb := by
    cases hb
    exact h
  error _ he := by cases he

theorem fail {e : Failure} (h : Due s e) : Gives s (.error e) good where
  ok _ ha := by cases ha
  error e' he' := by
    cases he'
    exact h

theorem bind (h : Gives s r good) (hf : ∀ a, good a → Gives s (f a) good') :
    Gives s (r >>= f) good' := by
  cases r with
  | ok a => exact hf a (h.ok a rfl)
  | error e => exact .fail (h.error e rfl)

theorem mapM {l : List α} {good : β → Prop} (h : ∀ a ∈ l, Gives s (f a) good) :
    Gives s (l.mapM f) fun bs => ∀ b ∈ bs, good b := by
  induction l with
  | nil => exact .pure nofun
  | cons a l ih =>
    rw [List.mapM_cons]
    refine (h a List.mem_cons_self).bind fun b hb => ?_
    refine (ih fun c hc => h c (List.mem_cons_of_mem _ hc)).bind fun bs hbs => ?_
    refine .pure fun c hc => ?_
    rcases List.mem_cons.1 hc with rfl | hc
    · exact hb
    · exact hbs c hc

end Gives

/-! ## Attribute groups -/

/-- How many references to other groups an attribute group holds. -/
def references (d : Declarations) (g : AttributeGroupId) : Nat :=
  (d.attributeGroup g).attributeGroups.length

theorem sum_range_getD {α : Type} (l : List α) (fill : α) (f : α → Nat) :
    ∑ i ∈ Finset.range l.length, f (l.getD i fill) = (l.map f).sum := by
  induction l with
  | nil => rfl
  | cons a l ih =>
    rw [List.length_cons, Finset.sum_range_succ', List.map_cons, List.sum_cons, Nat.add_comm, ← ih]
    rfl

theorem groupReferenceCount_eq (d : Declarations) :
    Linking.groupReferenceCount d =
      ∑ g ∈ Finset.range d.attributeGroups.size, references d g := by
  have hfold : ∀ (l : List AttributeGroup) (n : Nat),
      l.foldl (fun n g => n + g.attributeGroups.length) n =
        n + (l.map fun g => g.attributeGroups.length).sum := by
    intro l
    induction l with
    | nil => exact fun _ => rfl
    | cons g l ih =>
      intro n
      rw [List.foldl_cons, ih, List.map_cons, List.sum_cons, Nat.add_assoc]
  rw [Linking.groupReferenceCount, ← Array.foldl_toList, hfold, Nat.zero_add,
    ← sum_range_getD _ {}, Array.length_toList]
  refine Finset.sum_congr rfl fun g _ => ?_
  rw [references, Declarations.attributeGroup, Array.getD_eq_getD_getElem?, List.getD_eq_getElem?_getD,
    Array.getElem?_toList]

variable {s : SchemaSet}

theorem attributesOfGroups_congr {s' : SchemaSet} (hfound : s'.attributeGroups = s.attributeGroups)
    (hgroups : s'.declared.attributeGroups = s.declared.attributeGroups) (fuel : Nat)
    (seen qs : List QName) :
    Linking.attributesOfGroups s' fuel seen qs = Linking.attributesOfGroups s fuel seen qs := by
  induction fuel generalizing seen qs with
  | zero => rfl
  | succ fuel ih =>
    cases qs with
    | nil => rfl
    | cons q qs =>
      simp only [Linking.attributesOfGroups, SchemaSet.attributeGroup, SchemaSet.attributeGroup?,
        Declarations.attributeGroup, hfound, hgroups, ih]

/-- The attributes of a group depend on the groups only. -/
theorem attributesOfGroup_congr {s' : SchemaSet} (hfound : s'.attributeGroups = s.attributeGroups)
    (hgroups : s'.declared.attributeGroups = s.declared.attributeGroups) :
    Linking.attributesOfGroup s' = Linking.attributesOfGroup s := by
  funext q
  rw [Linking.attributesOfGroup, attributesOfGroups_congr hfound hgroups,
    Linking.groupReferenceCount, hgroups]
  rfl

theorem attributeGroupId_lt (hs : s.Closed) {q : QName} {g : AttributeGroupId}
    (h : s.attributeGroup? q = some g) : g < s.declared.attributeGroups.size :=
  (hs.attributeGroups (q, g) (Table.mem_of_find? h)).1

/-- An attribute group goes by one name only. -/
theorem attributeGroup?_inj (hs : s.Closed) {q r : QName} {g : AttributeGroupId}
    (hq : s.attributeGroup? q = some g) (hr : s.attributeGroup? r = some g) : q = r :=
  (hs.attributeGroups (q, g) (Table.mem_of_find? hq)).2.trans
    (hs.attributeGroups (r, g) (Table.mem_of_find? hr)).2.symm

/-- `left` are the groups that are not opened yet, or more. -/
theorem gives_attributesOfGroups (hs : s.Closed) (fuel : Nat) :
    ∀ (seen qs : List QName) (left : Finset Nat),
    (∀ q ∈ qs, Sought s.withoutElements .attrGroup q) →
    (∀ q, q ∉ seen → ∀ g, s.attributeGroup? q = some g → g ∈ left) →
    qs.length + ∑ g ∈ left, references s.declared g < fuel →
    Gives s (Linking.attributesOfGroups s fuel seen qs) fun as =>
      ∀ a ∈ as, a < s.declared.attributes.size := by
  induction fuel with
  | zero =>
    intro seen qs left _ _ hfuel
    omega
  | succ fuel ih =>
    intro seen qs left hsought hleft hfuel
    cases qs with
    | nil => exact .pure nofun
    | cons q qs =>
      have hqs : ∀ r ∈ qs, Sought s.withoutElements .attrGroup r := fun r hr => hsought r (List.mem_cons_of_mem _ hr)
      rw [List.length_cons] at hfuel
      unfold Linking.attributesOfGroups
      split
      · exact ih seen qs left hqs hleft (by omega)
      · rename_i hseen
        have hnew : q ∉ seen := fun hmem => hseen (List.contains_iff_mem.2 hmem)
        have hq : Sought s.withoutElements .attrGroup q := hsought q List.mem_cons_self
        cases hfound : s.attributeGroup? q with
        | none =>
          rw [SchemaSet.attributeGroup, hfound]
          exact .fail (.unresolved hq (by simp [SchemaSet.Has, hfound]))
        | some g =>
          rw [SchemaSet.attributeGroup, hfound]
          show Gives s (Linking.attributesOfGroups s fuel (q :: seen)
            ((s.declared.attributeGroup g).attributeGroups ++ qs) >>= _) _
          have hg : g ∈ left := hleft q hnew g hfound
          have hsum := Finset.add_sum_erase left (references s.declared) hg
          refine (ih (q :: seen) _ (left.erase g) ?_ ?_ ?_).bind fun rest hrest => .pure ?_
          · intro r hr
            rcases List.mem_append.1 hr with hr | hr
            · exact .innerAttributeGroup hq hfound hr
            · exact hqs r hr
          · intro r hr h hh
            rw [List.mem_cons, not_or] at hr
            refine Finset.mem_erase.2 ⟨?_, hleft r hr.2 h hh⟩
            rintro rfl
            exact hr.1 (attributeGroup?_inj hs hh hfound)
          · rw [List.length_append]
            have : references s.declared g = (s.declared.attributeGroup g).attributeGroups.length := rfl
            omega
          · intro a ha
            rcases List.mem_append.1 ha with ha | ha
            · exact hs.declared.attributeGroup g a ha
            · exact hrest a ha

theorem gives_attributesOfGroup (hs : s.Closed) {q : QName} (hq : Sought s.withoutElements .attrGroup q) :
    Gives s (Linking.attributesOfGroup s q) fun as => ∀ a ∈ as, a < s.declared.attributes.size := by
  refine gives_attributesOfGroups hs _ [] [q] (Finset.range s.declared.attributeGroups.size)
    (fun r hr => List.mem_singleton.1 hr ▸ hq) (fun r _ g hg => ?_) ?_
  · exact Finset.mem_range.2 (attributeGroupId_lt hs hg)
  · rw [groupReferenceCount_eq, List.length_singleton]
    omega

theorem gives_declaredUses (hs : s.Closed) (i : ComplexId) :
    Gives s (Linking.declaredUses s (s.declared.complexType i)) fun as =>
      ∀ a ∈ as, a < s.declared.attributes.size := by
  unfold Linking.declaredUses
  dsimp only
  refine (Gives.mapM fun q hq => gives_attributesOfGroup hs (.attributeGroup hq)).bind
    fun fromGroups hgroups => .pure ?_
  intro a ha
  rcases List.mem_append.1 ha with ha | ha
  · exact (hs.declared.complexType i).attributes a ha
  · obtain ⟨as, has, ha⟩ := List.mem_flatten.1 ha
    exact hgroups as has a ha

/-! ## Effective attributes -/

theorem mem_putUse {key : Option String} {a : AttributeId} {u : Option String × AttributeId}
    {us : Uses} (h : u ∈ Linking.putUse key a us) : u.2 = a ∨ u ∈ us := by
  induction us with
  | nil => exact .inl (List.mem_singleton.1 h ▸ rfl)
  | cons v us ih =>
    obtain ⟨k, b⟩ := v
    rw [Linking.putUse] at h
    split at h
    · rcases List.mem_cons.1 h with rfl | h
      · exact .inl rfl
      · exact .inr (List.mem_cons_of_mem _ h)
    · rcases List.mem_cons.1 h with rfl | h
      · exact .inr List.mem_cons_self
      · exact (ih h).imp_right (List.mem_cons_of_mem _)

theorem mem_addUse {d : Declarations} {us : Uses} {a : AttributeId}
    {u : Option String × AttributeId} (h : u ∈ Linking.addUse d us a) : u.2 = a ∨ u ∈ us := by
  unfold Linking.addUse at h
  dsimp only at h
  split at h
  · exact .inr (List.mem_filter.1 h).1
  · exact mem_putUse h

theorem mem_effectiveUses {d : Declarations} {before added : List AttributeId} {a : AttributeId}
    (h : a ∈ Linking.effectiveUses d before added) : a ∈ before ∨ a ∈ added := by
  have hfold : ∀ (added : List AttributeId) (us : Uses), ∀ u ∈ added.foldl (Linking.addUse d) us,
      u.2 ∈ us.map (·.2) ∨ u.2 ∈ added := by
    intro added
    induction added with
    | nil => exact fun us u hu => .inl (List.mem_map.2 ⟨u, hu, rfl⟩)
    | cons b added ih =>
      intro us u hu
      rcases ih _ u hu with hu | hu
      · obtain ⟨v, hv, hvu⟩ := List.mem_map.1 hu
        rcases mem_addUse hv with hb | hv
        · exact .inr (by rw [← hvu, hb]; exact List.mem_cons_self)
        · exact .inl (List.mem_map.2 ⟨v, hv, hvu⟩)
      · exact .inr (List.mem_cons_of_mem _ hu)
  obtain ⟨u, hu, rfl⟩ := List.mem_map.1 h
  have := hfold added _ u hu
  simpa [List.map_map, Function.comp_def] using this

/-- Effective attributes are a matter of what was declared alone. -/
theorem effectiveUses_congr {d d' : Declarations}
    (h : ∀ i, (d.attr i).asDeclared = (d'.attr i).asDeclared) :
    Linking.effectiveUses d = Linking.effectiveUses d' := by
  have hkey : ∀ i, Linking.useKey (d.attr i) = Linking.useKey (d'.attr i) := by
    intro i
    show Linking.useKey (d.attr i).asDeclared = Linking.useKey (d'.attr i).asDeclared
    rw [h i]
  have hadd : Linking.addUse d = Linking.addUse d' := by
    funext us i
    have huse : (d.attr i).use = (d'.attr i).use := by
      show (d.attr i).asDeclared.use = (d'.attr i).asDeclared.use
      rw [h i]
    unfold Linking.addUse
    rw [hkey, huse]
  funext before added
  unfold Linking.effectiveUses
  simp only [hadd, hkey]

end Schema
end SchemaPaths
