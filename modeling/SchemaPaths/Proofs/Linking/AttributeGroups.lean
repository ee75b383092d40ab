/-
The attributes that a type declares.

They are its own and those of the attribute groups that it refers to.  Each of these references
begins a walk through the groups, depth first, that takes every group once: groups may refer to
each other in circles.
-/
import SchemaPaths.Proofs.DepthFirst
import SchemaPaths.Proofs.Linking.Whole

namespace SchemaPaths
namespace Schema

/-- The names that an attribute group refers to. -/
def innerNames (s : SchemaSet) (q : QName) : List QName :=
  match s.attributeGroup? q with
  | some g => (s.declared.attributeGroup g).attributeGroups
  | none => []

/-- The attributes written in an attribute group. -/
def groupAttributes (s : SchemaSet) (q : QName) : List AttributeId :=
  match s.attributeGroup? q with
  | some g => (s.declared.attributeGroup g).attributes
  | none => []

/-- A walk from attribute group to attribute group, one group at one place. -/
abbrev GroupWalk (s : SchemaSet) : List (Option AttributeGroupId) → List QName → List QName → Prop :=
  DepthFirst s.attributeGroup? (innerNames s)

/-- The attributes that a type declares: its own first, then those of the groups that a walk from
each of its references takes up, in their order. -/
def Declares (s : SchemaSet) (t : ComplexType) (added : List AttributeId) : Prop :=
  ∃ ways : List (List QName),
    List.Forall₂ (fun q way => GroupWalk s [] [q] way) (Linking.ownAttributes t).2 ways ∧
      added = (Linking.ownAttributes t).1 ++ ways.flatten.flatMap (groupAttributes s)

theorem Declares.unique {s : SchemaSet} {t : ComplexType} {as bs : List AttributeId}
    (h : Declares s t as) (h' : Declares s t bs) : as = bs := by
  obtain ⟨ways, hways, rfl⟩ := h
  obtain ⟨ways', hways', rfl⟩ := h'
  have hright : Relator.RightUnique fun (q : QName) way => GroupWalk s [] [q] way :=
    fun _ _ _ hw hw' => hw.unique hw'
  rw [hright.forall₂ hways hways']

/-! ## The walk that linking takes -/

theorem forall₂_of_mapM {α β : Type} {f : α → Except Failure β} {l : List α} {bs : List β}
    (h : l.mapM f = .ok bs) : List.Forall₂ (fun a b => f a = .ok b) l bs := by
  induction l generalizing bs with
  | nil =>
    cases h
    exact .nil
  | cons a l ih =>
    rw [List.mapM_cons] at h
    obtain ⟨b, hb, h⟩ := exists_of_bind h
    obtain ⟨rest, hrest, h⟩ := exists_of_bind h
    cases h
    exact .cons hb (ih hrest)

theorem exists_of_mapM {α β : Type} {f : α → Except Failure β} {l : List α} {bs : List β}
    (h : l.mapM f = .ok bs) {a : α} (ha : a ∈ l) : ∃ b, f a = .ok b := by
  replace h := forall₂_of_mapM h
  induction h with
  | nil => cases ha
  | cons hfirst _ ih =>
    rcases List.mem_cons.1 ha with rfl | ha
    · exact ⟨_, hfirst⟩
    · exact ih ha

variable {s : SchemaSet}

/-- `seen` are the names behind the places `known`. -/
theorem walk_of_attributesOfGroups (hs : s.Closed) (fuel : Nat) :
    ∀ (known : List (Option AttributeGroupId)) (seen qs : List QName) (as : List AttributeId),
      (∀ k, k ∈ known ↔ ∃ q ∈ seen, s.attributeGroup? q = k) →
      Linking.attributesOfGroups s fuel seen qs = .ok as →
      ∃ way, GroupWalk s known qs way ∧ (∀ q ∈ way, (s.attributeGroup? q).isSome) ∧
        as = way.flatMap (groupAttributes s) := by
  induction fuel with
  | zero =>
    intro known seen qs as _ hrun
    cases hrun
  | succ fuel ih =>
    intro known seen qs as hknown hrun
    cases qs with
    | nil =>
      cases hrun
      exact ⟨[], .done _, nofun, rfl⟩
    | cons q qs =>
      unfold Linking.attributesOfGroups at hrun
      split at hrun
      · rename_i hseen
        obtain ⟨way, hway, hfound, rfl⟩ := ih known seen qs as hknown hrun
        exact ⟨way, .pass ((hknown _).2 ⟨q, List.contains_iff_mem.1 hseen, rfl⟩) hway, hfound, rfl⟩
      · rename_i hseen
        obtain ⟨g, hg, hrun⟩ := exists_of_bind hrun
        obtain ⟨rest, hrest, hrun⟩ := exists_of_bind hrun
        cases hrun
        have hq : s.attributeGroup? q = some g := eq_some_of_found hg
        -- no other name leads to the group, so it is as new as its name
        have hfresh : s.attributeGroup? q ∉ known := by
          intro hmem
          obtain ⟨r, hr, hrq⟩ := (hknown _).1 hmem
          rw [attributeGroup?_inj hs (hrq.trans hq) hq] at hr
          exact hseen (List.contains_iff_mem.2 hr)
        have hknown' : ∀ k, k ∈ known ++ [s.attributeGroup? q] ↔
            ∃ r ∈ q :: seen, s.attributeGroup? r = k := by
          intro k
          rw [List.mem_append, List.mem_singleton, List.exists_mem_cons_iff, hknown k, or_comm,
            @eq_comm _ k]
        obtain ⟨way, hway, hfound, rfl⟩ := ih _ (q :: seen) _ rest hknown' hrest
        obtain ⟨below, on, rfl, hbelow, hon⟩ := hway.split
        have hinner : innerNames s q = (s.declared.attributeGroup g).attributeGroups := by
          rw [innerNames, hq]
        have hown : groupAttributes s q = (s.declared.attributeGroup g).attributes := by
          rw [groupAttributes, hq]
        refine ⟨q :: below ++ on, .take hfresh (hinner ▸ hbelow) ?_, ?_, ?_⟩
        · rwa [List.map_cons, ← List.singleton_append, ← List.append_assoc]
        · refine List.forall_mem_cons.2 ⟨?_, hfound⟩
          rw [hq]
          rfl
        · rw [List.cons_append, List.flatMap_cons, hown]

theorem walk_of_attributesOfGroup (hs : s.Closed) {q : QName} {as : List AttributeId}
    (h : Linking.attributesOfGroup s q = .ok as) :
    ∃ way, GroupWalk s [] [q] way ∧ (∀ r ∈ way, (s.attributeGroup? r).isSome) ∧
      as = way.flatMap (groupAttributes s) :=
  walk_of_attributesOfGroups hs _ [] [] [q] as (fun k => by simp) h

theorem declares_of_declaredUses (hs : s.Closed) {t : ComplexType} {added : List AttributeId}
    (h : Linking.declaredUses s t = .ok added) : Declares s t added := by
  have hways : ∀ {qs : List QName} {lists : List (List AttributeId)},
      List.Forall₂ (fun q as => Linking.attributesOfGroup s q = .ok as) qs lists →
      ∃ ways, List.Forall₂ (fun q way => GroupWalk s [] [q] way) qs ways ∧
        lists.flatten = ways.flatten.flatMap (groupAttributes s) := by
    intro qs lists hall
    induction hall with
    | nil => exact ⟨[], .nil, rfl⟩
    | cons hfirst _ ih =>
      obtain ⟨way, hway, -, rfl⟩ := walk_of_attributesOfGroup hs hfirst
      obtain ⟨ways, hrest, heq⟩ := ih
      refine ⟨way :: ways, .cons hway hrest, ?_⟩
      rw [List.flatten_cons, List.flatten_cons, List.flatMap_append, heq]
  obtain ⟨lists, hlists, h⟩ := exists_of_bind h
  cases h
  obtain ⟨ways, hall, heq⟩ := hways (forall₂_of_mapM hlists)
  exact ⟨ways, hall, congrArg _ heq⟩

/-- Linking changes nothing of that. -/
theorem Frame.declares {d : Declarations} (h : Frame s d) {i : ComplexId} {added : List AttributeId}
    (hi : Declares s (s.declared.complexType i) added) :
    Declares { s with declared := d } (d.complexType i) added := by
  have hgroup : d.attributeGroup = s.declared.attributeGroup := by
    funext g
    rw [Declarations.attributeGroup, h.attributeGroups, Declarations.attributeGroup]
  have hinner : innerNames { s with declared := d } = innerNames s := by
    funext q
    show (match s.attributeGroup? q with
      | some g => (d.attributeGroup g).attributeGroups
      | none => []) = _
    rw [hgroup, innerNames]
  have hown : groupAttributes { s with declared := d } = groupAttributes s := by
    funext q
    show (match s.attributeGroup? q with
      | some g => (d.attributeGroup g).attributes
      | none => []) = _
    rw [hgroup, groupAttributes]
  have hsame : Linking.ownAttributes (d.complexType i) =
      Linking.ownAttributes (s.declared.complexType i) :=
    (congrArg Linking.ownAttributes (h.complexType i) :)
  unfold Declares GroupWalk at hi ⊢
  rwa [hinner, hown, hsame]

end Schema
end SchemaPaths
