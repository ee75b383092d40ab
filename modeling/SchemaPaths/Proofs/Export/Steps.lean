/-
The steps of a walk for paths.

From a type on, a walk that watches nothing meets the elements of its content from left to right and
then its attributes, however the content is put together.
-/
import SchemaPaths.Export.Paths
import SchemaPaths.Export.Root
import SchemaPaths.Proofs.Walk.Walkable

namespace SchemaPaths
namespace Export
namespace Paths

open Schema Walk

/-- Only the elements among atoms make a step. -/
def leafSteps (atoms : List Node) : List Step := (atoms.filterMap Node.element?).map .element

theorem leafSteps_append (a b : List Node) : leafSteps (a ++ b) = leafSteps a ++ leafSteps b := by
  rw [leafSteps, List.filterMap_append, List.map_append]
  rfl

variable {s : SchemaSet}

theorem nodeSteps_leaf {opened : Node → List Step} {n : Node} (hn : n.IsLeaf) :
    nodeSteps s [] opened n = leafSteps [n] := by
  cases n with
  | element e => simp [nodeSteps, sighting?_nil, notedOr, leafSteps, Node.element?]
  | any i w => simp [nodeSteps, sighting?_nil, notedOr, leafSteps, Node.element?]
  | _ => exact hn.elim

end Paths
end Export

namespace Schema

open Export.Paths Walk

variable {s : SchemaSet}

theorem Extent.HasAtom.isLeaf {x : Extent} {a : Node} (h : x.HasAtom a)
    (plain : a.groupName? = none) : a.IsLeaf := by
  cases a with
  | element e => trivial
  | any i w => trivial
  | groupRef q o => cases plain
  | _ => exact h.elim

/-! ## Groups in content -/

/-- The groups of a set, as far as a walk comes to them: those that names stand for are declared,
and so is what they hold. -/
structure SchemaSet.HoldsGroups (s : SchemaSet) : Prop where
  found : ∀ {q g}, s.group? q = some g → g < s.declared.groups.size
  atoms : ∀ g, ∀ n ∈ (s.declared.group g).particle, ∀ a ∈ n.atoms, s.declared.extent.HasAtom a

theorem SchemaSet.Closed.holdsGroups (hs : s.Closed) : s.HoldsGroups where
  found := groupId_lt hs
  atoms g n hn := (hs.declared.group g n hn).2.atoms

theorem SchemaSet.Walkable.content_isLeaf (hw : s.Walkable) {i : ComplexId} {n : Node}
    (hn : (s.declared.complexType i).content = some n) : ∀ a ∈ n.atoms, a.IsLeaf := fun a ha =>
  (((hw.closed.declared.complexType i).content n hn).atoms a ha).isLeaf (hw.plain i n hn a ha)

mutual

/-- A walk meets in a particle what is left of it when its groups are written out. -/
theorem WrittenOut.steps (hs : s.HoldsGroups) {n : Node} {out : Option Node} : WrittenOut s n out →
    ∀ fuel, (∀ q ∈ n.groupNames, ∀ g, s.group? q = some g →
      rank (GroupUse s) s.declared.groups.size g < fuel) →
    (∀ a ∈ n.atoms, s.declared.extent.HasAtom a) →
    nodeSteps s [] (stepsFrom s [] fuel) n = leafSteps (Node.atomsOf out.toList)
  | @WrittenOut.group _ q o g out found content, fuel, hfuel, _ => by
    have hq : q ∈ (Node.groupRef q o).groupNames := List.mem_singleton.2 rfl
    rw [nodeSteps, sighting?_nil, notedOr, groupSteps, found]
    exact content.steps hs fuel (hfuel q hq g found)
  | @WrittenOut.sequence _ i c o items outs each, fuel, hfuel, hn => by
    rw [nodeSteps, sighting?_nil, notedOr, each.steps hs fuel hfuel hn, Option.toList, Node.atomsOf,
      Node.atomsOf, Node.atoms, List.append_nil]
  | @WrittenOut.choice _ i o items outs each, fuel, hfuel, hn => by
    rw [nodeSteps, sighting?_nil, notedOr, each.steps hs fuel hfuel hn, Option.toList, Node.atomsOf,
      Node.atomsOf, Node.atoms, List.append_nil]
  | @WrittenOut.atom _ n isAtom plain, fuel, _, hn => by
    have hatoms := Node.atoms_of_isAtom isAtom
    have hatom : s.declared.extent.HasAtom n := hn n (by rw [hatoms]; exact List.mem_singleton_self n)
    rw [nodeSteps_leaf (hatom.isLeaf plain), Option.toList, Node.atomsOf, Node.atomsOf, hatoms,
      List.append_nil]

theorem GroupContent.steps (hs : s.HoldsGroups) {g : GroupId} {out : Option Node} :
    GroupContent s g out → ∀ fuel, rank (GroupUse s) s.declared.groups.size g < fuel →
    (s.declared.group g).particle.toList.flatMap (stepsFrom s [] fuel) =
      leafSteps (Node.atomsOf out.toList)
  | .none empty, _, _ => by
    rw [empty]
    rfl
  | @GroupContent.some _ g n out particle written, 0, hfuel => absurd hfuel (Nat.not_lt_zero _)
  | @GroupContent.some _ g n out particle written, fuel + 1, hfuel => by
    have hends : Ends (GroupUse s) g := (GroupContent.some particle written).ends
    rw [particle, Option.toList, List.flatMap_singleton, stepsFrom]
    refine written.steps hs fuel (fun q hq h hh => ?_) (hs.atoms g n particle)
    have hnearer := rank_lt_rank hends ⟨n, q, particle, hq, hh⟩ (hs.found hh)
    omega

theorem AllWrittenOut.steps (hs : s.HoldsGroups) {ns outs : List Node} : AllWrittenOut s ns outs →
    ∀ fuel, (∀ q ∈ (Node.atomsOf ns).filterMap Node.groupName?, ∀ g, s.group? q = some g →
      rank (GroupUse s) s.declared.groups.size g < fuel) →
    (∀ a ∈ Node.atomsOf ns, s.declared.extent.HasAtom a) →
    listSteps s [] (stepsFrom s [] fuel) ns = leafSteps (Node.atomsOf outs)
  | .nil, _, _, _ => rfl
  | @AllWrittenOut.cons _ n ns outs out first rest, fuel, hfuel, hns => by
    rw [Node.atomsOf, List.filterMap_append] at hfuel
    rw [Node.atomsOf] at hns
    have hfirst := first.steps hs fuel (fun q hq => hfuel q (List.mem_append_left _ hq))
      fun a ha => hns a (List.mem_append_left _ ha)
    have hrest := rest.steps hs fuel (fun q hq => hfuel q (List.mem_append_right _ hq))
      fun a ha => hns a (List.mem_append_right _ ha)
    rw [listSteps, hfirst, hrest, Node.atomsOf_append, leafSteps_append]

end

/-! ## Content without groups -/

mutual

theorem Node.IsPlain.written : ∀ {n : Node}, n.IsPlain → WrittenOut s n (some n)
  | .sequence i c o items, h => by
    have hwritten : WrittenOut s (.sequence i c o items)
        (some (.sequence (i.writtenOut items) c o items)) := .sequence (Node.writtenItems items h)
    rwa [Identity.writtenOut_of_plain h] at hwritten
  | .choice i o items, h => by
    have hwritten : WrittenOut s (.choice i o items)
        (some (.choice (i.writtenOut items) o items)) := .choice (Node.writtenItems items h)
    rwa [Identity.writtenOut_of_plain h] at hwritten
  | .groupRef _ _, h => nomatch h _ (List.mem_singleton.2 rfl)
  | .element _, _ => .atom trivial rfl
  | .attr _, _ => .atom trivial rfl
  | .type _, _ => .atom trivial rfl
  | .any .., _ => .atom trivial rfl
  | .content .., _ => .atom trivial rfl
  | .derivation .., _ => .atom trivial rfl
  | .group _, _ => .atom trivial rfl
  | .unknown .., _ => .atom trivial rfl

theorem Node.writtenItems : ∀ ns : List Node,
    (∀ a ∈ Node.atomsOf ns, a.groupName? = none) → AllWrittenOut s ns ns
  | [], _ => .nil
  | n :: ns, h => by
    have hfirst : n.IsPlain := fun a ha => h a (List.mem_append_left _ ha)
    have hrest := Node.writtenItems ns fun a ha => h a (List.mem_append_right _ ha)
    exact AllWrittenOut.cons hfirst.written hrest

end

end Schema

/-! ## Types -/

namespace Export
namespace Paths

open Schema Walk

/-- The elements in the content of a type, from left to right. -/
def leavesOf (d : Declarations) : TypeRef → List ElementId
  | .simple _ => []
  | .complex r => (d.complex r).content.toList.flatMap Node.leaves

def usesOf (d : Declarations) : TypeRef → List AttributeId
  | .simple _ => []
  | .complex r => (d.complex r).uses

variable {s : SchemaSet} {t : TypeRef}

theorem lt_of_mem_leavesOf (hs : s.Closed) {e : ElementId} (h : e ∈ leavesOf s.declared t) :
    e < s.declared.elements.size := by
  match t, h with
  | .complex (.declared i), h =>
    obtain ⟨n, hn, he⟩ := List.mem_flatMap.1 h
    obtain ⟨a, ha, hae⟩ := List.mem_filterMap.1 he
    have hatom := ((hs.declared.complexType i).content n (Option.mem_toList.1 hn)).atoms a ha
    cases a with
    | element e' =>
      cases hae
      exact hatom
    | _ => cases hae

theorem lt_of_mem_usesOf (hs : s.Closed) {a : AttributeId} (h : a ∈ usesOf s.declared t) :
    a < s.declared.attributes.size := by
  match t, h with
  | .complex (.declared i), h => exact (hs.declared.complexType i).uses a h

theorem leafSteps_leaves (o : Option Node) :
    leafSteps (Node.atomsOf o.toList) = (o.toList.flatMap Node.leaves).map .element := by
  cases o with
  | none => rfl
  | some n => simp [leafSteps, Node.atomsOf, Node.leaves]

theorem openingBound_eq (d : Declarations) :
    openingBound d = d.complexTypes.size + d.groups.size + 1 + 1 := rfl

theorem stepsFrom_written (hs : s.HoldsGroups) {n : Node} {out : Option Node}
    (hout : WrittenOut s n out) (hn : ∀ a ∈ n.atoms, s.declared.extent.HasAtom a) :
    stepsFrom s [] (s.declared.complexTypes.size + s.declared.groups.size + 1) n =
      leafSteps (Node.atomsOf out.toList) := by
  rw [stepsFrom]
  refine hout.steps hs _ (fun q hq g hg => ?_) hn
  obtain ⟨g', hg', hends⟩ := hout.ends q hq
  rw [hg] at hg'
  cases hg'
  have := rank_lt hends (hs.found hg)
  omega

/-- What a walk meets in the content of a type, or else in its particle. -/
theorem steps_inner (hw : s.Walkable) (i : ComplexId) :
    (Outline.inner (s.declared.complexType i)).toList.flatMap
        (stepsFrom s [] (s.declared.complexTypes.size + s.declared.groups.size + 1)) =
      ((s.declared.complexType i).content.toList.flatMap Node.leaves).map .element := by
  have hclosed := hw.closed.declared.complexType i
  rcases hcontent : (s.declared.complexType i).content with _ | n
  · have hinner : Outline.inner (s.declared.complexType i) = (s.declared.complexType i).particle := by
      simp [Outline.inner, hcontent]
    rw [hinner]
    rcases hparticle : (s.declared.complexType i).particle with _ | n
    · rfl
    · obtain ⟨out, hout, hnone⟩ := hw.empty i hcontent n hparticle
      have hn := (hclosed.own n (hclosed.own_of_particle hparticle).2).2.atoms
      rw [Option.toList_some, List.flatMap_singleton,
        stepsFrom_written hw.closed.holdsGroups hout hn, hnone]
      rfl
  · have hlisted := hw.listed i (by rw [hcontent]; rfl)
    have hinner : Outline.inner (s.declared.complexType i) = some n := by
      simp [Outline.inner, hcontent, hlisted]
    rw [hinner, Option.toList_some, List.flatMap_singleton, stepsFrom_written
      hw.closed.holdsGroups (hw.plain i n hcontent).written (hclosed.content n hcontent).atoms,
      leafSteps_leaves]
    rfl

theorem steps_element (e : ElementId) : steps s [] (.element e) = [.element e] := by
  rw [steps, openingBound_eq, stepsFrom, nodeSteps, sighting?_nil, notedOr]

theorem steps_simple (s : SchemaSet) (r : SimpleRef) : steps s [] (.type (.simple r)) = [] := by
  rw [steps, openingBound_eq, stepsFrom, nodeSteps, sighting?_nil, notedOr]

theorem steps_anyType (s : SchemaSet) : steps s [] (.type (.complex .anyType)) = [] := by
  rw [steps, openingBound_eq, stepsFrom, nodeSteps, sighting?_nil, notedOr]
  rfl

theorem steps_declared (s : SchemaSet) (i : ComplexId) :
    steps s [] (.type (.complex (.declared i))) =
      (Outline.inner (s.declared.complexType i)).toList.flatMap
          (stepsFrom s [] (s.declared.complexTypes.size + s.declared.groups.size + 1)) ++
        (s.declared.complexType i).uses.map .attr := by
  have hone : attrSteps s.declared [] = fun a => [Step.attr a] := by
    funext a
    rw [attrSteps, sighting?_nil, notedOr]
  rw [steps, openingBound_eq, stepsFrom, nodeSteps, sighting?_nil, notedOr, typeSteps, hone,
    ← List.map_eq_flatMap]
  rfl

theorem steps_type (hw : s.Walkable) (t : TypeRef) :
    steps s [] (.type t) =
      (leavesOf s.declared t).map .element ++ (usesOf s.declared t).map .attr := by
  match t with
  | .simple r => exact steps_simple s r
  | .complex .anyType => exact steps_anyType s
  | .complex (.declared i) =>
    rw [steps_declared, steps_inner hw i]
    rfl

end Paths
end Export
end SchemaPaths
