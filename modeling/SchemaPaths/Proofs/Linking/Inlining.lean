/-
Groups put in the place of the references to them.

Every reference to a group, in a type or in another group, can be replaced by the content of that
group, or left out if the group has none.  What comes of a particle that way is what linking makes
of it when it writes groups out.
-/
import SchemaPaths.Proofs.Linking.Contents

namespace SchemaPaths
namespace Schema

/-! ## Replacing references -/

namespace Node

mutual

/-- A particle with every reference to a group replaced, or left out.  What holds a reference is
replaced by a copy that holds something else. -/
def replaced (body : QName → Option Node) : Node → Option Node
  | .groupRef q _ => body q
  | .sequence i c o items => some (.sequence (i.writtenOut items) c o (replacedAll body items))
  | .choice i o items => some (.choice (i.writtenOut items) o (replacedAll body items))
  | n => some n

def replacedAll (body : QName → Option Node) : List Node → List Node
  | [] => []
  | n :: ns => (replaced body n).toList ++ replacedAll body ns

end

end Node

/-- The content of the group that a name means, the groups in it replaced down to some depth. -/
def SchemaSet.bodyFrom (s : SchemaSet) : Nat → QName → Option Node
  | 0, _ => none
  | fuel + 1, q => (s.group? q).bind fun g =>
    (s.declared.group g).particle.bind (Node.replaced (s.bodyFrom fuel))

/-- A particle with all groups in it replaced.  Groups that come to an end lie no deeper inside each
other than there are groups. -/
def SchemaSet.inline (s : SchemaSet) (n : Node) : Option Node :=
  n.replaced (s.bodyFrom s.declared.groups.size)

section Replacing

variable {s : SchemaSet}

theorem Node.isPlain_of_mem_some {n : Node} (hatom : n.IsAtom) (hplain : n.groupName? = none) :
    ∀ m ∈ some n, m.IsPlain := by
  rintro m ⟨⟩ a ha
  rw [Node.atoms_of_isAtom hatom, List.mem_singleton] at ha
  exact ha ▸ hplain

mutual

theorem Node.replaced_isPlain {body : QName → Option Node} (hbody : ∀ q, ∀ m ∈ body q, m.IsPlain) :
    ∀ n : Node, ∀ m ∈ n.replaced body, m.IsPlain
  | .groupRef q _ => hbody q
  | .sequence _ _ _ items => by
    rintro m ⟨⟩
    exact Node.replacedAll_isPlain hbody items
  | .choice _ _ items => by
    rintro m ⟨⟩
    exact Node.replacedAll_isPlain hbody items
  | .element _ => Node.isPlain_of_mem_some trivial rfl
  | .attr _ => Node.isPlain_of_mem_some trivial rfl
  | .type _ => Node.isPlain_of_mem_some trivial rfl
  | .any .. => Node.isPlain_of_mem_some trivial rfl
  | .content .. => Node.isPlain_of_mem_some trivial rfl
  | .derivation .. => Node.isPlain_of_mem_some trivial rfl
  | .group _ => Node.isPlain_of_mem_some trivial rfl
  | .unknown .. => Node.isPlain_of_mem_some trivial rfl

theorem Node.replacedAll_isPlain {body : QName → Option Node}
    (hbody : ∀ q, ∀ m ∈ body q, m.IsPlain) :
    ∀ ns : List Node, ∀ a ∈ Node.atomsOf (Node.replacedAll body ns), a.groupName? = none
  | [] => nofun
  | n :: ns => by
    intro a ha
    rw [Node.replacedAll, Node.atomsOf_append, Node.atomsOf_toList, List.mem_append,
      List.mem_flatMap] at ha
    rcases ha with ⟨m, hm, ha⟩ | ha
    · exact Node.replaced_isPlain hbody n m (Option.mem_toList.1 hm) a ha
    · exact Node.replacedAll_isPlain hbody ns a ha

end

theorem SchemaSet.bodyFrom_isPlain (fuel : Nat) : ∀ q, ∀ m ∈ s.bodyFrom fuel q, m.IsPlain := by
  induction fuel with
  | zero => exact nofun
  | succ fuel ih =>
    intro q m hm
    obtain ⟨g, -, hg⟩ := Option.bind_eq_some_iff.1 hm
    obtain ⟨n, -, hn⟩ := Option.bind_eq_some_iff.1 hg
    exact Node.replaced_isPlain ih n m hn

section MadeOf

variable {atom : Node → Prop} {compositor : Identity → Prop}

mutual

/-- What stands in the place of references is made of what groups are made of. -/
theorem Node.replaced_madeOf {body : QName → Option Node}
    (hbody : ∀ q, ∀ m ∈ body q, m.MadeOf atom compositor)
    (hcopy : ∀ i, compositor i → compositor (.copy i)) :
    ∀ n : Node, n.MadeOf atom compositor → ∀ m ∈ n.replaced body, m.MadeOf atom compositor
  | .groupRef q _, _ => hbody q
  | .sequence i c o items, hn => by
    obtain ⟨hi, hitems⟩ := hn.items (Node.composes_sequence c)
    rintro m ⟨⟩
    exact .compose (Node.composes_sequence c) (Identity.writtenOut_good hcopy hi)
      (Node.replacedAll_madeOf hbody hcopy items hitems)
  | .choice i o items, hn => by
    obtain ⟨hi, hitems⟩ := hn.items Node.composes_choice
    rintro m ⟨⟩
    exact .compose Node.composes_choice (Identity.writtenOut_good hcopy hi)
      (Node.replacedAll_madeOf hbody hcopy items hitems)
  | .element _, hn => by rintro m ⟨⟩; exact hn
  | .attr _, hn => by rintro m ⟨⟩; exact hn
  | .type _, hn => by rintro m ⟨⟩; exact hn
  | .any .., hn => by rintro m ⟨⟩; exact hn
  | .content .., hn => by rintro m ⟨⟩; exact hn
  | .derivation .., hn => by rintro m ⟨⟩; exact hn
  | .group _, hn => by rintro m ⟨⟩; exact hn
  | .unknown .., hn => by rintro m ⟨⟩; exact hn

theorem Node.replacedAll_madeOf {body : QName → Option Node}
    (hbody : ∀ q, ∀ m ∈ body q, m.MadeOf atom compositor)
    (hcopy : ∀ i, compositor i → compositor (.copy i)) :
    ∀ ns : List Node, (∀ n ∈ ns, n.MadeOf atom compositor) →
      ∀ m ∈ Node.replacedAll body ns, m.MadeOf atom compositor
  | [], _ => nofun
  | n :: ns, hns => by
    obtain ⟨hn, hrest⟩ := List.forall_mem_cons.1 hns
    intro m hm
    rcases List.mem_append.1 hm with hm | hm
    · exact Node.replaced_madeOf hbody hcopy n hn m (Option.mem_toList.1 hm)
    · exact Node.replacedAll_madeOf hbody hcopy ns hrest m hm

end

theorem SchemaSet.bodyFrom_madeOf
    (hgroups : ∀ g, ∀ n ∈ (s.declared.group g).particle, n.MadeOf atom compositor)
    (hcopy : ∀ i, compositor i → compositor (.copy i)) (fuel : Nat) :
    ∀ q, ∀ m ∈ s.bodyFrom fuel q, m.MadeOf atom compositor := by
  induction fuel with
  | zero => exact nofun
  | succ fuel ih =>
    intro q m hm
    obtain ⟨g, -, hg⟩ := Option.bind_eq_some_iff.1 hm
    obtain ⟨n, hn, hnm⟩ := Option.bind_eq_some_iff.1 hg
    exact Node.replaced_madeOf ih hcopy n (hgroups g n hn) m hnm

end MadeOf

theorem SchemaSet.inline_hasContent (hs : s.Closed) {o : Option Node}
    (ho : ∀ n ∈ o, s.declared.extent.HasContent n) :
    ∀ m ∈ o.bind s.inline, s.declared.extent.HasContent m := by
  intro m hm
  obtain ⟨n, hn, hnm⟩ := Option.bind_eq_some_iff.1 hm
  have hbody := bodyFrom_madeOf (fun g n hn => (hs.declared.group g n hn).2) (fun _ => id)
    s.declared.groups.size
  exact Node.replaced_madeOf hbody (fun _ => id) n (ho n hn) m hnm

/-- No references are left. -/
theorem SchemaSet.inline_isPlain (o : Option Node) : ∀ m ∈ o.bind s.inline, m.IsPlain := by
  intro m hm
  obtain ⟨n, -, hn⟩ := Option.bind_eq_some_iff.1 hm
  exact Node.replaced_isPlain (bodyFrom_isPlain _) n m hn

mutual

/-- Groups that come to an end are replaced by what they are when they are written out. -/
theorem WrittenOut.replaced (hs : s.Closed) {n : Node} {out : Option Node} : WrittenOut s n out →
    ∀ fuel, (∀ q ∈ n.groupNames, ∀ g, s.group? q = some g →
      rank (GroupUse s) s.declared.groups.size g < fuel) → n.replaced (s.bodyFrom fuel) = out
  | @WrittenOut.group _ q o g out found content, fuel, hfuel => by
    have hroom := hfuel q (List.mem_singleton.2 rfl) g found
    obtain ⟨fuel, rfl⟩ := Nat.exists_eq_add_one.2 (Nat.zero_lt_of_lt hroom)
    rw [Node.replaced, SchemaSet.bodyFrom, found, Option.bind_some]
    exact content.replaced hs fuel (Nat.lt_succ_iff.1 hroom)
  | .sequence each, fuel, hfuel => by rw [Node.replaced, each.replaced hs fuel hfuel]
  | .choice each, fuel, hfuel => by rw [Node.replaced, each.replaced hs fuel hfuel]
  | @WrittenOut.atom _ n isAtom plain, _, _ => by
    cases n <;> first | rfl | exact isAtom.elim | cases plain

theorem GroupContent.replaced (hs : s.Closed) {g : GroupId} {out : Option Node} :
    GroupContent s g out → ∀ fuel, rank (GroupUse s) s.declared.groups.size g ≤ fuel →
    (s.declared.group g).particle.bind (Node.replaced (s.bodyFrom fuel)) = out
  | .none empty, _, _ => by rw [empty, Option.bind_none]
  | @GroupContent.some _ g n out particle written, fuel, hfuel => by
    have hends : Ends (GroupUse s) g := (GroupContent.some particle written).ends
    rw [particle, Option.bind_some]
    refine written.replaced hs fuel fun q hq h hh => ?_
    have hnearer := rank_lt_rank hends ⟨n, q, particle, hq, hh⟩ (groupId_lt hs hh)
    omega

theorem AllWrittenOut.replaced (hs : s.Closed) {ns outs : List Node} : AllWrittenOut s ns outs →
    ∀ fuel, (∀ q ∈ (Node.atomsOf ns).filterMap Node.groupName?, ∀ g, s.group? q = some g →
      rank (GroupUse s) s.declared.groups.size g < fuel) →
    Node.replacedAll (s.bodyFrom fuel) ns = outs
  | .nil, _, _ => rfl
  | @AllWrittenOut.cons _ n ns outs out first rest, fuel, hfuel => by
    rw [Node.atomsOf, List.filterMap_append] at hfuel
    rw [Node.replacedAll, first.replaced hs fuel fun q hq => hfuel q (List.mem_append_left _ hq),
      rest.replaced hs fuel fun q hq => hfuel q (List.mem_append_right _ hq)]

end

theorem OptionWrittenOut.inline (hs : s.Closed) {o out : Option Node}
    (h : OptionWrittenOut s o out) : o.bind s.inline = out := by
  cases o with
  | none => exact h.symm
  | some n =>
    refine WrittenOut.replaced hs h _ fun q hq g hg => ?_
    obtain ⟨g', hg', hends⟩ := WrittenOut.ends h q hq
    rw [hg] at hg'
    cases hg'
    exact rank_lt hends (groupId_lt hs hg)

end Replacing

/-! ## Declarations with other particles -/

def ComplexType.mapParticle (f : Node → Option Node) (t : ComplexType) : ComplexType :=
  { t with
    model := t.model.map fun m => { m with particle := m.particle.bind f }
    particle := t.particle.bind f }

def Group.mapParticle (f : Node → Option Node) (g : Group) : Group :=
  { g with particle := g.particle.bind f }

/-- The declarations with something done to every particle that was declared. -/
def Declarations.mapParticles (f : Node → Option Node) (d : Declarations) : Declarations :=
  { d with
    complexTypes := d.complexTypes.map (ComplexType.mapParticle f)
    groups := d.groups.map (Group.mapParticle f) }

/-- The set with groups in the place of all references to them. -/
def SchemaSet.inlined (s : SchemaSet) : SchemaSet :=
  { s with declared := s.declared.mapParticles s.inline }

section Particles

variable {f : Node → Option Node} {d : Declarations}

theorem getD_map {α : Type} (a : Array α) (f : α → α) (fill : α) (i : Nat) (hfill : f fill = fill) :
    (a.map f).getD i fill = f (a.getD i fill) := by
  simp only [Array.getD_eq_getD_getElem?, Array.getElem?_map]
  cases a[i]? with
  | none => exact hfill.symm
  | some x => rfl

theorem complexType_mapParticles (i : ComplexId) :
    (d.mapParticles f).complexType i = (d.complexType i).mapParticle f :=
  getD_map d.complexTypes _ _ i rfl

theorem group_mapParticles (g : GroupId) :
    (d.mapParticles f).group g = (d.group g).mapParticle f := getD_map d.groups _ _ g rfl

theorem SchemaSet.complexType_inlined (s : SchemaSet) (i : ComplexId) :
    s.inlined.declared.complexType i = (s.declared.complexType i).mapParticle s.inline :=
  complexType_mapParticles i

theorem SchemaSet.group_inlined (s : SchemaSet) (g : GroupId) :
    s.inlined.declared.group g = (s.declared.group g).mapParticle s.inline := group_mapParticles g

theorem simpleType_mapParticles (i : SimpleId) :
    (d.mapParticles f).simpleType i = d.simpleType i := rfl

theorem attr_mapParticles (i : AttributeId) : (d.mapParticles f).attr i = d.attr i := rfl

theorem element_mapParticles (i : ElementId) : (d.mapParticles f).element i = d.element i := rfl

theorem ownParticle_mapParticle (t : ComplexType) :
    Linking.ownParticle (t.mapParticle f) = (Linking.ownParticle t).bind f := by
  unfold Linking.ownParticle ComplexType.mapParticle
  cases t.model <;> rfl

/-- What is filled in does not depend on the particles that were declared. -/
theorem mapParticles_modifyComplexType (i : ComplexId) {k k' : ComplexType → ComplexType}
    (hk : ∀ t, (k t).mapParticle f = k' (t.mapParticle f)) :
    (d.modifyComplexType i k).mapParticles f = (d.mapParticles f).modifyComplexType i k' := by
  have harray : (d.complexTypes.modify i k).map (ComplexType.mapParticle f) =
      (d.complexTypes.map (ComplexType.mapParticle f)).modify i k' := by
    refine Array.ext (by simp) fun j hj hj' => ?_
    rw [Array.getElem_map, Array.getElem_modify, Array.getElem_modify, Array.getElem_map]
    split
    · exact hk _
    · rfl
  unfold Declarations.modifyComplexType Declarations.mapParticles
  rw [harray]

end Particles
end Schema
end SchemaPaths
