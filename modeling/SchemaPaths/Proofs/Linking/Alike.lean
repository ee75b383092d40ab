/-
What linking finds out about declarations in other places.

Linking goes through the declarations in their order, links a type when something derived from it
comes up and an element when it heads another, and writes a group out when something refers to it.
None of this shows in the end.  What becomes of a declaration is determined by the set, so of two sets
that differ in the places of their declarations alone the declarations come out the same.
-/
import SchemaPaths.Proofs.Linking.Rearranging

namespace SchemaPaths
namespace Schema

open Relation Renaming

variable {s s' : SchemaSet} {ρ σ : Renaming}

/-! ## Content -/

section Content

mutual

theorem WrittenOut.rename (h : s.Rearranged ρ σ s') {n : Node} {out : Option Node} :
    WrittenOut s n out → WrittenOut s' (n.rename ρ) (out.map (·.rename ρ))
  | .group found content => .group (by rw [h.group?, found]; rfl) (content.rename h)
  | .sequence each => by
    rw [Option.map_some, Node.rename, Node.rename, ← Identity.writtenOut_rename]
    exact .sequence (each.rename h)
  | .choice each => by
    rw [Option.map_some, Node.rename, Node.rename, ← Identity.writtenOut_rename]
    exact .choice (each.rename h)
  | .atom isAtom plain =>
    .atom (Node.isAtom_rename ρ isAtom) ((Node.groupName?_rename ρ _).trans plain)

theorem GroupContent.rename (h : s.Rearranged ρ σ s') {g : GroupId} {out : Option Node} :
    GroupContent s g out → GroupContent s' (ρ .group g) (out.map (·.rename ρ))
  | .none empty => .none (by rw [h.declared.group, Group.rename, empty]; rfl)
  | .some particle written =>
    .some (by rw [h.declared.group, Group.rename, particle]; rfl) (written.rename h)

theorem AllWrittenOut.rename (h : s.Rearranged ρ σ s') {ns outs : List Node} :
    AllWrittenOut s ns outs → AllWrittenOut s' (Node.renameAll ρ ns) (Node.renameAll ρ outs)
  | .nil => .nil
  | @AllWrittenOut.cons _ n ns outs out first rest => by
    have hsplit : Node.renameAll ρ (out.toList ++ outs) =
        (out.map (·.rename ρ)).toList ++ Node.renameAll ρ outs := by cases out <;> rfl
    rw [hsplit]
    exact .cons (first.rename h) (rest.rename h)

end

mutual

/-- There is one way to write groups out. -/
theorem WrittenOut.unique {n : Node} {out out' : Option Node} :
    WrittenOut s n out → WrittenOut s n out' → out' = out
  | .group found content, .group found' content' => by
    rw [found] at found'
    cases found'
    exact content.unique content'
  | .sequence each, .sequence each' => by rw [each.unique each']
  | .choice each, .choice each' => by rw [each.unique each']
  | .atom .., .atom .. => rfl
  | .group .., .atom _ plain => by cases plain
  | .atom _ plain, .group .. => by cases plain
  | .sequence _, .atom isAtom _ => isAtom.elim
  | .atom isAtom _, .sequence _ => isAtom.elim
  | .choice _, .atom isAtom _ => isAtom.elim
  | .atom isAtom _, .choice _ => isAtom.elim

theorem GroupContent.unique {g : GroupId} {out out' : Option Node} :
    GroupContent s g out → GroupContent s g out' → out' = out
  | .none _, .none _ => rfl
  | .none empty, .some particle _ => by
    rw [empty] at particle
    cases particle
  | .some particle _, .none empty => by
    rw [empty] at particle
    cases particle
  | .some particle written, .some particle' written' => by
    rw [particle] at particle'
    cases particle'
    exact written.unique written'

theorem AllWrittenOut.unique {ns outs outs' : List Node} :
    AllWrittenOut s ns outs → AllWrittenOut s ns outs' → outs' = outs
  | .nil, .nil => rfl
  | .cons first rest, .cons first' rest' => by rw [first.unique first', rest.unique rest']

end

theorem OptionWrittenOut.rename (h : s.Rearranged ρ σ s') {o out : Option Node}
    (hw : OptionWrittenOut s o out) :
    OptionWrittenOut s' (o.map (·.rename ρ)) (out.map (·.rename ρ)) := by
  cases o with
  | none =>
    rw [show out = none from hw]
    rfl
  | some n => exact WrittenOut.rename h hw

theorem OptionWrittenOut.unique {o out out' : Option Node} (h : OptionWrittenOut s o out)
    (h' : OptionWrittenOut s o out') : out' = out := by
  cases o with
  | none => exact h'.trans h.symm
  | some n => exact WrittenOut.unique h h'

theorem joined_rename (ρ : Renaming) (i : ComplexId) (base own : Option Node) :
    Linking.joined (ρ .complex i) (base.map (·.rename ρ)) (own.map (·.rename ρ)) =
      (Linking.joined i base own).map (·.rename ρ) := by
  cases base <;> cases own <;> rfl

theorem asContent_rename (ρ : Renaming) (mixed : Bool) (whole : Option Node) :
    Linking.asContent mixed (whole.map (·.rename ρ)) =
      ((Linking.asContent mixed whole).1, (Linking.asContent mixed whole).2.map (·.rename ρ)) := by
  have hitems : (whole.map (·.rename ρ)).any (fun p => !p.items.isEmpty) =
      whole.any fun p => !p.items.isEmpty := by
    cases whole with
    | none => rfl
    | some p => simp [Node.items_rename]
  unfold Linking.asContent
  rw [hitems]
  split <;> rfl

theorem contentOf_rename (ρ : Renaming) (i : ComplexId) (t : ComplexType)
    (base : Option ComplexType) (own : Option Node) :
    Linking.contentOf (ρ .complex i) (t.rename ρ) (base.map (·.rename ρ)) (own.map (·.rename ρ)) =
      ((Linking.contentOf i t base own).1,
        (Linking.contentOf i t base own).2.map (·.rename ρ)) := by
  have hmodel : (t.rename ρ).model = t.model.map (·.rename ρ) := rfl
  have hmixed : (t.rename ρ).mixed = t.mixed := rfl
  rcases hm : t.model with _ | ⟨simple, mixed, derivation, _, _, _, _⟩
  · simp only [Linking.contentOf, Linking.extended, hmodel, hmixed, hm, Option.map_none,
      Option.any_none, Bool.false_eq_true, if_false]
    rw [← asContent_rename, ← joined_rename]
    rfl
  · cases simple with
    | true => simp only [Linking.contentOf, hmodel, hm, Option.map_some, Derived.rename,
        Option.map_none]
    | false =>
      have hextended : Linking.extended (t.rename ρ) (base.map (·.rename ρ)) =
          (Linking.extended t base).map (·.rename ρ) := by
        simp only [Linking.extended, hmodel, hm, Option.map_some, Option.any_some, Derived.rename]
        split
        · cases base <;> rfl
        · rfl
      simp only [Linking.contentOf, hmodel, hmixed, hm, Option.map_some, Option.any_some,
        Derived.rename, hextended]
      rw [joined_rename, asContent_rename]

end Content

/-! ## Attributes -/

section Uses

theorem useKey_rename (ρ : Renaming) (a : Attribute) :
    Linking.useKey (a.rename ρ) = Linking.useKey a := rfl

theorem putUse_map (f : AttributeId → AttributeId) (key : Option String) (a : AttributeId)
    (us : Linking.Uses) :
    Linking.putUse key (f a) (us.map fun u => (u.1, f u.2)) =
      (Linking.putUse key a us).map fun u => (u.1, f u.2) := by
  induction us with
  | nil => rfl
  | cons u us ih =>
    rw [List.map_cons, Linking.putUse, Linking.putUse]
    split
    · rfl
    · rw [ih, List.map_cons]

theorem effectiveUses_rename {d d' : Declarations} (h : d.Rearranged ρ σ d')
    (before added : List AttributeId) :
    Linking.effectiveUses d' (before.map (ρ .attr)) (added.map (ρ .attr)) =
      (Linking.effectiveUses d before added).map (ρ .attr) := by
  have hadd (us : Linking.Uses) (a : AttributeId) :
      Linking.addUse d' (us.map fun u => (u.1, ρ .attr u.2)) (ρ .attr a) =
        (Linking.addUse d us a).map fun u => (u.1, ρ .attr u.2) := by
    have huse : ((d.attr a).rename ρ).use = (d.attr a).use := rfl
    unfold Linking.addUse
    rw [h.attr, useKey_rename, huse]
    dsimp only
    split
    · rw [List.filter_map]
      rfl
    · rw [putUse_map]
  have hfold (us : Linking.Uses) :
      (added.map (ρ .attr)).foldl (Linking.addUse d') (us.map fun u => (u.1, ρ .attr u.2)) =
        (added.foldl (Linking.addUse d) us).map fun u => (u.1, ρ .attr u.2) := by
    induction added generalizing us with
    | nil => rfl
    | cons a added ih => rw [List.map_cons, List.foldl_cons, List.foldl_cons, hadd, ih]
  have hbefore : (before.map (ρ .attr)).map (fun a => (Linking.useKey (d'.attr a), a)) =
      (before.map fun a => (Linking.useKey (d.attr a), a)).map fun u => (u.1, ρ .attr u.2) := by
    rw [List.map_map, List.map_map]
    refine List.map_congr_left fun a _ => ?_
    simp only [Function.comp_apply, h.attr, useKey_rename]
  rw [Linking.effectiveUses, hbefore, hfold, Linking.effectiveUses, List.map_map, List.map_map]
  rfl

theorem groupReferenceCount_rearranged {d d' : Declarations} (h : d.Rearranged ρ σ d') :
    Linking.groupReferenceCount d' = Linking.groupReferenceCount d := by
  have hsize : d'.attributeGroups.size = d.attributeGroups.size :=
    congrArg Extent.attributeGroups h.extent
  rw [groupReferenceCount_eq, groupReferenceCount_eq, hsize]
  refine (Finset.sum_nbij' (ρ .attributeGroup) (σ .attributeGroup) (fun i hi => ?_) (fun i hi => ?_)
    (fun i _ => h.back_apply _ i) (fun i _ => h.forth_apply _ i) fun i _ => ?_).symm
  · exact Finset.mem_range.2 ((h.within .attributeGroup i).2 (Finset.mem_range.1 hi))
  · have hlt := (h.symm.within .attributeGroup i).2
    rw [h.extent] at hlt
    exact Finset.mem_range.2 (hlt (Finset.mem_range.1 hi))
  · rw [references, references, h.attributeGroup]
    rfl

theorem attributesOfGroups_rearranged (h : s.Rearranged ρ σ s') (fuel : Nat)
    (seen qs : List QName) :
    Linking.attributesOfGroups s' fuel seen qs =
      (Linking.attributesOfGroups s fuel seen qs).map (List.map (ρ .attr)) := by
  induction fuel generalizing seen qs with
  | zero => rfl
  | succ fuel ih =>
    cases qs with
    | nil => rfl
    | cons q qs =>
      rw [Linking.attributesOfGroups, Linking.attributesOfGroups]
      split
      · exact ih seen qs
      · rw [SchemaSet.attributeGroup, SchemaSet.attributeGroup, h.attributeGroup?]
        cases s.attributeGroup? q with
        | none => rfl
        | some g =>
          have hinner : (s'.declared.attributeGroup (ρ .attributeGroup g)).attributeGroups =
              (s.declared.attributeGroup g).attributeGroups := by
            rw [h.declared.attributeGroup]
            rfl
          have hattributes : (s'.declared.attributeGroup (ρ .attributeGroup g)).attributes =
              (s.declared.attributeGroup g).attributes.map (ρ .attr) := by
            rw [h.declared.attributeGroup]
            rfl
          simp only [Option.map_some, SchemaSet.found, bind, Except.bind, hinner, hattributes, ih]
          cases Linking.attributesOfGroups s fuel (q :: seen)
            ((s.declared.attributeGroup g).attributeGroups ++ qs) with
          | error e => rfl
          | ok rest => exact congrArg Except.ok (List.map_append ..).symm

theorem mapM_map {α β γ ε : Type} {f : α → Except ε β} {f' : α → Except ε γ} {g : β → γ}
    (hf : ∀ a, f' a = (f a).map g) (l : List α) : l.mapM f' = (l.mapM f).map (List.map g) := by
  induction l with
  | nil => rfl
  | cons a l ih =>
    rw [List.mapM_cons, List.mapM_cons, hf, ih]
    cases f a with
    | error e => rfl
    | ok b =>
      cases l.mapM f with
      | error e => rfl
      | ok bs => rfl

theorem declaredUses_rearranged (h : s.Rearranged ρ σ s') (t : ComplexType) :
    Linking.declaredUses s' (t.rename ρ) =
      (Linking.declaredUses s t).map (List.map (ρ .attr)) := by
  have hgroup (q : QName) : Linking.attributesOfGroup s' q =
      (Linking.attributesOfGroup s q).map (List.map (ρ .attr)) := by
    rw [Linking.attributesOfGroup, groupReferenceCount_rearranged h.declared]
    exact attributesOfGroups_rearranged h _ [] [q]
  unfold Linking.declaredUses
  rw [ownAttributes_rename]
  simp only [mapM_map hgroup]
  cases (Linking.ownAttributes t).2.mapM (Linking.attributesOfGroup s) with
  | error e => rfl
  | ok bs =>
    refine congrArg Except.ok ?_
    rw [List.map_append, List.map_flatten]

end Uses

/-! ## Linked declarations -/

section Declared

theorem Element.eq_of_asDeclared {e e' : Element} (h : e.asDeclared = e'.asDeclared)
    (htype : e.type = e'.type) : e = e' := by
  cases e
  cases e'
  simp_all [Element.asDeclared]

theorem Attribute.eq_of_asDeclared {a a' : Attribute} (h : a.asDeclared = a'.asDeclared)
    (htype : a.type = a'.type) : a = a' := by
  cases a
  cases a'
  simp_all [Attribute.asDeclared]

theorem SimpleType.eq_of_asDeclared {t t' : SimpleType} (h : t.asDeclared = t'.asDeclared)
    (hbase : t.base = t'.base) : t = t' := by
  cases t
  cases t'
  simp_all [SimpleType.asDeclared]

theorem ComplexType.eq_of_asDeclared {t t' : ComplexType} (h : t.asDeclared = t'.asDeclared)
    (hbase : t.base = t'.base) (hcontent : (t.contentType, t.content) = (t'.contentType, t'.content))
    (huses : t.uses = t'.uses) : t = t' := by
  cases t
  cases t'
  simp_all [ComplexType.asDeclared]

theorem ElementType.rename (h : s.Rearranged ρ σ s') {i : ElementId} {o : Option TypeRef}
    (ht : ElementType s i o) : ElementType s' (ρ .element i) (o.map (·.rename ρ)) := by
  have hdeclared := h.declared.element
  induction ht with
  | kept before => exact .kept (by rw [hdeclared, Element.rename, before]; rfl)
  | reference new ref =>
    exact .reference (by rw [hdeclared, Element.rename, new]; rfl) (by rw [hdeclared]; exact ref)
  | written new noRef written =>
    exact .written (by rw [hdeclared, Element.rename, new]; rfl) (by rw [hdeclared]; exact noRef)
      (by rw [hdeclared, Element.rename, written]; rfl)
  | named new noRef unwritten named found =>
    exact .named (by rw [hdeclared, Element.rename, new]; rfl) (by rw [hdeclared]; exact noRef)
      (by rw [hdeclared, Element.rename, unwritten]; rfl) (by rw [hdeclared]; exact named)
      (by rw [h.type?, found]; rfl)
  | taken new noRef unwritten unnamed head _ ih =>
    exact .taken (by rw [hdeclared, Element.rename, new]; rfl) (by rw [hdeclared]; exact noRef)
      (by rw [hdeclared, Element.rename, unwritten]; rfl) (by rw [hdeclared]; exact unnamed)
      (h.head head) ih
  | any new noRef unwritten unnamed headless =>
    exact .any (by rw [hdeclared, Element.rename, new]; rfl) (by rw [hdeclared]; exact noRef)
      (by rw [hdeclared, Element.rename, unwritten]; rfl) (by rw [hdeclared]; exact unnamed)
      (by rw [hdeclared]; exact headless)

variable {d d' : Declarations}

/-- A type is filled in from the same, whichever place it has. -/
theorem FilledIn.agree (h : s.Rearranged ρ σ s') {i : ComplexId} {b b' : TypeRef}
    {own own' : Option Node} {added added' : List AttributeId} (hf : FilledIn s d i b own added)
    (hf' : FilledIn s' d' (ρ .complex i) b' own' added') :
    b' = b.rename ρ ∧ own' = own.map (·.rename ρ) ∧ added' = added.map (ρ .attr) := by
  have hsame := h.declared.complexType i
  refine ⟨?_, ?_, ?_⟩
  · have hnamed := hf'.named
    rw [hsame, h.complexBase?, hf.named] at hnamed
    exact (Option.some.inj hnamed).symm
  · have hwritten := hf'.written
    rw [hsame, ownParticle_rename] at hwritten
    exact (hf.written.rename h).unique hwritten
  · have hdeclared := hf'.declared
    rw [hsame, declaredUses_rearranged h, hf.declared] at hdeclared
    exact (Except.ok.inj hdeclared).symm

namespace Linked

variable (h : s.Rearranged ρ σ s') (hl : Linked s d) (hl' : Linked s' d')
include h hl hl'

theorem extent_rearranged : d'.extent = d.extent := by
  rw [hl'.frame.extent, hl.frame.extent, h.declared.extent]

theorem lt_iff_rearranged (k : Family) (i : Nat) :
    ρ k i < d'.extent.count k ↔ i < d.extent.count k := by
  rw [hl'.frame.extent, hl.frame.extent]
  exact h.declared.lt_iff k i

/-- Places without a declaration are left alone. -/
theorem getD_rearranged {α : Type} {a a' : Array α} {fill : α} {rename : α → α} {k : Family}
    {i : Nat} (ha : a.size = d.extent.count k) (ha' : a'.size = d'.extent.count k)
    (hi : ¬ i < s.declared.extent.count k) (hfill : rename fill = fill) :
    a'.getD (ρ k i) fill = rename (a.getD i fill) := by
  rw [← hl.frame.extent, ← lt_iff_rearranged h hl hl', ← ha'] at hi
  have hi' := hi
  rw [ha', lt_iff_rearranged h hl hl', ← ha] at hi'
  rw [getD_of_le (Nat.not_lt.1 hi), getD_of_le (Nat.not_lt.1 hi'), hfill]

theorem element_rearranged (i : ElementId) : d'.element (ρ .element i) = (d.element i).rename ρ := by
  by_cases hi : i < s.declared.elements.size
  · refine Element.eq_of_asDeclared ?_ ?_
    · rw [hl'.frame.element, h.declared.element]
      exact congrArg (Element.rename ρ) (hl.frame.element i).symm
    · have htype := (hl.elementType i hi).rename h
      exact htype.unique (hl'.elementType _ ((h.declared.lt_iff .element i).2 hi))
  · exact getD_rearranged h hl hl' rfl rfl hi rfl

theorem attr_rearranged (i : AttributeId) : d'.attr (ρ .attr i) = (d.attr i).rename ρ := by
  by_cases hi : i < s.declared.attributes.size
  · refine Attribute.eq_of_asDeclared ?_ ?_
    · rw [hl'.frame.attr, h.declared.attr]
      exact congrArg (Attribute.rename ρ) (hl.frame.attr i).symm
    · have hattr := h.declared.attr i
      rcases href : (s.declared.attr i).ref with _ | q
      · obtain ⟨t, ht, htype⟩ := hl.attrType i hi href
        obtain ⟨t', ht', htype'⟩ := hl'.attrType _ ((h.declared.lt_iff .attr i).2 hi)
          (by rw [hattr]; exact href)
        rw [hattr, h.attrType?, ht] at ht'
        rw [htype', ← ht', ← htype]
        rfl
      · -- a reference is left as it was
        have hleft := hl.frame.attrRef i (by rw [href]; rfl)
        have hleft' := hl'.frame.attrRef (ρ .attr i) (by rw [hattr]; exact Option.isSome_of_eq_some href)
        rw [hleft', hattr]
        exact congrArg (Option.map (·.rename ρ)) hleft.symm
  · exact getD_rearranged h hl hl' rfl rfl hi rfl

theorem simpleType_rearranged (i : SimpleId) :
    d'.simpleType (ρ .simple i) = (d.simpleType i).rename ρ := by
  refine SimpleType.eq_of_asDeclared ?_ ?_
  · rw [hl'.frame.simpleType, h.declared.simpleType]
    exact congrArg (SimpleType.rename ρ) (hl.frame.simpleType i).symm
  · rw [(hl'.simpleDone _).base, h.simpleBase?, ← (hl.simpleDone i).base]
    rfl

theorem complexType_rearranged (i : ComplexId) :
    d'.complexType (ρ .complex i) = (d.complexType i).rename ρ := by
  induction hl.ends_complexBase i with
  | intro i _ ih =>
    by_cases hi : i < s.declared.complexTypes.size
    · obtain ⟨b, own, added, hf⟩ := hl.complex i hi
      obtain ⟨b', own', added', hf'⟩ := hl'.complex _ ((h.declared.lt_iff .complex i).2 hi)
      obtain ⟨rfl, rfl, rfl⟩ := hf.agree h hf'
      have hinherited : Linking.inherited d' (b.rename ρ) =
          (Linking.inherited d b).map (·.rename ρ) := by
        match b, hf.named with
        | .simple _, _ => rfl
        | .complex .anyType, _ => rfl
        | .complex (.declared j), hj => exact congrArg some (ih j hj)
      refine ComplexType.eq_of_asDeclared ?_ ?_ ?_ ?_
      · rw [hl'.frame.complexType, h.declared.complexType]
        exact congrArg (ComplexType.rename ρ) (hl.frame.complexType i).symm
      · rw [hf'.base]
        exact congrArg (Option.map (·.rename ρ)) hf.base.symm
      · rw [hf'.content, h.declared.complexType, hinherited, contentOf_rename, ← hf.content]
        rfl
      · have hbefore : (((Linking.inherited d b).map (·.rename ρ)).map (·.uses)).getD [] =
            (((Linking.inherited d b).map (·.uses)).getD []).map (ρ .attr) := by
          cases Linking.inherited d b <;> rfl
        rw [hf'.uses, hinherited, hbefore, effectiveUses_rename h.declared, ← hf.uses]
        rfl
    · exact getD_rearranged h hl hl' rfl rfl hi rfl

theorem rearranged : d.Rearranged ρ σ d' where
  back := h.declared.back
  forth := h.declared.forth
  extent := extent_rearranged h hl hl'
  within k i := by
    rw [hl.frame.extent]
    exact h.declared.within k i
  element := element_rearranged h hl hl'
  attr := attr_rearranged h hl hl'
  simpleType := simpleType_rearranged h hl hl'
  complexType := complexType_rearranged h hl hl'
  group i := by rw [hl'.frame.group, hl.frame.group, h.declared.group]
  attributeGroup i := by
    have hgroup := h.declared.attributeGroup i
    rwa [Declarations.attributeGroup, Declarations.attributeGroup, ← hl'.frame.attributeGroups,
      ← hl.frame.attributeGroups] at hgroup

end Linked

end Declared

/-! ## Linked sets -/

section Sets

variable {d : Declarations}

/-- What has a name before it is linked has the same name afterwards. -/
theorem Frame.names (hd : Frame s d) (doc : Document) (what : Symbol) :
    doc.names d what = doc.names s.declared what := by
  cases what with
  | element =>
    exact List.map_congr_left fun i _ => (congrArg Element.name (hd.element i) :)
  | type => exact List.map_congr_left fun t _ => hd.typeName t
  | group => exact List.map_congr_left fun i _ => congrArg Group.name (hd.group i)
  | attr => exact List.map_congr_left fun i _ => (congrArg Attribute.name (hd.attr i) :)
  | attrGroup =>
    refine List.map_congr_left fun i _ => ?_
    rw [Declarations.attributeGroup, hd.attributeGroups, Declarations.attributeGroup]

namespace SchemaSet

theorem distinctlyNamed_link (hs : s.Closed) : s.link.1.DistinctlyNamed ↔ s.DistinctlyNamed := by
  have hnames := (Frame.of_link hs).names
  refine forall_congr' fun what => ?_
  change List.Nodup (s.documents.flatMap fun doc =>
    (doc.names s.link.1.declared what).map fun n => (⟨doc.space, n⟩ : QName)) ↔ _
  simp only [hnames]

theorem Rearranged.link (h : s.Rearranged ρ σ s') (hs : s.Closed) (hs' : s'.Closed)
    (hok : s.link.2 = .ok ()) (hok' : s'.link.2 = .ok ()) :
    s.link.1.Rearranged ρ σ s'.link.1 where
  declared := Linked.rearranged h (.of_link hs hok) (.of_link hs' hok')
  documents := h.documents
  elements := h.elements
  types := h.types
  groups := h.groups
  attributes := h.attributes
  attributeGroups := h.attributeGroups

end SchemaSet

end Sets

end Schema
end SchemaPaths
