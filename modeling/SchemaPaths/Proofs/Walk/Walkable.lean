/-
Sets that walks can go through.

Everything a walk looks up in a linked set is there, no content refers to groups any more, and the
bases of all types come to an end.  A type without content may still have a particle; then nothing
is left of that when its groups are written out.  Bases stand at the top of documents, and the
elements in content do not.
-/
import SchemaPaths.Proofs.Linking.Circles
import SchemaPaths.Proofs.Loading
import SchemaPaths.Walk.Watch

namespace SchemaPaths

namespace Walk

open Schema

/-- A walk that watches nothing notes nothing. -/
theorem sighting?_nil (d : Declarations) (n : Node) : sighting? [] d n = none := by
  unfold sighting?
  cases n.kind? <;> rfl

end Walk

namespace Schema

/-- One complex type has the other as its base. -/
def ComplexLink (d : Declarations) (i j : ComplexId) : Prop :=
  (d.complexType i).base = some (.complex (.declared j))

structure SchemaSet.Walkable (s : SchemaSet) : Prop where
  closed : s.Closed
  ref : ∀ i < s.declared.elements.size, ∀ q ∈ (s.declared.element i).ref, (s.element? q).isSome
  head : ∀ i < s.declared.elements.size, (s.declared.element i).ref = none →
    ∀ q ∈ (s.declared.element i).substitution, (s.element? q).isSome
  attr : ∀ i < s.declared.attributes.size, ∀ q ∈ (s.declared.attr i).ref, (s.attr? q).isSome
  plain : ∀ i, ∀ n ∈ (s.declared.complexType i).content, n.IsPlain
  listed : ∀ i, (s.declared.complexType i).content.isSome →
    (s.declared.complexType i).contentType.hasElements
  empty : ∀ i, (s.declared.complexType i).content = none →
    ∀ n ∈ (s.declared.complexType i).particle, ∃ out, WrittenOut s n out ∧ Node.atomsOf out.toList = []
  derives : ∀ i, Ends (ComplexLink s.declared) i
  base : ∀ i < s.declared.complexTypes.size, ∃ b, (s.declared.complexType i).base = some b ∧ s.IsTop b
  content : ∀ i, ∀ n ∈ (s.declared.complexType i).content, s.declared.LocalContent n
  ownGroups : ∀ i, ∀ n ∈ Linking.ownParticle (s.declared.complexType i), ∀ q ∈ n.groupNames,
    (s.group? q).isSome
  innerGroups : ∀ e ∈ s.groups, ∀ n ∈ (s.declared.group e.2).particle, ∀ q ∈ n.groupNames,
    (s.group? q).isSome

/-! ## Groups after linking -/

section Groups

variable {s : SchemaSet} {d : Declarations}

mutual

theorem WrittenOut.framed (h : d.groups = s.declared.groups) {n : Node} {out : Option Node} :
    WrittenOut s n out → WrittenOut { s with declared := d } n out
  | .group found content => .group found (content.framed h)
  | .sequence each => .sequence (each.framed h)
  | .choice each => .choice (each.framed h)
  | .atom isAtom plain => .atom isAtom plain

theorem GroupContent.framed (h : d.groups = s.declared.groups) {g : GroupId}
    {out : Option Node} : GroupContent s g out → GroupContent { s with declared := d } g out
  | .none empty => .none ((congrArg Group.particle (group_framed h g)).trans empty)
  | .some particle written =>
    .some ((congrArg Group.particle (group_framed h g)).trans particle) (written.framed h)

theorem AllWrittenOut.framed (h : d.groups = s.declared.groups) {ns outs : List Node} :
    AllWrittenOut s ns outs → AllWrittenOut { s with declared := d } ns outs
  | .nil => .nil
  | .cons first rest => .cons (first.framed h) (rest.framed h)

end

end Groups

/-! ## Content that nothing is left of -/

section Content

variable {s : SchemaSet}

mutual

/-- Of content that is written out and has no members there is nothing. -/
theorem WrittenOut.no_atoms (hs : s.declared.Closed) {n : Node} {out : Option Node} :
    WrittenOut s n out → n.IsModel → (∀ m ∈ out, m.items = []) → Node.atomsOf out.toList = []
  | .group _ content, _, hout => content.no_atoms hs hout
  | .sequence _, _, hout => by
    have hnone := hout _ rfl
    dsimp only [Node.items] at hnone
    rw [hnone]
    rfl
  | .choice _, _, hout => by
    have hnone := hout _ rfl
    dsimp only [Node.items] at hnone
    rw [hnone]
    rfl
  | @WrittenOut.atom _ n isAtom plain, hmodel, _ => by
    cases n <;> first | exact isAtom.elim | exact hmodel.elim | cases plain

theorem GroupContent.no_atoms (hs : s.declared.Closed) {g : GroupId} {out : Option Node} :
    GroupContent s g out → (∀ m ∈ out, m.items = []) → Node.atomsOf out.toList = []
  | .none _, _ => rfl
  | .some particle written, hout => written.no_atoms hs (hs.group g _ particle).1 hout

end

theorem hasElements_asContent {mixed : Bool} {whole : Option Node} :
    (Linking.asContent mixed whole).1.hasElements = (Linking.asContent mixed whole).2.isSome := by
  unfold Linking.asContent
  split
  · rename_i hitems
    obtain ⟨n, hn, -⟩ := (Option.any_eq_true _ _).1 hitems
    rw [hn]
    cases mixed <;> rfl
  · cases mixed <;> rfl

/-- A type whose content is its text has no particle. -/
def ComplexType.HasSimpleContent (t : ComplexType) : Prop := ∃ m, t.model = some m ∧ m.simple = true

theorem contentOf_cases (i : ComplexId) (t : ComplexType) (base : Option ComplexType)
    (own : Option Node) :
    t.HasSimpleContent ∧ Linking.contentOf i t base own = (.textOnly, none) ∨
      ¬ t.HasSimpleContent ∧ ∃ mixed, Linking.contentOf i t base own =
        Linking.asContent mixed (Linking.joined i (Linking.extended t base) own) := by
  unfold Linking.contentOf
  split
  · rename_i hm
    exact .inl ⟨⟨_, hm, rfl⟩, rfl⟩
  · rename_i hm
    refine .inr ⟨?_, _, rfl⟩
    rintro ⟨⟨simple, _, _, _, _, _, _⟩, hmodel, rfl⟩
    exact hm _ _ _ _ _ _ hmodel

theorem hasElements_contentOf {i : ComplexId} {t : ComplexType} {base : Option ComplexType}
    {own : Option Node} :
    (Linking.contentOf i t base own).1.hasElements = (Linking.contentOf i t base own).2.isSome := by
  rcases contentOf_cases i t base own with ⟨-, heq⟩ | ⟨-, mixed, heq⟩
  · rw [heq]
    rfl
  · rw [heq]
    exact hasElements_asContent

/-- Particles are left out of the content only if they have no members. -/
theorem no_items_of_contentOf {i : ComplexId} {t : ComplexType} {base : Option ComplexType}
    {own : Option Node} (ht : t.model = none) (h : (Linking.contentOf i t base own).2 = none) :
    ∀ m ∈ own, m.items = [] := by
  rintro m rfl
  have heq : Linking.contentOf i t base (some m) = Linking.asContent t.mixed (some m) := by
    simp [Linking.contentOf, Linking.extended, Linking.joined, ht]
  rw [heq, Linking.asContent] at h
  split at h
  · cases h
  · rename_i hitems
    simpa using hitems

end Content

/-! ## Linked sets -/

section Linked

variable {s : SchemaSet} {d : Declarations}

theorem FilledIn.content_eq {i : ComplexId} {b : TypeRef} {own : Option Node}
    {added : List AttributeId} (h : FilledIn s d i b own added) :
    (d.complexType i).content =
      (Linking.contentOf i (s.declared.complexType i) (Linking.inherited d b) own).2 :=
  congrArg Prod.snd h.content

theorem complexType_of_le {d : Declarations} {i : ComplexId} (h : d.complexTypes.size ≤ i) :
    d.complexType i = {} := getD_of_le h

/-- Where no element is declared there is one that says nothing. -/
theorem element_cases (d : Declarations) (e : ElementId) :
    e < d.elements.size ∨ d.element e = {} :=
  (Nat.lt_or_ge e d.elements.size).imp_right getD_of_le

theorem complexType_cases (d : Declarations) (i : ComplexId) :
    i < d.complexTypes.size ∨ d.complexType i = {} :=
  (Nat.lt_or_ge i d.complexTypes.size).imp_right complexType_of_le

theorem Linked.filledIn (h : Linked s d) {i : ComplexId} (hi : i < d.complexTypes.size) :
    ∃ b own added, FilledIn s d i b own added :=
  h.complex i (h.frame.complexTypes_size ▸ hi)

/-- Content holds no references to groups: neither that of the base nor what is written out. -/
theorem Linked.plain (h : Linked s d) (i : ComplexId) :
    ∀ n, (d.complexType i).content = some n → n.IsPlain := by
  have hup := h.ends_complexBase i
  induction hup with
  | intro i _ ih =>
    intro n hn
    by_cases hi : i < d.complexTypes.size
    · obtain ⟨b, own, added, hf⟩ := h.filledIn hi
      rw [hf.content_eq] at hn
      -- Whatever the sequences and choices are does not matter here.
      suffices n.MadeOf (fun a => a.groupName? = none) fun _ => True from this.atoms
      refine madeOf_contentOf hn (fun c hc m hm => ?_) (fun m hm => ?_) trivial
      · obtain ⟨j, rfl, rfl⟩ := inherited_eq_some hc
        exact ⟨ih j hf.named m hm, fun _ _ => trivial⟩
      · refine ⟨?_, fun _ _ => trivial⟩
        have hwritten := hf.written
        cases hown : Linking.ownParticle (s.declared.complexType i) with
        | none =>
          rw [hown] at hwritten
          rw [show own = none from hwritten] at hm
          cases hm
        | some p =>
          rw [hown] at hwritten
          exact WrittenOut.isPlain hwritten m hm
    · rw [complexType_of_le (Nat.not_lt.1 hi)] at hn
      cases hn

theorem Linked.listed (h : Linked s d) (i : ComplexId) :
    (d.complexType i).contentType.hasElements = (d.complexType i).content.isSome := by
  by_cases hi : i < d.complexTypes.size
  · obtain ⟨b, own, added, hf⟩ := h.filledIn hi
    have htype : (d.complexType i).contentType = _ := congrArg Prod.fst hf.content
    rw [htype, hf.content_eq]
    exact hasElements_contentOf
  · rw [complexType_of_le (Nat.not_lt.1 hi)]
    rfl

/-- Where a type has no content, nothing is left of its particle. -/
theorem Linked.empty (h : Linked s d) (hs : s.Closed) (i : ComplexId)
    (hnone : (d.complexType i).content = none) {n : Node}
    (hn : (d.complexType i).particle = some n) :
    ∃ out, WrittenOut s n out ∧ Node.atomsOf out.toList = [] := by
  by_cases hi : i < d.complexTypes.size
  · obtain ⟨b, own, added, hf⟩ := h.filledIn hi
    have hsame := h.frame.complexType i
    have hparticle : (s.declared.complexType i).particle = some n := by
      rw [← hn]
      exact (congrArg ComplexType.particle hsame.symm :)
    obtain ⟨hmodel, hown⟩ := (hs.declared.complexType i).own_of_particle hparticle
    have hwritten := hf.written
    rw [hown] at hwritten
    have hitems := no_items_of_contentOf hmodel (hf.content_eq ▸ hnone)
    exact ⟨own, hwritten,
      WrittenOut.no_atoms hs.declared hwritten ((hs.declared.complexType i).own n hown).1 hitems⟩
  · rw [complexType_of_le (Nat.not_lt.1 hi)] at hn
    cases hn

theorem isTop_of_complexBase? (hs : s.Closed) {t : ComplexType} {b : TypeRef}
    (h : s.complexBase? t = some b) : s.IsTop b := by
  unfold SchemaSet.complexBase? at h
  split at h
  · cases h
    exact nofun
  · obtain ⟨q, -, hq⟩ := Option.bind_eq_some_iff.1 h
    exact isTop_of_type? hs hq

/-- No element at the top of a document stands in content, wherever that comes from. -/
theorem Linked.localContent (h : Linked s d) (hs : s.Closed) (i : ComplexId) :
    ∀ n, (d.complexType i).content = some n → s.declared.LocalContent n := by
  have hup := h.ends_complexBase i
  induction hup with
  | intro i _ ih =>
    intro n hn
    by_cases hi : i < d.complexTypes.size
    · obtain ⟨b, own, added, hf⟩ := h.filledIn hi
      rw [hf.content_eq] at hn
      have hplace : i < s.declared.complexTypes.size := h.frame.complexTypes_size ▸ hi
      refine madeOf_contentOf hn (fun c hc m hm => ?_) (fun m hm => ?_) hplace
      · obtain ⟨j, rfl, rfl⟩ := inherited_eq_some hc
        exact ih j hf.named m hm
      · exact hf.written.madeOf hs.nested.group (fun _ => id) (hs.nested.own i) m hm
    · rw [complexType_of_le (Nat.not_lt.1 hi)] at hn
      cases hn

theorem OptionWrittenOut.isSome_group? {o out : Option Node} (h : OptionWrittenOut s o out) :
    ∀ n ∈ o, ∀ q ∈ n.groupNames, (s.group? q).isSome := by
  rintro n rfl q hq
  obtain ⟨g, hg, -⟩ := WrittenOut.ends h q hq
  rw [hg]
  rfl

theorem Linked.isSome_group? (h : Linked s d) (i : ComplexId) :
    ∀ n ∈ Linking.ownParticle (d.complexType i), ∀ q ∈ n.groupNames, (s.group? q).isSome := by
  by_cases hi : i < d.complexTypes.size
  · obtain ⟨b, own, added, hf⟩ := h.filledIn hi
    rw [h.frame.ownParticle]
    exact hf.written.isSome_group?
  · rw [complexType_of_le (Nat.not_lt.1 hi)]
    exact nofun

theorem Linked.walkable (h : Linked s d) (hs : s.Closed) :
    ({ s with declared := d } : SchemaSet).Walkable where
  closed := hs.framed h.frame
  ref i hi q hq := (h.element i (h.frame.elements_size ▸ hi)).ref q (h.frame.ref_eq i ▸ hq)
  head i hi hnone q hq := by
    have hvisited := h.element i (h.frame.elements_size ▸ hi)
    have hheaded := hvisited.headed (h.frame.ref_eq i ▸ hnone)
    exact hheaded.found q (h.frame.substitution_eq i ▸ hq)
  attr i hi q hq := h.attr i (h.frame.attributes_size ▸ hi) q (h.frame.attrRef_eq i ▸ hq)
  plain := h.plain
  listed i hi := (h.listed i).trans hi
  empty i hnone n hn := by
    obtain ⟨out, hout, hatoms⟩ := h.empty hs i hnone hn
    exact ⟨out, hout.framed h.frame.groups, hatoms⟩
  derives i := Subrelation.accessible (fun hj => h.complexBase hj) (h.ends_complexBase i)
  base i hi := by
    obtain ⟨b, own, added, hf⟩ := h.filledIn hi
    exact ⟨b, hf.base, isTop_of_complexBase? hs hf.named⟩
  content i n hn := h.frame.localContent (h.localContent hs i n hn)
  ownGroups := h.isSome_group?
  innerGroups e he := by
    obtain ⟨out, hout⟩ := h.group e he
    show ∀ n ∈ (d.group e.2).particle, _
    rw [h.frame.group]
    exact (groupContent_iff.1 hout).isSome_group?

end Linked

/-- The bases that documents declare stand at the top. -/
theorem SchemaSet.Walkable.base_top {s : SchemaSet} (hw : s.Walkable) {i j : ComplexId}
    (h : (s.declared.complexType i).base = some (.complex (.declared j))) :
    ∃ doc ∈ s.documents, .complex (.declared j) ∈ doc.types := by
  have hi : i < s.declared.complexTypes.size := by
    by_contra hi
    rw [complexType_of_le (Nat.not_lt.1 hi)] at h
    cases h
  obtain ⟨b, hb, htop⟩ := hw.base i hi
  rw [h] at hb
  cases hb
  exact htop trivial

theorem SchemaSet.IsLinked.walkable {s : SchemaSet} (h : s.IsLinked) : s.Walkable := by
  obtain ⟨s₀, hs₀, hl, heq⟩ := h
  rw [heq]
  exact hl.walkable hs₀

end Schema
end SchemaPaths
