/-
What the content of a linked type is.

The leaves of a particle are the elements and wildcards in it, from left to right, where a reference
to a group stands for the leaves of that group.  Main statement: the leaves of the content of a type
are those of the base that it extends, if it extends one, and then those that it declares itself.
-/
import SchemaPaths.Proofs.Walk.Walkable

namespace SchemaPaths
namespace Schema

/-! ## Leaves -/

/-- The leaves of particles, which are given by their atoms. -/
inductive Leaves (s : SchemaSet) : List Node → List Node → Prop
  | nil : Leaves s [] []
  | leaf {a : Node} {as ls : List Node} (plain : a.groupName? = none) (rest : Leaves s as ls) :
      Leaves s (a :: as) (a :: ls)
  | group {a : Node} {q : QName} {g : GroupId} {as inner ls : List Node}
      (named : a.groupName? = some q) (found : s.group? q = some g)
      (content : Leaves s (Node.atomsOf (s.declared.group g).particle.toList) inner)
      (rest : Leaves s as ls) : Leaves s (a :: as) (inner ++ ls)

/-- The leaves of a particle come to an end, and they are these. -/
def LeavesAre (s : SchemaSet) (particle : Option Node) (leaves : List Node) : Prop :=
  ∀ ls, Leaves s (Node.atomsOf particle.toList) ls ↔ ls = leaves

section Leaves

variable {s : SchemaSet} {as bs ls ms : List Node}

theorem Leaves.append (h : Leaves s as ls) (h' : Leaves s bs ms) :
    Leaves s (as ++ bs) (ls ++ ms) := by
  induction h with
  | nil => exact h'
  | leaf plain _ ih => exact .leaf plain ih
  | group named found content _ _ ih =>
    rw [List.append_assoc]
    exact .group named found content ih

theorem Leaves.of_plain (h : ∀ a ∈ as, a.groupName? = none) : Leaves s as as := by
  induction as with
  | nil => exact .nil
  | cons a as ih =>
    obtain ⟨ha, has⟩ := List.forall_mem_cons.1 h
    exact .leaf ha (ih has)

theorem Leaves.unique (h : Leaves s as ls) (h' : Leaves s as ms) : ms = ls := by
  induction h generalizing ms with
  | nil =>
    cases h'
    rfl
  | leaf plain _ ih =>
    cases h' with
    | leaf _ rest => rw [ih rest]
    | group named =>
      rw [plain] at named
      cases named
  | group named found _ _ ihcontent ih =>
    cases h' with
    | leaf plain =>
      rw [named] at plain
      cases plain
    | group named' found' content' rest' =>
      rw [named] at named'
      cases named'
      rw [found] at found'
      cases found'
      rw [ihcontent content', ih rest']

theorem Leaves.are {particle : Option Node} (h : Leaves s (Node.atomsOf particle.toList) ls) :
    LeavesAre s particle ls :=
  fun _ => ⟨h.unique, fun he => he ▸ h⟩

mutual

/-- Writing groups out changes nothing about the leaves. -/
theorem WrittenOut.leaves {n : Node} {out : Option Node} :
    WrittenOut s n out → Leaves s n.atoms (Node.atomsOf out.toList)
  | @WrittenOut.group _ q o _ _ found content => by
    have h : Leaves s [.groupRef q o] (Node.atomsOf out.toList ++ []) :=
      .group rfl found content.leaves .nil
    rwa [List.append_nil] at h
  | .sequence each => by
    rw [Node.atomsOf_some]
    exact each.leaves
  | .choice each => by
    rw [Node.atomsOf_some]
    exact each.leaves
  | .atom isAtom plain => by
    rw [Node.atomsOf_some, Node.atoms_of_isAtom isAtom]
    exact .leaf plain .nil

theorem GroupContent.leaves {g : GroupId} {out : Option Node} :
    GroupContent s g out →
      Leaves s (Node.atomsOf (s.declared.group g).particle.toList) (Node.atomsOf out.toList)
  | .none empty => by
    rw [empty]
    exact .nil
  | .some particle written => by
    rw [particle, Node.atomsOf_some]
    exact written.leaves

theorem AllWrittenOut.leaves {ns outs : List Node} :
    AllWrittenOut s ns outs → Leaves s (Node.atomsOf ns) (Node.atomsOf outs)
  | .nil => .nil
  | .cons first rest => by
    rw [Node.atomsOf_append]
    exact first.leaves.append rest.leaves

end

theorem OptionWrittenOut.framed {d : Declarations} (hd : d.groups = s.declared.groups)
    {o out : Option Node} (h : OptionWrittenOut s o out) :
    OptionWrittenOut { s with declared := d } o out := by
  cases o with
  | none => exact h
  | some n => exact WrittenOut.framed hd h

theorem OptionWrittenOut.leaves {o out : Option Node} (h : OptionWrittenOut s o out) :
    Leaves s (Node.atomsOf o.toList) (Node.atomsOf out.toList) := by
  cases o with
  | none =>
    rw [show out = none from h]
    exact .nil
  | some n =>
    rw [Node.atomsOf_some]
    exact WrittenOut.leaves h

end Leaves

/-! ## Writing out a second time -/

section Again

variable {x : Extent} (resolve : QName → Linking.Link (Option Node))

mutual

/-- A particle without references to groups is left as it is, and not copied either. -/
theorem expandWith_of_isPlain : ∀ n : Node, n.IsPlain → (∀ a ∈ n.atoms, x.HasAtom a) →
    Linking.expandWith resolve n = pure (some n)
  | .groupRef q o, h, _ => nomatch h (.groupRef q o) (List.mem_singleton_self _)
  | .sequence i c o items, h, hatoms => by
    rw [Linking.expandWith, expandItems_of_isPlain items h hatoms, pure_bind]
    exact if_pos (unchanged_self h fun a ha => (hatoms a ha).is_self)
  | .choice i o items, h, hatoms => by
    rw [Linking.expandWith, expandItems_of_isPlain items h hatoms, pure_bind]
    exact if_pos (unchanged_self h fun a ha => (hatoms a ha).is_self)
  | .element _, _, _ => rfl
  | .attr _, _, _ => rfl
  | .type _, _, _ => rfl
  | .any .., _, _ => rfl
  | .content .., _, _ => rfl
  | .derivation .., _, _ => rfl
  | .group _, _, _ => rfl
  | .unknown .., _, _ => rfl

theorem expandItems_of_isPlain : ∀ ns : List Node,
    (∀ a ∈ Node.atomsOf ns, a.groupName? = none) → (∀ a ∈ Node.atomsOf ns, x.HasAtom a) →
      Linking.expandItems resolve ns = pure ns
  | [], _, _ => rfl
  | n :: ns, h, hatoms => by
    obtain ⟨hn, hns⟩ := List.forall_mem_append.1 h
    obtain ⟨hnatoms, hnsatoms⟩ := List.forall_mem_append.1 hatoms
    rw [Linking.expandItems, expandWith_of_isPlain n hn hnatoms, pure_bind,
      expandItems_of_isPlain ns hns hnsatoms, pure_bind]
    rfl

end

theorem expandOption_of_isPlain {o : Option Node} (h : ∀ n ∈ o, n.IsPlain)
    (ho : ∀ n ∈ o, x.HasContent n) : Linking.expandOption resolve o = pure o := by
  cases o with
  | none => rfl
  | some n => exact expandWith_of_isPlain resolve n (h n rfl) (ho n rfl).atoms

end Again

/-! ## Content -/

/-- The type is an extension of the other, which is declared. -/
def Extends (d : Declarations) (i j : ComplexId) : Prop :=
  (∃ m, (d.complexType i).model = some m ∧ m.derivation.isExtension = true) ∧ ComplexLink d i j

section Content

variable {s : SchemaSet} {d : Declarations} {i : ComplexId} {b : TypeRef} {own : Option Node}
  {added : List AttributeId}

theorem atomsOf_asContent {mixed : Bool} {whole : Option Node}
    (h : ∀ n ∈ whole, n.items = [] → n.atoms = []) :
    Node.atomsOf (Linking.asContent mixed whole).2.toList = Node.atomsOf whole.toList := by
  unfold Linking.asContent
  split
  · rfl
  · rename_i hitems
    cases whole with
    | none => rfl
    | some n =>
      have hnone : n.items = [] := by simpa using hitems
      rw [Node.atomsOf_some, h n rfl hnone]
      rfl

theorem contentOf_items {t : ComplexType} {base : Option ComplexType} {n : Node}
    (h : (Linking.contentOf i t base own).2 = some n) : n.items ≠ [] := by
  rcases contentOf_cases i t base own with ⟨-, heq⟩ | ⟨-, mixed, heq⟩
  · rw [heq] at h
    cases h
  · rw [heq, Linking.asContent] at h
    split at h
    · rename_i hitems
      rw [show Linking.joined i (Linking.extended t base) own = some n from h] at hitems
      simpa using hitems
    · cases h

/-- Behind content that has members, there is always a member. -/
theorem joined_without_items {before : Option Node} {n : Node}
    (hbefore : ∀ m ∈ before, m.items ≠ []) (h : Linking.joined i before own = some n)
    (hnone : n.items = []) : own = some n := by
  rcases before with _ | m
  · exact h
  · rcases own with _ | p
    · cases h
      exact absurd hnone (hbefore n rfl)
    · cases h
      cases hnone

/-- What a type was declared as says all about its content but what the base gives. -/
theorem contentOf_congr {t u : ComplexType} (h : t.asDeclared = u.asDeclared) :
    Linking.contentOf i t = Linking.contentOf i u ∧
      Linking.ownParticle t = Linking.ownParticle u := by
  show Linking.contentOf i t.asDeclared = Linking.contentOf i u.asDeclared ∧
    Linking.ownParticle t.asDeclared = Linking.ownParticle u.asDeclared
  rw [h]
  exact ⟨rfl, rfl⟩

theorem extended_cases (hb : (d.complexType i).base = some b) :
    (∃ j, Extends d i j ∧
      Linking.extended (d.complexType i) (Linking.inherited d b) = (d.complexType j).content) ∨
    (∀ j, ¬ Extends d i j) ∧
      Linking.extended (d.complexType i) (Linking.inherited d b) = none := by
  unfold Linking.extended
  split
  · rename_i hany
    obtain ⟨m, hm, hext⟩ := (Option.any_eq_true _ _).1 hany
    rcases hinh : Linking.inherited d b with _ | c
    · refine .inr ⟨fun j hj => ?_, rfl⟩
      have hj : (d.complexType i).base = some (.complex (.declared j)) := hj.2
      rw [hb] at hj
      cases hj
      cases hinh
    · obtain ⟨j, rfl, rfl⟩ := inherited_eq_some hinh
      exact .inl ⟨j, ⟨⟨m, hm, hext⟩, hb⟩, rfl⟩
  · rename_i hany
    refine .inr ⟨fun j hj => hany ?_, rfl⟩
    obtain ⟨m, hm, hext⟩ := hj.1
    exact (Option.any_eq_true _ _).2 ⟨m, hm, hext⟩

theorem Extends.unique {j k : ComplexId} (h : Extends d i j) (h' : Extends d i k) : k = j := by
  have hj : (d.complexType i).base = some (.complex (.declared j)) := h.2
  have hk : (d.complexType i).base = some (.complex (.declared k)) := h'.2
  rw [hj] at hk
  cases hk
  rfl

/-- What a type was declared as is what it still is. -/
theorem Linked.filledIn_at (h : Linked s d) (hi : i < d.complexTypes.size) :
    ∃ b own added, FilledIn s d i b own added ∧
      OptionWrittenOut s (Linking.ownParticle (d.complexType i)) own ∧
      ((d.complexType i).contentType, (d.complexType i).content) =
        Linking.contentOf i (d.complexType i) (Linking.inherited d b) own := by
  obtain ⟨b, own, added, hf⟩ := h.filledIn hi
  obtain ⟨hcontent, hown⟩ := contentOf_congr (h.frame.complexType i)
  refine ⟨b, own, added, hf, ?_, ?_⟩
  · rw [hown]
    exact hf.written
  · rw [hcontent]
    exact hf.content

theorem Linked.content_items (h : Linked s d) (i : ComplexId) :
    ∀ n ∈ (d.complexType i).content, n.items ≠ [] := by
  intro n hn
  by_cases hi : i < d.complexTypes.size
  · obtain ⟨b, own, added, hf⟩ := h.filledIn hi
    rw [hf.content_eq] at hn
    exact contentOf_items hn
  · rw [complexType_of_le (Nat.not_lt.1 hi)] at hn
    cases hn

theorem Linked.content_of_simple (h : Linked s d) (hi : i < d.complexTypes.size)
    (ht : (d.complexType i).HasSimpleContent) : (d.complexType i).content = none := by
  obtain ⟨b, own, added, -, -, hcontent⟩ := h.filledIn_at hi
  rcases contentOf_cases i (d.complexType i) (Linking.inherited d b) own with
    ⟨-, heq⟩ | ⟨hnot, -⟩
  · rw [heq] at hcontent
    exact (congrArg Prod.snd hcontent :)
  · exact absurd ht hnot

/-- What a type declares itself has no atoms if it has no members. -/
theorem Linked.own_no_atoms (h : Linked s d) (hs : s.Closed)
    (hwritten : OptionWrittenOut s (Linking.ownParticle (d.complexType i)) own) {n : Node}
    (hn : own = some n) (hnone : n.items = []) : n.atoms = [] := by
  rcases hp : Linking.ownParticle (d.complexType i) with _ | p
  · rw [hp] at hwritten
    rw [show own = none from hwritten] at hn
    cases hn
  · rw [hp, hn] at hwritten
    have hmodel : p.IsModel := ((h.frame.closed.complexType i).own p hp).1
    rw [← Node.atomsOf_some]
    refine WrittenOut.no_atoms hs.declared hwritten hmodel ?_
    rintro m ⟨⟩
    exact hnone

/-- Content that counts as none because it has no members has no leaves either. -/
theorem Linked.atoms_content (h : Linked s d) (hs : s.Closed) (hi : i < d.complexTypes.size)
    (ht : ¬ (d.complexType i).HasSimpleContent) :
    ∃ before own, OptionWrittenOut s (Linking.ownParticle (d.complexType i)) own ∧
      Node.atomsOf (d.complexType i).content.toList =
        Node.atomsOf before.toList ++ Node.atomsOf own.toList ∧
      ((∃ j, Extends d i j ∧ before = (d.complexType j).content) ∨
        (∀ j, ¬ Extends d i j) ∧ before = none) := by
  obtain ⟨b, own, added, hf, hwritten, hcontent⟩ := h.filledIn_at hi
  have hcases := extended_cases hf.base
  obtain ⟨-, mixed, heq⟩ :=
    (contentOf_cases i (d.complexType i) (Linking.inherited d b) own).resolve_left
      fun hsimple => ht hsimple.1
  rw [heq] at hcontent
  revert hcontent hcases
  generalize Linking.extended (d.complexType i) (Linking.inherited d b) = before
  intro hcases hcontent
  refine ⟨before, own, hwritten, ?_, hcases⟩
  have hitems : ∀ m ∈ before, m.items ≠ [] := by
    intro m hm
    rcases hcases with ⟨j, -, rfl⟩ | ⟨-, rfl⟩
    · exact h.content_items j m hm
    · cases hm
  rw [show (d.complexType i).content = _ from congrArg Prod.snd hcontent, ← atomsOf_joined i]
  refine atomsOf_asContent fun n hn hnone => ?_
  exact h.own_no_atoms hs hwritten (joined_without_items hitems hn hnone) hnone

/-- Where nothing stands in front of what a type declares itself and nothing in it is replaced, that
is its content. -/
theorem Linked.content_eq_own (h : Linked s d) (hi : i < d.complexTypes.size)
    (ht : ¬ (d.complexType i).HasSimpleContent) (hbase : ∀ j, ¬ Extends d i j) {n : Node}
    (hn : Linking.ownParticle (d.complexType i) = some n) (hplain : n.IsPlain)
    (hitems : n.items ≠ []) : (d.complexType i).content = some n := by
  obtain ⟨b, own, added, hf, hwritten, hcontent⟩ := h.filledIn_at hi
  rw [hn] at hwritten
  obtain rfl : own = some n := WrittenOut.eq_of_isPlain hwritten hplain
  obtain ⟨-, mixed, heq⟩ :=
    (contentOf_cases i (d.complexType i) (Linking.inherited d b) (some n)).resolve_left
      fun hsimple => ht hsimple.1
  rcases extended_cases hf.base with ⟨j, hj, -⟩ | ⟨-, hnone⟩
  · exact absurd hj (hbase j)
  · rw [heq, hnone] at hcontent
    have hmembers : (Linking.joined i none (some n)).any (fun p => !p.items.isEmpty) = true := by
      simpa [Linking.joined] using hitems
    rw [Linking.asContent, if_pos hmembers] at hcontent
    exact (congrArg Prod.snd hcontent :)

/-- A type without a content model has the content of its particle. -/
theorem Linked.atoms_particle (h : Linked s d) (hs : s.Closed) {n : Node}
    (hn : (d.complexType i).particle = some n) :
    ∃ out, WrittenOut s n out ∧
      Node.atomsOf out.toList = Node.atomsOf (d.complexType i).content.toList := by
  obtain ⟨hmodel, hown⟩ := (h.frame.closed.complexType i).own_of_particle hn
  have hi : i < d.complexTypes.size := by
    refine (complexType_cases d i).resolve_right fun hnone => ?_
    rw [hnone] at hn
    cases hn
  have hsimple : ¬ (d.complexType i).HasSimpleContent := by
    rintro ⟨m, hm, -⟩
    rw [hmodel] at hm
    cases hm
  obtain ⟨before, own, hwritten, hatoms, ⟨j, ⟨⟨m, hm, -⟩, -⟩, -⟩ | ⟨-, rfl⟩⟩ :=
    h.atoms_content hs hi hsimple
  · rw [hmodel] at hm
    cases hm
  · rw [hown] at hwritten
    exact ⟨own, hwritten, hatoms.symm⟩

end Content

/-! ## Loaded sets -/

section Loaded

variable {s : SchemaSet} {i : ComplexId}

theorem Leaves.are_of_plain {particle : Option Node} (h : ∀ n ∈ particle, n.IsPlain) :
    LeavesAre s particle (Node.atomsOf particle.toList) := by
  refine Leaves.are (.of_plain ?_)
  cases particle with
  | none => exact nofun
  | some n =>
    rw [Node.atomsOf_some]
    exact h n rfl

theorem HasAtom.element_or_any {x : Extent} {a : Node} (h : x.HasAtom a)
    (plain : a.groupName? = none) : (∃ e < x.elements, a = .element e) ∨
      ∃ k < x.particles, ∃ w, a = .any (.declared k) w := by
  match a, h with
  | .element e, he => exact .inl ⟨e, he, rfl⟩
  | .any (.declared k) w, hk => exact .inr ⟨k, hk, w, rfl⟩
  | .groupRef .., _ => cases plain

theorem ContentType.hasElements_iff {c : ContentType} :
    c = .elementOnly ∨ c = .mixed ↔ c.hasElements = true := by
  cases c <;> simp [ContentType.hasElements]

theorem expand_of_isPlain {x : Extent} {particle : Option Node} (h : ∀ n ∈ particle, n.IsPlain)
    (hdeclared : ∀ n ∈ particle, x.HasContent n) :
    Linking.expand s particle = pure particle := expandOption_of_isPlain _ h hdeclared

/-- A type with simple content has no other.  The leaves of the content of any other type are those
of the content of the declared type that it extends, if there is one, and behind them those that it
declares itself; and where there is nothing in front and no group to write out, what it declares is
its content and not a copy of that.  No group is left to write out in content.  Its leaves are the
elements and the wildcards that were declared, none of them a copy, and writing it out again gives
the same and no copy either.  A type has elements if and only if it has content. -/
theorem content_is_base_then_own (h : s.Loaded) (hi : i < s.declared.complexTypes.size) :
    let t := s.declared.complexType i
    (t.HasSimpleContent → t.content = none) ∧
    (¬ t.HasSimpleContent → ∃ before own,
      LeavesAre s (Linking.ownParticle t) own ∧ LeavesAre s t.content (before ++ own) ∧
      (∀ j, Extends s.declared i j → LeavesAre s (s.declared.complexType j).content before) ∧
      ((∀ j, ¬ Extends s.declared i j) → before = [] ∧
        ∀ n ∈ Linking.ownParticle t, n.IsPlain → n.items ≠ [] → t.content = some n)) ∧
    (∀ n ∈ t.content, n.IsPlain ∧
      ∀ a ∈ n.atoms, (∃ e < s.declared.elements.size, a = .element e) ∨
        ∃ k < s.declared.particles, ∃ w, a = .any (.declared k) w) ∧
    (t.contentType = .elementOnly ∨ t.contentType = .mixed ↔ t.content.isSome = true) ∧
    ∀ p, (Linking.expand s t.content).run.run p = (.ok t.content, p) := by
  have hw := h.isLinked.walkable
  obtain ⟨s₀, hs₀, hl, heq⟩ := h.isLinked
  have hwritten : ∀ {o out}, OptionWrittenOut s₀ o out →
      Leaves s (Node.atomsOf o.toList) (Node.atomsOf out.toList) := by
    intro o out hout
    rw [heq]
    exact OptionWrittenOut.leaves (hout.framed hl.frame.groups)
  refine ⟨hl.content_of_simple hi, fun ht => ?_, fun n hn => ⟨hw.plain i n hn, fun a ha => ?_⟩,
    ?_, fun p => ?_⟩
  · obtain ⟨before, own, hown, hatoms, hcases⟩ := hl.atoms_content hs₀ hi ht
    refine ⟨Node.atomsOf before.toList, Node.atomsOf own.toList, (hwritten hown).are, ?_,
      fun j hj => ?_, fun hnone => ?_⟩
    · rw [← hatoms]
      exact Leaves.are_of_plain (hw.plain i)
    · rcases hcases with ⟨k, hk, rfl⟩ | ⟨hnot, -⟩
      · rw [hk.unique hj]
        exact Leaves.are_of_plain (hw.plain k)
      · exact absurd hj (hnot j)
    · refine ⟨?_, fun n hn => hl.content_eq_own hi ht hnone hn⟩
      rcases hcases with ⟨k, hk, -⟩ | ⟨-, rfl⟩
      · exact absurd hk (hnone k)
      · rfl
  · have hatom := ((h.closed.declared.complexType i).content n hn).atoms a ha
    exact HasAtom.element_or_any hatom (hw.plain i n hn a ha)
  · rw [ContentType.hasElements_iff, hl.listed i]
  · rw [expand_of_isPlain (hw.plain i) (h.closed.declared.complexType i).content]
    rfl

/-- The type `u` extends the type `t`, and both declare what the group `g` holds. -/
def derivedText : String :=
  "<s:schema xmlns:s=\"" ++ xsSpace ++ "\"><s:group name=\"g\"><s:choice><s:any/></s:choice>" ++
    "</s:group><s:complexType name=\"t\"><s:group ref=\"g\"/></s:complexType>" ++
    "<s:complexType name=\"u\"><s:complexContent><s:extension base=\"t\"><s:group ref=\"g\"/>" ++
    "</s:extension></s:complexContent></s:complexType></s:schema>"

def derivedLoader : Loader := { source := .upload [("a.xsd", derivedText.toUTF8.toList)] }

def derived : SchemaSet := (derivedLoader.load "a.xsd").1.set

theorem derived_eq : derived = SchemaSet.ofText derivedText := by
  rw [derived, SchemaSet.ofText, derivedLoader, Loader.ofText]

theorem derived_facts : (derivedLoader.load "a.xsd").2 = .ok () ∧
    derived.declared.complexTypes.size = 2 ∧
    ((derived.declared.complexType 1).model.any fun m => !m.simple && m.derivation.isExtension) ∧
    (derived.declared.complexType 1).base = some (.complex (.declared 0)) := by
  rw [derived_eq, SchemaSet.ofText_eq, derivedLoader, utf8_eq]
  decide +kernel

theorem derived_loaded : derived.Loaded := by
  rw [derived_eq]
  exact SchemaSet.loaded_ofText derived_facts.1

theorem derived_content : derived.Loaded ∧ 1 < derived.declared.complexTypes.size ∧
    ¬ (derived.declared.complexType 1).HasSimpleContent ∧ Extends derived.declared 1 0 ∧
    ∃ before own, LeavesAre derived (Linking.ownParticle (derived.declared.complexType 1)) own ∧
      LeavesAre derived (derived.declared.complexType 1).content (before ++ own) ∧
      LeavesAre derived (derived.declared.complexType 0).content before := by
  obtain ⟨-, hsize, hany, hbase⟩ := derived_facts
  have hi : 1 < derived.declared.complexTypes.size := by
    rw [hsize]
    decide
  obtain ⟨m, hm, hkind⟩ := (Option.any_eq_true _ _).1 hany
  rw [Bool.and_eq_true, Bool.not_eq_true'] at hkind
  have hsimple : ¬ (derived.declared.complexType 1).HasSimpleContent := by
    rintro ⟨m', hm', hsimple⟩
    rw [hm] at hm'
    cases hm'
    rw [hkind.1] at hsimple
    cases hsimple
  have hext : Extends derived.declared 1 0 := ⟨⟨m, hm, hkind.2⟩, hbase⟩
  obtain ⟨before, own, hown, hcontent, hbefore, -⟩ :=
    (content_is_base_then_own derived_loaded hi).2.1 hsimple
  exact ⟨derived_loaded, hi, hsimple, hext, before, own, hown, hcontent, hbefore 0 hext⟩

end Loaded
end Schema
end SchemaPaths
