/-
Attributes that are taken for one another.

What an attribute means is its expanded name, but a type keeps its attributes under their keys.
One that is declared in its place goes by its local name, whatever its namespace, and so does a
reference to one in no namespace; any other reference goes by the whole name.  Two attributes of
different names can thus have one key, and the later takes the place of the earlier; and one name
can have two keys, if it is written in two ways.  Main statement: nothing else goes wrong.
-/
import SchemaPaths.Proofs.Export.Rooting
import SchemaPaths.Proofs.Linking.Effective
import SchemaPaths.Proofs.Loading.Failing

namespace SchemaPaths
namespace Schema

/-! ## Names and keys -/

namespace Attribute

/-- The expanded name: that of the attribute which is referred to, or else its own. -/
def expanded (a : Attribute) : QName := a.ref.getD ⟨a.space, a.name⟩

/-- An attribute goes by its local name alone if it is declared in its place or in no namespace. -/
def GoesBare (a : Attribute) : Prop := a.ref = none ∨ a.expanded.space = ""

/-- It has another name but goes by the same key. -/
def PassesFor (b a : Attribute) : Prop :=
  b.expanded ≠ a.expanded ∧ Linking.useKey b = Linking.useKey a

/-- No colon is in its local name. -/
def IsPlain (a : Attribute) : Prop := ∀ n ∈ a.expanded.name, ':' ∉ n.toList

instance (a : Attribute) : Decidable a.GoesBare := inferInstanceAs (Decidable (_ ∨ _))

instance (a b : Attribute) : Decidable (b.PassesFor a) := inferInstanceAs (Decidable (_ ∧ _))

variable {a b : Attribute}

theorem IsSpelled.isSome_name (h : a.IsSpelled) (hfull : ¬ a.GoesBare) :
    a.expanded.name.isSome := by
  cases href : a.ref with
  | none => exact absurd (.inl href) hfull
  | some q => simpa [expanded, href, QName.IsSpelled] using h.ref q href

theorem useKey_of_goesBare (h : a.IsSpelled) (hbare : a.GoesBare) :
    Linking.useKey a = a.expanded.name := by
  unfold Linking.useKey
  cases href : a.ref with
  | none => simp [expanded, href]
  | some q =>
    have hspace : q.space = "" := by simpa [GoesBare, expanded, href] using hbare
    obtain ⟨n, hn⟩ := Option.isSome_iff_exists.1 (h.ref q href)
    simp [expanded, href, QName.text, QName.text?, hspace, hn]

theorem useKey_of_not_goesBare (hbare : ¬ a.GoesBare) : Linking.useKey a =
    some (a.expanded.space ++ ":" ++ a.expanded.name.getD noName) := by
  unfold Linking.useKey
  cases href : a.ref with
  | none => exact absurd (.inl href) hbare
  | some q =>
    have hspace : q.space ≠ "" := by simpa [GoesBare, expanded, href] using hbare
    simp [expanded, href, QName.text, QName.text?, hspace]

/-- The reference is named in full: its key is longer than any part of its name. -/
theorem useKey_ne (ha : a.IsSpelled) (hname : a.expanded.name = b.expanded.name)
    (hbare : a.GoesBare) (hfull : ¬ b.GoesBare) : Linking.useKey a ≠ Linking.useKey b := by
  rw [useKey_of_goesBare ha hbare, useKey_of_not_goesBare hfull, hname]
  intro heq
  rw [heq, Option.getD_some] at heq
  have hlength := congrArg String.length (Option.some.inj heq)
  simp only [String.length_append] at hlength
  have hcolon : ":".length = 1 := rfl
  omega

/-- One name has one key as long as it is written in one way. -/
theorem useKey_eq_iff (ha : a.IsSpelled) (hb : b.IsSpelled) (h : a.expanded = b.expanded) :
    Linking.useKey a = Linking.useKey b ↔ (a.GoesBare ↔ b.GoesBare) := by
  by_cases hbare : a.GoesBare <;> by_cases hbare' : b.GoesBare
  · simp [useKey_of_goesBare, ha, hb, hbare, hbare', h]
  · simpa [hbare, hbare'] using useKey_ne ha (congrArg QName.name h) hbare hbare'
  · simpa [hbare, hbare'] using (useKey_ne hb (congrArg QName.name h.symm) hbare' hbare).symm
  · simp [useKey_of_not_goesBare, hbare, hbare', h]

theorem not_mem_getD (h : a.IsPlain) : ':' ∉ (a.expanded.name.getD noName).toList := by
  cases hname : a.expanded.name with
  | none => decide
  | some n => exact h n hname

/-- A name without a colon is not the key of a reference that is named in full. -/
theorem IsPlain.useKey_ne (h : a.IsPlain) (ha : a.IsSpelled) (hbare : a.GoesBare)
    (hfull : ¬ b.GoesBare) : Linking.useKey a ≠ Linking.useKey b := by
  rw [useKey_of_goesBare ha hbare, useKey_of_not_goesBare hfull]
  intro heq
  exact h _ heq (by simp)

/-- Names without colons that are written in full have their own keys. -/
theorem expanded_eq_of_useKey_eq (ha : a.IsSpelled) (hb : b.IsSpelled) (hplain : a.IsPlain)
    (hplain' : b.IsPlain) (hfull : ¬ a.GoesBare) (hfull' : ¬ b.GoesBare)
    (h : Linking.useKey a = Linking.useKey b) : a.expanded = b.expanded := by
  rw [useKey_of_not_goesBare hfull, useKey_of_not_goesBare hfull'] at h
  -- the last colon of the key parts the namespace from the name
  have hcut := congrArg (Text.cutLast? ':') (Option.some.inj h)
  rw [show ":" = String.singleton ':' from rfl, Text.cutLast?_append (not_mem_getD hplain),
    Text.cutLast?_append (not_mem_getD hplain')] at hcut
  obtain ⟨hspace, hname⟩ := Prod.mk.inj (Option.some.inj hcut)
  obtain ⟨n, hn⟩ := Option.isSome_iff_exists.1 (ha.isSome_name hfull)
  obtain ⟨m, hm⟩ := Option.isSome_iff_exists.1 (hb.isSome_name hfull')
  rw [hn, hm, Option.getD_some, Option.getD_some] at hname
  have hnames : a.expanded.name = b.expanded.name := by rw [hn, hm, hname]
  exact congrArg₂ QName.mk hspace hnames

/-- Among names without colons, those of different namespaces are taken for one another if both go
by their local names, which are the same. -/
theorem passesFor_iff (ha : a.IsSpelled) (hb : b.IsSpelled) (hplain : a.IsPlain)
    (hplain' : b.IsPlain) : b.PassesFor a ↔
      b.GoesBare ∧ a.GoesBare ∧ b.expanded.name = a.expanded.name ∧
        b.expanded.space ≠ a.expanded.space := by
  unfold PassesFor
  by_cases hbare : a.GoesBare <;> by_cases hbare' : b.GoesBare
  · rw [useKey_of_goesBare ha hbare, useKey_of_goesBare hb hbare']
    constructor
    · rintro ⟨hne, hname⟩
      exact ⟨hbare', hbare, hname, fun hspace => hne (congrArg₂ QName.mk hspace hname)⟩
    · rintro ⟨-, -, hname, hspace⟩
      exact ⟨fun heq => hspace (congrArg QName.space heq), hname⟩
  · simpa [hbare, hbare'] using fun _ => (hplain.useKey_ne ha hbare hbare').symm
  · simpa [hbare, hbare'] using fun _ => hplain'.useKey_ne hb hbare' hbare
  · simpa [hbare, hbare'] using fun hne hkey =>
      hne (expanded_eq_of_useKey_eq hb ha hplain' hplain hbare' hbare hkey)

end Attribute

/-! ## What the uses of a type are -/

section Uses

variable {d : Declarations} {inherited added uses as before after : List AttributeId}
  {a : AttributeId}

/-- The attributes of a type after one that it inherits, or after one of them. -/
inductive Followed (inherited added : List AttributeId) : AttributeId → List AttributeId → Prop
  | inherited {a : AttributeId} (mem : a ∈ inherited) : Followed inherited added a added
  | added {a : AttributeId} {before after : List AttributeId} (split : added = before ++ a :: after) :
      Followed inherited added a after

/-- An attribute is meant to stay: it is not prohibited, and none of those after it has its name. -/
structure Remains (d : Declarations) (inherited added : List AttributeId) (a : AttributeId)
    (after : List AttributeId) : Prop where
  followed : Followed inherited added a after
  allowed : ¬ d.IsProhibited a
  unnamed : ∀ b ∈ after, (d.attr b).expanded ≠ (d.attr a).expanded

/-- An attribute that does not come again is the last of its key if none has this key after it. -/
theorem lastOf_iff_of_split (h : as = before ++ a :: after) (hlast : a ∉ after) :
    LastOf d as (d.key a) a ↔ ∀ b ∈ after, d.key b ≠ d.key a := by
  subst h
  constructor
  · rintro ⟨-, before', after', heq, hafter'⟩
    obtain ⟨between, -, heq⟩ | ⟨between, -, heq⟩ := List.append_eq_append_iff.1 heq
    · cases between with
      | nil =>
        obtain ⟨-, rfl⟩ := List.cons.inj heq
        exact hafter'
      | cons c between =>
        obtain ⟨-, rfl⟩ := List.cons.inj heq
        exact absurd (List.mem_append_right _ List.mem_cons_self) hlast
    · cases between with
      | nil =>
        obtain ⟨-, rfl⟩ := List.cons.inj heq
        exact hafter'
      | cons c between =>
        obtain ⟨-, rfl⟩ := List.cons.inj heq
        exact absurd rfl (hafter' a (List.mem_append_right _ List.mem_cons_self))
  · exact fun hafter => ⟨rfl, before, after, rfl, hafter⟩

/-- Whatever lies between an attribute and those of the type after it has another key. -/
theorem Followed.exists_split (h : Followed inherited added a after)
    (hkeys : (inherited.map d.key).Nodup) : ∃ before between,
      inherited ++ added = before ++ a :: (between ++ after) ∧ ∀ b ∈ between, d.key b ≠ d.key a := by
  cases h with
  | inherited mem =>
    obtain ⟨before, between, rfl⟩ := List.append_of_mem mem
    refine ⟨before, between, by simp, fun b hb heq => ?_⟩
    rw [List.map_append, List.map_cons] at hkeys
    exact (List.nodup_cons.1 (List.nodup_append.1 hkeys).2.1).1 (List.mem_map.2 ⟨b, hb, heq⟩)
  | @added before _ split =>
    exact ⟨inherited ++ before, [], by rw [split, List.append_assoc, List.nil_append], nofun⟩

/-- An attribute that is meant to stay is there, unless one after it passes for it. -/
theorem Effective.mem_uses_iff (h : Effective d inherited added uses)
    (hkeys : (inherited.map d.key).Nodup) (ha : Remains d inherited added a after) :
    a ∈ uses ↔ ∀ b ∈ after, ¬ (d.attr b).PassesFor (d.attr a) := by
  obtain ⟨before, between, hsplit, hbetween⟩ := ha.followed.exists_split hkeys
  have hlast : a ∉ between ++ after := by
    rw [List.mem_append]
    rintro (hmem | hmem)
    · exact hbetween a hmem rfl
    · exact ha.unnamed a hmem rfl
  calc a ∈ uses ↔ a ∈ uses ∧ d.key a = d.key a := (and_iff_left rfl).symm
    _ ↔ LastOf d (inherited ++ added) (d.key a) a ∧ ¬ d.IsProhibited a := h.mem_iff _ a
    _ ↔ LastOf d (inherited ++ added) (d.key a) a := and_iff_left ha.allowed
    _ ↔ ∀ b ∈ between ++ after, d.key b ≠ d.key a := lastOf_iff_of_split hsplit hlast
    _ ↔ ∀ b ∈ after, d.key b ≠ d.key a := by
      rw [List.forall_mem_append]
      exact and_iff_right hbetween
    _ ↔ ∀ b ∈ after, ¬ (d.attr b).PassesFor (d.attr a) :=
      forall₂_congr fun b hb => not_congr (and_iff_right (ha.unnamed b hb)).symm

/-- Uses of one name are one and the same, unless the name is written in two ways. -/
theorem Effective.nodup_expanded_iff (h : Effective d inherited added uses)
    (hspelled : ∀ a, (d.attr a).IsSpelled) :
    (uses.map fun a => (d.attr a).expanded).Nodup ↔
      ∀ a ∈ uses, ∀ b ∈ uses, (d.attr a).expanded = (d.attr b).expanded →
        ((d.attr a).GoesBare ↔ (d.attr b).GoesBare) := by
  have huses : uses.Nodup := h.distinct.of_map
  rw [List.nodup_map_iff_inj_on huses]
  constructor
  · intro hinj a ha b hb heq
    rw [hinj a ha b hb heq]
  · intro hway a ha b hb heq
    have hkey : d.key a = d.key b :=
      (Attribute.useKey_eq_iff (hspelled a) (hspelled b) heq).2 (hway a ha b hb heq)
    exact List.inj_on_of_nodup_map h.distinct ha hb hkey

end Uses

/-! ## Names of loaded sets -/

section Loaded

variable {s : SchemaSet} {d : Declarations} {w : Demand} {i : ComplexId}

/-- Linking changes no names. -/
theorem Frame.spelled (h : Frame s d) (hs : s.declared.Spelled w) : d.Spelled w where
  element i := by
    have hi : (s.declared.element i).asDeclared.IsSpelled :=
      ⟨(hs.element i).ref, (hs.element i).typeName, (hs.element i).substitution⟩
    rw [← h.element] at hi
    exact ⟨hi.ref, hi.typeName, hi.substitution⟩
  attr i := by
    have hi : (s.declared.attr i).asDeclared.IsSpelled := ⟨(hs.attr i).ref, (hs.attr i).typeName⟩
    rw [← h.attr] at hi
    exact ⟨hi.ref, hi.typeName⟩
  simpleType i := by
    have hi : (s.declared.simpleType i).asDeclared.IsSpelled :=
      ⟨(hs.simpleType i).baseName, (hs.simpleType i).itemName⟩
    rw [← h.simpleType] at hi
    exact ⟨hi.baseName, hi.itemName⟩
  complexType i := by
    have hi : (s.declared.complexType i).asDeclared.IsSpelled w :=
      ⟨(hs.complexType i).model, (hs.complexType i).particle, (hs.complexType i).attributeGroups⟩
    rw [← h.complexType] at hi
    exact ⟨hi.model, hi.particle, hi.attributeGroups⟩
  group i := by
    have hi := hs.group i
    rwa [Declarations.group, ← h.groups] at hi
  attributeGroup i := by
    have hi := hs.attributeGroup i
    rwa [Declarations.attributeGroup, ← h.attributeGroups] at hi

theorem SchemaSet.Loaded.spelled (h : s.Loaded) : s.declared.Spelled ⟨False, False⟩ := by
  refine Loaded.keeps (p := fun s => s.declared.Spelled ⟨False, False⟩)
    (Declarations.spelled_empty _) (fun s setting content _ hp => ?_) (fun s hs hp => ?_) h
  · exact (SchemaSet.spelled_read hp setting ⟨False.elim, False.elim⟩).1
  · exact (Frame.of_link hs).spelled hp

theorem Linked.nodup_inherited (h : Linked s d) (hs : s.Closed)
    (hi : i < s.declared.complexTypes.size) : ((d.inheritedUses i).map d.key).Nodup := by
  obtain ⟨b, own, added, hf⟩ := h.complex i hi
  unfold Declarations.inheritedUses
  rw [hf.base]
  match b, hf with
  | .simple _, _ => exact .nil
  | .complex .anyType, _ => exact .nil
  | .complex (.declared j), hf =>
    obtain ⟨_, _, hj⟩ := h.effective hs (hasType_of_complexBase? hs hf.named)
    exact hj.distinct

/-- An attribute that a type inherits or adds and that is meant to stay is among its uses, unless a
later one passes for it; two of its uses have one name only if they are written in two ways; and
among names without colons those are taken for one another that go by one local name but are of
different namespaces. -/
theorem attribute_uses_told_apart_iff (h : s.Loaded) (hi : i < s.declared.complexTypes.size) :
    ∃ added, Declares s (s.declared.complexType i) added ∧
      (∀ a after, Remains s.declared (s.declared.inheritedUses i) added a after →
        (a ∈ (s.declared.complexType i).uses ↔
          ∀ b ∈ after, ¬ (s.declared.attr b).PassesFor (s.declared.attr a))) ∧
      (((s.declared.complexType i).uses.map fun a => (s.declared.attr a).expanded).Nodup ↔
        ∀ a ∈ (s.declared.complexType i).uses, ∀ b ∈ (s.declared.complexType i).uses,
          (s.declared.attr a).expanded = (s.declared.attr b).expanded →
            ((s.declared.attr a).GoesBare ↔ (s.declared.attr b).GoesBare)) ∧
      ∀ a b, (s.declared.attr a).IsPlain → (s.declared.attr b).IsPlain →
        ((s.declared.attr b).PassesFor (s.declared.attr a) ↔
          (s.declared.attr b).GoesBare ∧ (s.declared.attr a).GoesBare ∧
            (s.declared.attr b).expanded.name = (s.declared.attr a).expanded.name ∧
            (s.declared.attr b).expanded.space ≠ (s.declared.attr a).expanded.space) := by
  obtain ⟨s₀, hs₀, hl, heq⟩ := h.isLinked
  have hi₀ := hl.frame.complexTypes_size ▸ hi
  obtain ⟨added, hadded, heffective⟩ := hl.effective hs₀ hi₀
  have hdeclares := hl.frame.declares hadded
  rw [← heq] at hdeclares
  refine ⟨added, hdeclares, fun a after ha => ?_, ?_, fun a b ha hb => ?_⟩
  · exact heffective.mem_uses_iff (hl.nodup_inherited hs₀ hi₀) ha
  · exact heffective.nodup_expanded_iff h.spelled.attr
  · exact Attribute.passesFor_iff (h.spelled.attr a) (h.spelled.attr b) ha hb

end Loaded

/-- In the namespace `urn:p`, `u` extends `t`, which has an `a` in no namespace, by an `a` in this
one; `v` has the latter twice, as a reference and declared in its place. -/
def mixingText : String :=
  "<s:schema xmlns:s=\"" ++ xsSpace ++ "\" xmlns:p=\"urn:p\" targetNamespace=\"urn:p\">" ++
    "<s:attribute name=\"a\"/><s:complexType name=\"t\"><s:attribute name=\"a\"/></s:complexType>" ++
    "<s:complexType name=\"u\"><s:complexContent><s:extension base=\"p:t\">" ++
    "<s:attribute name=\"a\" form=\"qualified\"/></s:extension></s:complexContent>" ++
    "</s:complexType><s:complexType name=\"v\"><s:attribute ref=\"p:a\"/>" ++
    "<s:attribute name=\"a\" form=\"qualified\"/></s:complexType></s:schema>"

def mixing : SchemaSet := .ofText mixingText

/-- What is declared in it: `u` inherits the attribute 1 and adds the attribute 2, and the uses of
`v` are the attributes 3 and 4. -/
theorem mixing_facts : (Loader.ofText mixingText).2 = .ok () ∧
    mixing.declared.complexTypes.size = 3 ∧
    Linking.ownAttributes (mixing.declared.complexType 1) = ([2], []) ∧
    1 ∈ mixing.declared.inheritedUses 1 ∧
    (¬ mixing.declared.IsProhibited 1 ∧ ¬ mixing.declared.IsProhibited 2) ∧
    (mixing.declared.attr 1).expanded = ⟨"", some "a"⟩ ∧
    (mixing.declared.attr 2).expanded = ⟨"urn:p", some "a"⟩ ∧
    (mixing.declared.attr 2).GoesBare ∧ 1 ∉ (mixing.declared.complexType 1).uses ∧
    (mixing.declared.complexType 2).uses = [3, 4] ∧
    (mixing.declared.attr 3).expanded = (mixing.declared.attr 4).expanded ∧
    ¬ (mixing.declared.attr 3).GoesBare ∧ (mixing.declared.attr 4).GoesBare := by
  rw [mixing, SchemaSet.ofText_eq, Loader.ofText_eq]
  decide +kernel

theorem mixing_loaded : mixing.Loaded := SchemaSet.loaded_ofText mixing_facts.1

theorem mixing_declares : Declares mixing (mixing.declared.complexType 1) [2] := by
  obtain ⟨-, -, hown, -⟩ := mixing_facts
  refine ⟨[], ?_, ?_⟩ <;> rw [hown]
  · exact .nil
  · rfl

/-- In `u` the attribute that it adds passes for the one that it inherits, so only the former stays;
and the uses of `v` cannot have distinct names. -/
theorem mixing_told_apart : mixing.Loaded ∧ 2 < mixing.declared.complexTypes.size ∧
    (mixing.declared.attr 2).PassesFor (mixing.declared.attr 1) ∧
    1 ∉ (mixing.declared.complexType 1).uses ∧ 2 ∈ (mixing.declared.complexType 1).uses ∧
    ¬ ((mixing.declared.complexType 2).uses.map fun a =>
      (mixing.declared.attr a).expanded).Nodup := by
  obtain ⟨-, hsize, -, hinherited, ⟨hallowed, hallowed'⟩, hname, hname', hbare, -, huses, hsame,
    hwhole, hbare'⟩ := mixing_facts
  have hi : 1 < mixing.declared.complexTypes.size := by omega
  have hi' : 2 < mixing.declared.complexTypes.size := by omega
  have hplain (a : Attribute) (hname : a.expanded.name = some "a") : a.IsPlain := by
    intro n hn
    rw [hname] at hn
    cases hn
    decide
  obtain ⟨added, hdeclares, hstays, -, htaken⟩ := attribute_uses_told_apart_iff mixing_loaded hi
  obtain rfl := hdeclares.unique mixing_declares
  have hpasses : (mixing.declared.attr 2).PassesFor (mixing.declared.attr 1) := by
    refine (htaken 1 2 (hplain _ (by rw [hname])) (hplain _ (by rw [hname']))).2 ?_
    exact ⟨hbare, .inr (by rw [hname]), by rw [hname, hname'], by rw [hname, hname']; decide⟩
  refine ⟨mixing_loaded, hi', hpasses, fun hin => ?_, ?_, fun hdistinct => ?_⟩
  · have hremains : Remains mixing.declared (mixing.declared.inheritedUses 1) [2] 1 [2] :=
      ⟨.inherited hinherited, hallowed, List.forall_mem_singleton.2 (by rw [hname, hname']; decide)⟩
    exact (hstays 1 [2] hremains).1 hin 2 (List.mem_singleton_self 2) hpasses
  · have hremains : Remains mixing.declared (mixing.declared.inheritedUses 1) [2] 2 [] :=
      ⟨.added (show [2] = [] ++ 2 :: [] from rfl), hallowed', nofun⟩
    exact (hstays 2 [] hremains).2 nofun
  · obtain ⟨-, -, -, hnames, -⟩ := attribute_uses_told_apart_iff mixing_loaded hi'
    have hways := hnames.1 hdistinct 3 (by rw [huses]; decide) 4 (by rw [huses]; decide) hsame
    exact hwhole (hways.2 hbare')

/-- The attribute that `u` inherits is meant to stay and is lost; and the uses of `v` have one name
twice. -/
theorem attributes_mixed_up : mixing.Loaded ∧
    (∃ added, Declares mixing (mixing.declared.complexType 1) added ∧
      ∃ a, Remains mixing.declared (mixing.declared.inheritedUses 1) added a added ∧
        a ∉ (mixing.declared.complexType 1).uses) ∧
    ¬ ((mixing.declared.complexType 2).uses.map fun a =>
      (mixing.declared.attr a).expanded).Nodup := by
  obtain ⟨-, -, -, hinherited, ⟨hallowed, -⟩, hname, hname', -, hlost, huses, hsame, -⟩ :=
    mixing_facts
  refine ⟨mixing_loaded,
    ⟨[2], mixing_declares, 1, ⟨.inherited hinherited, hallowed, ?_⟩, hlost⟩, ?_⟩
  · exact List.forall_mem_singleton.2 (by rw [hname, hname']; decide)
  · rw [huses, List.map_cons, List.map_singleton, hsame]
    exact fun hdistinct => (List.nodup_cons.1 hdistinct).1 (List.mem_singleton_self _)

end Schema
end SchemaPaths
