/-
Declarations with names of their own.

A table holds what the documents list, one entry for each name.  Where no name is used twice nothing
takes the place of anything else, so what is found under a name does not depend on the order in which
the declarations came: sets that differ in that alone find the same under each name.
-/
import SchemaPaths.Proofs.Schema.Listing
import SchemaPaths.Proofs.Schema.Permuting

namespace SchemaPaths
namespace Schema

open Renaming

/-! ## Tables -/

namespace Table

variable {α : Type} {t t' : Table α} {q : QName} {a : α}

/-- The table that entries make, one put in after the other. -/
def ofEntries (l : List (QName × α)) : Table α := l.foldl (fun t e => t.put e.1 e.2) []

theorem put_of_new (h : q ∉ t.names) (a : α) : t.put q a = t ++ [(q, a)] := by
  induction t with
  | nil => rfl
  | cons e t ih =>
    obtain ⟨hne, hnew⟩ := List.ne_and_not_mem_of_not_mem_cons h
    rw [put, if_neg (Ne.symm hne), ih hnew, List.cons_append]

/-- Where no name comes twice, all entries stay in their order. -/
theorem ofEntries_eq {l : List (QName × α)} (h : (l.map (·.1)).Nodup) : ofEntries l = l := by
  suffices ∀ done : Table α, ((done ++ l).map (·.1)).Nodup →
      l.foldl (fun t e => t.put e.1 e.2) done = done ++ l from this [] h
  clear h
  induction l with
  | nil => exact fun done _ => (List.append_nil done).symm
  | cons e l ih =>
    intro done h
    rw [List.append_cons] at h ⊢
    have hnew : e.1 ∉ done.names := by
      rw [List.map_append, List.map_append] at h
      have hfront := (List.nodup_append.1 h).1
      exact fun hmem => (List.nodup_append.1 hfront).2.2 _ hmem _ (List.mem_singleton_self _) rfl
    rw [List.foldl_cons, put_of_new hnew, ih _ h]

theorem find?_eq_some_iff (h : t.names.Nodup) : t.find? q = some a ↔ (q, a) ∈ t := by
  refine ⟨mem_of_find?, fun hmem => ?_⟩
  induction t with
  | nil => cases hmem
  | cons e t ih =>
    obtain ⟨hnew, hnodup⟩ := List.nodup_cons.1 h
    rcases List.mem_cons.1 hmem with rfl | hmem
    · exact List.lookup_cons_self
    · have hlater : q ∈ t.map (·.1) := List.mem_map.2 ⟨_, hmem, rfl⟩
      have hne : q ≠ e.1 := fun heq => by
        rw [heq] at hlater
        exact hnew hlater
      rw [find?, List.lookup_cons, beq_eq_false_iff_ne.2 hne]
      exact ih hnodup hmem

/-- The tables hold the same under the same names, which differ. -/
structure Rearranged (f : α → α) (t t' : Table α) : Prop where
  nodup : t.names.Nodup
  perm : t'.Perm (t.map fun e => (e.1, f e.2))

namespace Rearranged

variable {f g : α → α}

theorem names_perm (h : Rearranged f t t') : t'.names.Perm t.names := by
  have hnames := h.perm.map (·.1)
  rwa [List.map_map] at hnames

theorem nodup' (h : Rearranged f t t') : t'.names.Nodup := h.names_perm.nodup_iff.2 h.nodup

theorem mem (h : Rearranged f t t') (hmem : (q, a) ∈ t) : (q, f a) ∈ t' :=
  h.perm.mem_iff.2 (List.mem_map.2 ⟨_, hmem, rfl⟩)

theorem find? (h : Rearranged f t t') (q : QName) : t'.find? q = (t.find? q).map f := by
  cases hfind : t.find? q with
  | some a => exact (find?_eq_some_iff h.nodup').2 (h.mem (mem_of_find? hfind))
  | none =>
    cases hfind' : t'.find? q with
    | none => rfl
    | some b =>
      obtain ⟨e, he, heq⟩ := List.mem_map.1 (h.perm.mem_iff.1 (mem_of_find? hfind'))
      have hq : e.1 = q := congrArg Prod.fst heq
      rw [(find?_eq_some_iff h.nodup).2 (show (q, e.2) ∈ t from hq ▸ he)] at hfind
      cases hfind

theorem symm (h : Rearranged f t t') (hback : ∀ a, g (f a) = a) : Rearranged g t' t where
  nodup := h.nodup'
  perm := by
    have hperm := (h.perm.map fun e => (e.1, g e.2)).symm
    rw [List.map_map] at hperm
    simpa only [Function.comp_def, hback, Prod.mk.eta, List.map_id'] using hperm

end Rearranged

theorem rearranged_ofEntries {l l' : List (QName × α)} {f : α → α}
    (h : l'.Perm (l.map fun e => (e.1, f e.2))) (hnodup : (l.map (·.1)).Nodup) :
    (ofEntries l).Rearranged f (ofEntries l') := by
  have hnames := h.map (·.1)
  rw [List.map_map] at hnames
  rw [ofEntries_eq hnodup, ofEntries_eq (hnames.nodup_iff.2 hnodup)]
  exact ⟨hnodup, h⟩

end Table

/-! ## What documents list -/

/-- The entries that documents make in a table. -/
def entries {α : Type} (docs : List Document) (members : Document → List α)
    (name : α → Option String) : List (QName × α) :=
  docs.flatMap fun doc => (members doc).map fun a => (⟨doc.space, name a⟩, a)

section Entries

variable {α : Type} {docs docs' : List Document} {members : Document → List α}
  {name name' : α → Option String}

theorem entries_congr (h : ∀ doc ∈ docs, ∀ a ∈ members doc, name a = name' a) :
    entries docs members name = entries docs members name' := by
  unfold entries
  refine List.flatMap_congr fun doc hdoc => List.map_congr_left fun a ha => ?_
  rw [h doc hdoc a ha]

theorem ofEntries_add (docs : List Document) (doc : Document) (members : Document → List α)
    (name : α → Option String) :
    Table.ofEntries (entries (docs ++ [doc]) members name) =
      (members doc).foldl (fun t a => t.put ⟨doc.space, name a⟩ a)
        (Table.ofEntries (entries docs members name)) := by
  rw [entries, List.flatMap_append, Table.ofEntries, List.foldl_append, List.flatMap_singleton,
    List.foldl_map]
  rfl

theorem map_entries (docs : List Document) (members : Document → List α)
    (name : α → Option String) : (entries docs members name).map (·.1) =
      docs.flatMap fun doc => ((members doc).map name).map fun n => (⟨doc.space, n⟩ : QName) := by
  simp only [entries, List.map_flatMap, List.map_map]
  rfl

theorem perm_entries {f : α → α} {ρ : Renaming}
    (h : List.Forall₂ (fun doc doc' => doc'.Alike (doc.rename ρ)) docs docs')
    (hmembers : ∀ doc doc' : Document, doc'.Alike (doc.rename ρ) →
      (members doc').Perm ((members doc).map f))
    (hname : ∀ a, name' (f a) = name a) :
    (entries docs' members name').Perm ((entries docs members name).map fun e => (e.1, f e.2)) := by
  induction h with
  | nil => exact .nil
  | @cons doc doc' docs docs' hdoc _ ih =>
    simp only [entries, List.flatMap_cons, List.map_append] at ih ⊢
    refine List.Perm.append ?_ ih
    have hhere := (hmembers doc doc' hdoc).map fun a => ((⟨doc'.space, name' a⟩ : QName), a)
    have hspace : doc'.space = doc.space := hdoc.space.symm
    simpa only [List.map_map, Function.comp_def, hname, hspace] using hhere

end Entries

/-! ## Sets -/

namespace SchemaSet

/-- The tables are made of what the documents list. -/
structure Tabled (s : SchemaSet) : Prop where
  elements : s.elements = .ofEntries (entries s.documents Document.elements
    fun i => (s.declared.element i).name)
  types : s.types = .ofEntries (entries s.documents Document.types s.declared.typeName)
  groups : s.groups = .ofEntries (entries s.documents Document.groups
    fun i => (s.declared.group i).name)
  attributes : s.attributes = .ofEntries (entries s.documents Document.attributes
    fun i => (s.declared.attr i).name)
  attributeGroups : s.attributeGroups = .ofEntries (entries s.documents Document.attributeGroups
    fun i => (s.declared.attributeGroup i).name)

/-- No two declarations of one kind at the top of documents have the same name. -/
def DistinctlyNamed (s : SchemaSet) : Prop :=
  ∀ what, (s.documents.flatMap fun doc =>
    (doc.names s.declared what).map fun n => (⟨doc.space, n⟩ : QName)).Nodup

instance (s : SchemaSet) : Decidable s.DistinctlyNamed :=
  decidable_of_iff (∀ what ∈ [Symbol.element, .type, .group, .attr, .attrGroup],
    (s.documents.flatMap fun doc =>
      (doc.names s.declared what).map fun n => (⟨doc.space, n⟩ : QName)).Nodup)
    ⟨fun h what => h what (by cases what <;> decide), fun h what _ => h what⟩

variable {s : SchemaSet}

theorem Tabled.grow {d : Declarations} (h : s.Tabled) (hs : s.Closed) (hk : s.declared.Kept d) :
    ({ s with declared := d } : SchemaSet).Tabled where
  elements := h.elements.trans (congrArg _ (entries_congr fun doc hdoc i hi => by
    rw [hk.element i ((hs.documents doc hdoc).elements i hi)]))
  types := h.types.trans (congrArg _ (entries_congr fun doc hdoc t ht =>
    (hk.typeName t ((hs.documents doc hdoc).types t ht)).symm))
  groups := h.groups.trans (congrArg _ (entries_congr fun doc hdoc i hi => by
    rw [hk.group i ((hs.documents doc hdoc).groups i hi)]))
  attributes := h.attributes.trans (congrArg _ (entries_congr fun doc hdoc i hi => by
    rw [hk.attr i ((hs.documents doc hdoc).attributes i hi)]))
  attributeGroups := h.attributeGroups.trans (congrArg _ (entries_congr fun doc hdoc i hi => by
    rw [hk.attributeGroup i ((hs.documents doc hdoc).attributeGroups i hi).1]))

theorem Tabled.add (h : s.Tabled) (doc : Document) : (s.add doc).Tabled where
  elements := by
    change List.foldl _ s.elements _ = Table.ofEntries (entries (s.documents ++ [doc]) _ _)
    rw [ofEntries_add, h.elements]
    rfl
  types := by
    change List.foldl _ s.types _ = Table.ofEntries (entries (s.documents ++ [doc]) _ _)
    rw [ofEntries_add, h.types]
    rfl
  groups := by
    change List.foldl _ s.groups _ = Table.ofEntries (entries (s.documents ++ [doc]) _ _)
    rw [ofEntries_add, h.groups]
    rfl
  attributes := by
    change List.foldl _ s.attributes _ = Table.ofEntries (entries (s.documents ++ [doc]) _ _)
    rw [ofEntries_add, h.attributes]
    rfl
  attributeGroups := by
    change List.foldl _ s.attributeGroups _ = Table.ofEntries (entries (s.documents ++ [doc]) _ _)
    rw [ofEntries_add, h.attributeGroups]
    rfl

theorem Parsed.tabled (h : s.Parsed) : s.Tabled := by
  induction h with
  | empty => exact ⟨rfl, rfl, rfl, rfl, rfl⟩
  | @read s h setting content ih =>
    obtain ⟨d, -, hg, ⟨heq, -⟩ | ⟨doc, ds, -, heq⟩⟩ := read_cases h.closed setting content
    · rw [heq]
      exact ih.grow h.closed hg.toKept
    · rw [heq]
      exact (ih.grow h.closed hg.toKept).add doc

/-! ## Sets alike -/

/-- The sets have the same documents, the same declarations in other places, and under each name the
same. -/
structure Rearranged (ρ σ : Renaming) (s s' : SchemaSet) : Prop extends Alike ρ σ s s' where
  elements : s.elements.Rearranged (ρ .element) s'.elements
  types : s.types.Rearranged (·.rename ρ) s'.types
  groups : s.groups.Rearranged (ρ .group) s'.groups
  attributes : s.attributes.Rearranged (ρ .attr) s'.attributes
  attributeGroups : s.attributeGroups.Rearranged (ρ .attributeGroup) s'.attributeGroups

variable {s' : SchemaSet} {ρ σ : Renaming}

theorem Alike.symm (h : Alike ρ σ s s') : Alike σ ρ s' s where
  declared := h.declared.symm
  documents := by
    refine (List.Forall₂.flip h.documents).imp fun doc' doc hdoc => ?_
    have hback := (Document.Alike.rename hdoc σ).symm
    rwa [Document.rename_rename, h.declared.back, Document.rename_same] at hback

/-- Where names differ, sets alike find the same under each name. -/
theorem Alike.rearranged (h : Alike ρ σ s s') (hs : s.Tabled) (hs' : s'.Tabled)
    (distinct : s.DistinctlyNamed) : Rearranged ρ σ s s' where
  toAlike := h
  elements := by
    rw [hs.elements, hs'.elements]
    refine Table.rearranged_ofEntries (perm_entries h.documents (fun _ _ hdoc => hdoc.elements.symm)
      fun i => (congrArg Element.name (h.declared.element i) :)) ?_
    rw [map_entries]
    exact distinct .element
  types := by
    rw [hs.types, hs'.types]
    refine Table.rearranged_ofEntries (perm_entries h.documents (fun _ _ hdoc => hdoc.types.symm)
      h.declared.typeName) ?_
    rw [map_entries]
    exact distinct .type
  groups := by
    rw [hs.groups, hs'.groups]
    refine Table.rearranged_ofEntries (perm_entries h.documents (fun _ _ hdoc => hdoc.groups.symm)
      fun i => (congrArg Group.name (h.declared.group i) :)) ?_
    rw [map_entries]
    exact distinct .group
  attributes := by
    rw [hs.attributes, hs'.attributes]
    refine Table.rearranged_ofEntries (perm_entries h.documents
      (fun _ _ hdoc => hdoc.attributes.symm) fun i => (congrArg Attribute.name (h.declared.attr i) :)) ?_
    rw [map_entries]
    exact distinct .attr
  attributeGroups := by
    rw [hs.attributeGroups, hs'.attributeGroups]
    refine Table.rearranged_ofEntries (perm_entries h.documents
      (fun _ _ hdoc => hdoc.attributeGroups.symm)
      fun i => (congrArg AttributeGroup.name (h.declared.attributeGroup i) :)) ?_
    rw [map_entries]
    exact distinct .attrGroup

namespace Rearranged

variable (h : Rearranged ρ σ s s')
include h

theorem symm : Rearranged σ ρ s' s where
  toAlike := h.toAlike.symm
  elements := h.elements.symm (h.declared.back_apply .element)
  types := h.types.symm fun t => by rw [TypeRef.rename_rename, h.declared.back, TypeRef.rename_same]
  groups := h.groups.symm (h.declared.back_apply .group)
  attributes := h.attributes.symm (h.declared.back_apply .attr)
  attributeGroups := h.attributeGroups.symm (h.declared.back_apply .attributeGroup)

/-! ## Look-ups -/

theorem element? (q : QName) : s'.element? q = (s.element? q).map (ρ .element) :=
  h.elements.find? q

theorem type? (q : QName) : s'.type? q = (s.type? q).map (·.rename ρ) := by
  unfold SchemaSet.type?
  split
  · cases q.name with
    | none => rfl
    | some n =>
      simp only [Option.bind_some]
      split
      · rfl
      · cases Builtin.find? n <;> rfl
  · exact h.types.find? q

theorem group? (q : QName) : s'.group? q = (s.group? q).map (ρ .group) := h.groups.find? q

theorem attr? (q : QName) : s'.attr? q = (s.attr? q).map (ρ .attr) := h.attributes.find? q

theorem attributeGroup? (q : QName) :
    s'.attributeGroup? q = (s.attributeGroup? q).map (ρ .attributeGroup) :=
  h.attributeGroups.find? q

end Rearranged

end SchemaSet
end Schema
end SchemaPaths
