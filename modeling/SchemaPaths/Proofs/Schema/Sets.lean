/-
Sets that documents were read into.

A set is closed when everything in its tables and its documents is declared, its tables hold what
its documents have at their top, and what stands inside other declarations is as it should be.
Reading keeps a set closed, whatever becomes of the document.
-/
import SchemaPaths.Proofs.Schema.Reading
import SchemaPaths.Schema.Loading

namespace SchemaPaths
namespace Schema

theorem mem_of_lookup {α β : Type} [BEq α] [LawfulBEq α] {l : List (α × β)} {a : α} {b : β}
    (h : l.lookup a = some b) : (a, b) ∈ l := by
  obtain ⟨before, after, hl, -⟩ := List.lookup_eq_some_iff.1 h
  rw [hl]
  exact List.mem_append_right _ List.mem_cons_self

namespace Table

variable {α : Type} {q k : QName} {a b : α} {t : Table α}

theorem mem_of_find? (h : t.find? q = some a) : (q, a) ∈ t := mem_of_lookup h

theorem mem_put (h : (k, b) ∈ put q a t) : (k, b) = (q, a) ∨ (k, b) ∈ t := by
  induction t with
  | nil => exact .inl (List.mem_singleton.1 h)
  | cons e t ih =>
    obtain ⟨k', b'⟩ := e
    rw [put] at h
    split at h
    · rcases List.mem_cons.1 h with h | h
      · exact .inl h
      · exact .inr (List.mem_cons_of_mem _ h)
    · rcases List.mem_cons.1 h with h | h
      · exact .inr (h ▸ List.mem_cons_self)
      · exact (ih h).imp_right (List.mem_cons_of_mem _)

/-- What holds of all entries of a table still holds when more are put into it. -/
theorem forall_mem_foldl_put {β : Type} {p : QName × α → Prop} {l : List β} {key : β → QName}
    {val : β → α} (ht : ∀ e ∈ t, p e) (hl : ∀ x ∈ l, p (key x, val x)) :
    ∀ e ∈ l.foldl (fun t x => t.put (key x) (val x)) t, p e := by
  induction l generalizing t with
  | nil => exact ht
  | cons x l ih =>
    refine ih (fun e he => ?_) fun y hy => hl y (List.mem_cons_of_mem _ hy)
    rcases mem_put (show (e.1, e.2) ∈ _ from he) with h | h
    · rw [show e = (key x, val x) from h]
      exact hl x List.mem_cons_self
    · exact ht e h

/-- A name that is in a table stays there when more are put into it. -/
theorem isSome_find?_foldl_put {β : Type} {l : List β} {key : β → QName} {val : β → α}
    (h : (t.find? q).isSome) :
    ((l.foldl (fun t x => t.put (key x) (val x)) t).find? q).isSome := by
  induction l generalizing t with
  | nil => exact h
  | cons x l ih =>
    refine ih ?_
    rw [find?_put]
    split
    · rfl
    · exact h

/-- The names that are put into a table are in it. -/
theorem isSome_find?_foldl_put_of_mem {β : Type} {l : List β} (key : β → QName) {val : β → α}
    {x : β} (h : x ∈ l) :
    ((l.foldl (fun t x => t.put (key x) (val x)) t).find? (key x)).isSome := by
  induction l generalizing t with
  | nil => cases h
  | cons y l ih =>
    rcases List.mem_cons.1 h with rfl | h
    · have hput : ((put (key x) (val x) t).find? (key x)).isSome := by
        rw [find?_put, if_pos rfl]
        rfl
      rw [List.foldl_cons]
      exact isSome_find?_foldl_put hput
    · exact ih h

end Table

/-- A type that a document declares, rather than the schema language. -/
def TypeRef.IsDeclared : TypeRef → Prop
  | .simple (.declared _) => True
  | .complex (.declared _) => True
  | _ => False

namespace SchemaSet

/-- A type that stands at the top of a document, unless it needs no declaration. -/
def IsTop (s : SchemaSet) (t : TypeRef) : Prop :=
  t.IsDeclared → ∃ doc ∈ s.documents, t ∈ doc.types

/-- A type that an element may have: one without a name or one at the top. -/
def IsGiven (s : SchemaSet) (t : TypeRef) : Prop := s.declared.typeName t = none ∨ s.IsTop t

/-- The tables hold declarations from the top of documents, each under its name, and no group of a
document is missing from them, though another of its name may stand in its place. -/
structure Filed (s : SchemaSet) : Prop where
  elements : ∀ e ∈ s.elements, ∃ doc ∈ s.documents, e.2 ∈ doc.elements ∧
    e.1 = ⟨doc.space, (s.declared.element e.2).name⟩
  types : ∀ e ∈ s.types, ∃ doc ∈ s.documents, e.2 ∈ doc.types ∧
    e.1 = ⟨doc.space, s.declared.typeName e.2⟩
  groups : ∀ e ∈ s.groups, ∃ doc ∈ s.documents, e.2 ∈ doc.groups ∧
    e.1 = ⟨doc.space, (s.declared.group e.2).name⟩
  registered : ∀ doc ∈ s.documents, ∀ g ∈ doc.groups,
    (s.group? ⟨doc.space, (s.declared.group g).name⟩).isSome

/-- Everything a set lists is declared, and what has its type already is done with: it is no
reference, and the head it names is there. -/
structure Closed (s : SchemaSet) : Prop where
  declared : s.declared.Closed
  nested : s.declared.Nested
  filed : s.Filed
  elements : ∀ e ∈ s.elements, e.2 < s.declared.elements.size
  types : ∀ e ∈ s.types, s.declared.extent.HasType e.2
  groups : ∀ e ∈ s.groups, e.2 < s.declared.groups.size
  attributeGroups : ∀ e ∈ s.attributeGroups, e.2 < s.declared.attributeGroups.size ∧
    e.1 = ⟨(s.declared.attributeGroup e.2).space, (s.declared.attributeGroup e.2).name⟩
  documents : ∀ doc ∈ s.documents, GoodDocument s.declared doc
  typed : ∀ i, (s.declared.element i).type.isSome → (s.declared.element i).ref = none ∧
    ∀ q ∈ (s.declared.element i).substitution, (s.element? q).isSome
  given : ∀ i, ∀ t ∈ (s.declared.element i).type, s.IsGiven t

theorem closed_empty : Closed {} where
  declared := Declarations.closed_empty
  nested := Declarations.nested_empty
  filed := ⟨nofun, nofun, nofun, nofun⟩
  elements := nofun
  types := nofun
  groups := nofun
  attributeGroups := nofun
  documents := nofun
  typed _ := nofun
  given _ := nofun

variable {s : SchemaSet}

/-- What is in the tables keeps its name while more is read. -/
theorem Closed.filed_kept {d : Declarations} (h : s.Closed) (hk : s.declared.Kept d) :
    ({ s with declared := d } : SchemaSet).Filed where
  elements e he := by
    rw [hk.element e.2 (h.elements e he)]
    exact h.filed.elements e he
  types e he := by
    rw [hk.typeName e.2 (h.types e he)]
    exact h.filed.types e he
  groups e he := by
    rw [hk.group e.2 (h.groups e he)]
    exact h.filed.groups e he
  registered doc hdoc g hg := by
    rw [hk.group g ((h.documents doc hdoc).groups g hg)]
    exact h.filed.registered doc hdoc g hg

theorem Closed.grow {d : Declarations} (h : s.Closed) (hg : s.declared.Grows d) (hd : d.Closed) :
    ({ s with declared := d } : SchemaSet).Closed where
  declared := hd
  nested := hg.nested h.nested
  filed := h.filed_kept hg.toKept
  elements e he := Nat.lt_of_lt_of_le (h.elements e he) hg.extent.elements
  types e he := (h.types e he).mono hg.extent
  groups e he := Nat.lt_of_lt_of_le (h.groups e he) hg.extent.groups
  attributeGroups e he := by
    obtain ⟨hlt, heq⟩ := h.attributeGroups e he
    refine ⟨Nat.lt_of_lt_of_le hlt hg.extent.attributeGroups, ?_⟩
    rw [heq, hg.attributeGroup _ hlt]
  documents doc hdoc := (h.documents doc hdoc).grown hg
  typed i hi := by
    rcases Nat.lt_or_ge i s.declared.elements.size with hlt | hge
    · rw [hg.element i hlt] at hi ⊢
      exact h.typed i hi
    · rw [hg.unlinked i hge] at hi
      cases hi
  given i t ht := by
    rcases Nat.lt_or_ge i s.declared.elements.size with hlt | hge
    · rw [hg.element i hlt] at ht
      refine (h.given i t ht).imp_left fun hname => ?_
      exact (hg.typeName t ((h.declared.element i).type t ht)).trans hname
    · rw [hg.unlinked i hge] at ht
      cases ht

theorem IsTop.add {t : TypeRef} (h : s.IsTop t) (doc : Document) : (s.add doc).IsTop t := by
  intro hdeclared
  obtain ⟨doc', hdoc', ht⟩ := h hdeclared
  exact ⟨doc', List.mem_append_left _ hdoc', ht⟩

theorem Filed.add (h : s.Filed) (doc : Document) : (s.add doc).Filed := by
  have hlast : doc ∈ s.documents ++ [doc] := List.mem_append_right _ (List.mem_singleton_self doc)
  refine ⟨?_, ?_, ?_, fun doc' hdoc' g hg => ?_⟩
  · refine Table.forall_mem_foldl_put (fun e he => ?_) fun i hi => ⟨doc, hlast, hi, rfl⟩
    obtain ⟨doc', hdoc', hentry⟩ := h.elements e he
    exact ⟨doc', List.mem_append_left _ hdoc', hentry⟩
  · refine Table.forall_mem_foldl_put (fun e he => ?_) fun r hr => ⟨doc, hlast, hr, rfl⟩
    obtain ⟨doc', hdoc', hentry⟩ := h.types e he
    exact ⟨doc', List.mem_append_left _ hdoc', hentry⟩
  · refine Table.forall_mem_foldl_put (fun e he => ?_) fun i hi => ⟨doc, hlast, hi, rfl⟩
    obtain ⟨doc', hdoc', hentry⟩ := h.groups e he
    exact ⟨doc', List.mem_append_left _ hdoc', hentry⟩
  · rcases List.mem_append.1 hdoc' with hdoc' | hdoc'
    · exact Table.isSome_find?_foldl_put (h.registered doc' hdoc' g hg)
    · obtain rfl := List.mem_singleton.1 hdoc'
      exact Table.isSome_find?_foldl_put_of_mem
        (fun i => ⟨doc'.space, (s.declared.group i).name⟩) hg

theorem Closed.add {doc : Document} (h : s.Closed) (hdoc : GoodDocument s.declared doc) :
    (s.add doc).Closed where
  declared := h.declared
  nested := h.nested
  filed := h.filed.add doc
  elements := Table.forall_mem_foldl_put h.elements hdoc.elements
  types := Table.forall_mem_foldl_put h.types hdoc.types
  groups := Table.forall_mem_foldl_put h.groups hdoc.groups
  attributeGroups := by
    refine Table.forall_mem_foldl_put h.attributeGroups fun i hi => ?_
    obtain ⟨hlt, hspace⟩ := hdoc.attributeGroups i hi
    exact ⟨hlt, by rw [← hspace]; rfl⟩
  documents := forall_mem_snoc h.documents hdoc
  typed i hi := by
    obtain ⟨href, hsub⟩ := h.typed i hi
    exact ⟨href, fun q hq => Table.isSome_find?_foldl_put (hsub q hq)⟩
  given i t ht := (h.given i t ht).imp_right fun htop => htop.add doc

/-- What becomes of a set when a document is read into it. -/
theorem read_cases (h : s.Closed) (setting : Setting) (content : List Markup.Tree) :
    ∃ d, d.Closed ∧ s.declared.Grows d ∧
      (((s.read setting content).1 = { s with declared := d } ∧
        ∃ e, (s.read setting content).2 = .error e) ∨
      ∃ doc directives, GoodDocument d doc ∧
        s.read setting content = (({ s with declared := d } : SchemaSet).add doc, .ok directives)) := by
  have hread := reads_document (s := setting) content s.declared (.refl _) h.declared
  unfold Ensures at hread
  unfold SchemaSet.read
  split at hread
  · rename_i r d heq
    rw [heq]
    exact ⟨d, hread.1, hread.2.1, .inr ⟨r.1, r.2, hread.2.2, rfl⟩⟩
  · rename_i e d heq
    rw [heq]
    exact ⟨d, hread.1, hread.2, .inl ⟨rfl, e, rfl⟩⟩

theorem Closed.read (h : s.Closed) (setting : Setting) (content : List Markup.Tree) :
    (s.read setting content).1.Closed := by
  obtain ⟨d, hd, hg, ⟨heq, -⟩ | ⟨doc, ds, hdoc, heq⟩⟩ := read_cases h setting content
  · rw [heq]
    exact h.grow hg hd
  · rw [heq]
    exact (h.grow hg hd).add hdoc

/-! ## Parsed sets -/

/-- A set into which documents were read, and nothing else was done to it. -/
inductive Parsed : SchemaSet → Prop
  | empty : Parsed {}
  | read {s : SchemaSet} (h : Parsed s) (setting : Setting) (content : List Markup.Tree) :
      Parsed (s.read setting content).1

theorem Parsed.closed (h : Parsed s) : s.Closed := by
  induction h with
  | empty => exact closed_empty
  | read _ setting content ih => exact ih.read setting content

/-- Before linking no element has its type. -/
theorem Parsed.unlinked (h : Parsed s) (i : ElementId) : (s.declared.element i).type = none := by
  induction h with
  | empty => rfl
  | @read s h setting content ih =>
    obtain ⟨d, -, hg, hcase⟩ := read_cases h.closed setting content
    have hd : (d.element i).type = none := by
      rcases Nat.lt_or_ge i s.declared.elements.size with hlt | hge
      · rw [hg.element i hlt, ih]
      · exact hg.unlinked i hge
    obtain ⟨heq, -⟩ | ⟨doc, ds, -, heq⟩ := hcase
    · rw [heq]
      exact hd
    · rw [heq]
      exact hd

end SchemaSet
end Schema
end SchemaPaths
