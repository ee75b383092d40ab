/-
Attributes of other namespaces in loaded documents.

Whatever is loaded before and after a document, its elements stay where they were entered, one for
each of its start tags, with the attributes of other namespaces that stand in these.  Each of them is
found under its expanded name, and under that with the first prefix of its namespace.  In a document
that the search for prefixes reads as it is meant, one that is written with another prefix is not
found as it is written.
-/
import SchemaPaths.Proofs.Export.Rooting
import SchemaPaths.Proofs.Loading.Reloading
import SchemaPaths.Proofs.Schema.Extras
import SchemaPaths.Proofs.Schema.Resolving

namespace SchemaPaths

/-! ## What a prefix means in a document -/

namespace Markup

namespace Scoped

variable {t : Scoped} {p u : String}

/-- The root binds the prefix to the namespace, and no element binds it to another one. -/
structure Means (t : Scoped) (p u : String) : Prop where
  prefixed : p ≠ ""
  space : u ≠ ""
  own : t.own.expand? p = some u
  everywhere : ∀ d ∈ t.declarations, d.1 = p → d.2 = u

/-- Of all prefixes that the document first declares for the namespace this one comes first. -/
def IsFirst (t : Scoped) (p u : String) : Prop :=
  (Prefixes.ofDeclarations t.declarations).prefixOf? u = some p

instance (t : Scoped) (p u : String) : Decidable (t.IsFirst p u) :=
  inferInstanceAs (Decidable (_ = _))

theorem own_subset_declarations : ∀ t : Scoped, t.own ⊆ t.declarations
  | .text _ => List.Subset.refl _
  | .element .. => List.subset_append_left _ _

theorem Means.agree (h : t.Means p u) :
    ∀ d ∈ t.declarations, d.1 = p → t.own.expand? p = some d.2 := fun d hd hp => by
  rw [h.own, h.everywhere d hd hp]

theorem Means.expand?_declarations (h : t.Means p u) : Bindings.expand? t.declarations p = some u :=
  (expand?_eq t.own_subset_declarations (List.Subset.refl _) h.agree).trans h.own

/-- The only prefix of a namespace is the first one. -/
theorem Means.isFirst (h : t.Means p u)
    (honly : ∀ d ∈ ("xml", xmlSpace) :: t.declarations, d.2 = u → d.1 = p ∨ d.1 = "") :
    t.IsFirst p u := by
  have hlookup : (Prefixes.ofDeclarations t.declarations).lookup p = some u := by
    rw [Prefixes.lookup_ofDeclarations]
    exact h.expand?_declarations
  refine Prefixes.prefixOf?_of_only ?_ h.prefixed fun d hd => honly d ?_
  · obtain ⟨before, after, heq, -⟩ := List.lookup_eq_some_iff.1 hlookup
    exact heq ▸ List.mem_append_right _ List.mem_cons_self
  · exact List.mem_cons.2 (Prefixes.mem_ofDeclarations hd)

/-- A name that is written with the prefix is of the namespace, wherever it stands. -/
theorem Means.attr? (h : t.Means p u) (x : String) :
    ∀ b ∈ t.scopes [], b.attr? ⟨some p, x⟩ = some ⟨u, x⟩ := by
  intro b hb
  have hexpand : b.expand? p = some u :=
    (expand?_scopes h.agree b hb).symm.trans h.expand?_declarations
  simp [Bindings.attr?, hexpand]

end Scoped

end Markup

namespace Schema

open Markup (Name Prefixes Scoped)
open Declaring (elementTags extras TakenSince)

/-! ## Documents and their elements -/

/-- From the place `first` on stand the elements of a document, one for each of its start tags. -/
structure Document.Stands (doc : Document) (source : Source) (d : Declarations)
    (bytes : List UInt8) (tree : Markup.Tree) (first : Nat) : Prop where
  read : source.read doc.source = .ok bytes
  schema : Loader.schemaOf doc.source bytes = .ok tree
  top : ∀ i ∈ doc.elements, first ≤ i ∧ i < first + (elementTags tree.content).length
  size : first + (elementTags tree.content).length ≤ d.elements.size
  extra : ∀ k as, (elementTags tree.content)[k]? = some as → ∃ s : Setting,
    s.prefixes = Prefixes.ofBytes bytes ∧ (d.element (first + k)).extra = extras s as

theorem Declarations.extra_of_getElem? {d : Declarations} {i : ElementId}
    {x : List (String × String)} (h : d.extras[i]? = some x) : (d.element i).extra = x := by
  unfold extras at h
  rw [List.getElem?_map, Array.getElem?_toList] at h
  obtain ⟨e, he, rfl⟩ := Option.map_eq_some_iff.1 h
  simp [element, he]

section Documents

variable {doc : Document} {source : Source} {d d' : Declarations} {bytes : List UInt8}
  {tree : Markup.Tree} {first : Nat} {s : SchemaSet}

/-- What leaves the elements and their attributes leaves the document standing. -/
theorem Document.Stands.mono (h : doc.Stands source d bytes tree first)
    (hsize : d.elements.size ≤ d'.elements.size)
    (hextra : ∀ i < d.elements.size, (d'.element i).extra = (d.element i).extra) :
    doc.Stands source d' bytes tree first where
  read := h.read
  schema := h.schema
  top := h.top
  size := Nat.le_trans h.size hsize
  extra k as hk := by
    have hlt : first + k < d.elements.size :=
      Nat.lt_of_lt_of_le (Nat.add_lt_add_left (List.getElem?_eq_some_iff.1 hk).1 first) h.size
    rw [hextra _ hlt]
    exact h.extra k as hk

/-- All documents stand somewhere. -/
def AllStand (source : Source) (s : SchemaSet) : Prop :=
  ∀ doc ∈ s.documents, ∃ bytes tree first, doc.Stands source s.declared bytes tree first

theorem AllStand.grow (h : AllStand source s) (hgrows : s.declared.Grows d) :
    AllStand source { s with declared := d } := by
  intro doc hdoc
  obtain ⟨bytes, tree, first, hstands⟩ := h doc hdoc
  exact ⟨bytes, tree, first, hstands.mono hgrows.extent.elements fun i hi =>
    congrArg Element.extra (hgrows.element i hi)⟩

theorem AllStand.link (h : AllStand source s) (hs : s.Closed) : AllStand source s.link.1 := by
  have hframe := Frame.of_link hs
  intro doc hdoc
  obtain ⟨bytes, tree, first, hstands⟩ := h doc hdoc
  exact ⟨bytes, tree, first, hstands.mono hframe.elements_size.ge fun i _ =>
    (congrArg Element.extra (hframe.element i) :)⟩

/-- A document that is read stands behind all elements that were there. -/
theorem AllStand.read (h : AllStand source s) (hs : s.Closed) {setting : Setting}
    {content : List Markup.Tree} (hoffers : source.Offers setting content) :
    AllStand source (s.read setting content).1 := by
  obtain ⟨bytes, tree, adopted, hbytes, htree, rfl, hsetting⟩ := hoffers
  have hrun := (reads_document (s := setting) tree.content s.declared (.refl _) hs.declared).and
    ((Declaring.document_directives (s := setting) (d := s.declared) tree.content).and
      ((Declaring.enters_document (s := setting) tree.content s.declared).and
        (Declaring.document_taken (s := setting) (d := s.declared) tree.content)))
  unfold Ensures at hrun
  unfold SchemaSet.read
  split at hrun
  · rename_i r d heq
    obtain ⟨⟨-, hgrows, -⟩, ⟨hsource, -, -⟩, ⟨hextras, -⟩, htaken⟩ := hrun
    rw [heq]
    change AllStand source (({ s with declared := d } : SchemaSet).add r.1)
    have hsize : d.elements.size = s.declared.elements.size + (elementTags tree.content).length := by
      have hlength := congrArg List.length hextras
      rwa [List.length_append, List.length_map, Declarations.length_extras,
        Declarations.length_extras] at hlength
    intro doc hdoc
    rcases List.mem_append.1 hdoc with hdoc | hdoc
    · exact h.grow hgrows doc hdoc
    · obtain rfl := List.mem_singleton.1 hdoc
      refine ⟨bytes, tree, s.declared.elements.size, ?_⟩
      constructor
      · rwa [hsource]
      · rwa [hsource]
      · exact fun i hi => hsize ▸ htaken i hi
      · exact hsize.ge
      · intro k as hk
        refine ⟨setting, congrArg Setting.prefixes hsetting, Declarations.extra_of_getElem? ?_⟩
        change d.extras[s.declared.elements.size + k]? = _
        rw [hextras, ← Declarations.length_extras, List.getElem?_append_right (Nat.le_add_right _ _),
          Nat.add_sub_cancel_left, List.getElem?_map, hk]
        rfl
  · rename_i e d heq
    rw [heq]
    exact h.grow hrun.1.2

/-! ## What is found under a name -/

variable {k : Nat} {as : Attributes}

theorem Document.Stands.ofBytes (h : doc.Stands source d bytes tree first) :
    Markup.Document.ofBytes bytes = .ok tree := Loader.ofBytes_of_schemaOf h.schema

/-- The declarations in a document change nothing about its tree. -/
theorem Document.Stands.tree_eq (h : doc.Stands source d bytes tree first) {t : Scoped}
    (plain : Scoped.IsPlain bytes t) : t.tree = tree := by
  have hread := h.ofBytes
  rw [Scoped.ofBytes_eq, plain.read] at hread
  exact Except.ok.inj hread

theorem Document.Stands.lookup_text (h : doc.Stands source d bytes tree first)
    (hk : (elementTags tree.content)[k]? = some as) {n : Name} {v : String}
    (hv : as.lookup n = some v) (hspace : n.space ≠ "") (hown : n.space ≠ xsSpace) :
    (d.element (first + k)).extra.lookup n.text = some v := by
  obtain ⟨s, hprefixes, hextra⟩ := h.extra k as hk
  have hbare := Declaring.elementTags_bear (Markup.Document.unbraced_ofBytes h.ofBytes)
  have hletters : s.prefixes.Lettered := hprefixes ▸ Prefixes.lettered_ofBytes bytes
  rw [hextra]
  exact Declaring.lookup_extras_text hletters (hbare as (List.mem_of_getElem? hk)) hspace hown hv

/-- Under a prefixed name stands the attribute of the namespace that the search found for the
prefix, if it found no other one for that before. -/
theorem Document.Stands.lookup_prefixed (h : doc.Stands source d bytes tree first)
    (hk : (elementTags tree.content)[k]? = some as) {p u : String}
    (hlookup : (Prefixes.ofBytes bytes).lookup p = some u) (hspace : u ≠ "") (hown : u ≠ xsSpace)
    (x : String) : (d.element (first + k)).extra.lookup (p ++ ":" ++ x) =
      if (Prefixes.ofBytes bytes).prefixOf? u = some p then as.lookup ⟨u, x⟩ else none := by
  obtain ⟨s, hprefixes, hextra⟩ := h.extra k as hk
  have hsettled : s.prefixes.Settled := hprefixes ▸ Prefixes.settled_ofDeclarations _
  have hletters : s.prefixes.Lettered := hprefixes ▸ Prefixes.lettered_ofBytes bytes
  rw [hextra, ← hprefixes]
  exact Declaring.lookup_extras_prefixed hsettled hletters (hprefixes ▸ hlookup) hspace hown

/-- Where the search reads a document as it is meant, that is the first prefix of the namespace. -/
theorem Document.Stands.lookup_meant (h : doc.Stands source d bytes tree first)
    (hk : (elementTags tree.content)[k]? = some as) {t : Scoped} (plain : Scoped.IsPlain bytes t)
    {p u : String} (hmeans : t.Means p u) (hown : u ≠ xsSpace) (x : String) :
    (d.element (first + k)).extra.lookup (p ++ ":" ++ x) =
      if t.IsFirst p u then as.lookup ⟨u, x⟩ else none := by
  have heq := Prefixes.ofBytes_eq plain
  have hlookup : (Prefixes.ofBytes bytes).lookup p = some u := by
    rw [heq, Prefixes.lookup_ofDeclarations]
    exact hmeans.expand?_declarations
  rw [h.lookup_prefixed hk hlookup hmeans.space hown, heq]
  rfl

end Documents

namespace Loader

/-- Every document of a loader stands somewhere. -/
theorem Reached.allStand {l : Loader} (hl : l.Reached) : AllStand l.source l.set :=
  hl.keepsFrom (fun _ => nofun) (fun _ _ _ _ hs hoffers h => h.read hs hoffers)
    fun _ _ hs h => h.link hs

/-- Whatever a loader has read, the elements of each document have the attributes of other
namespaces that stand in their start tags under the expanded names of these.  Under a prefixed name
they have the attribute of the namespace that the search finds for the prefix, or nothing if the
search found another prefix for the namespace before.  In a document that the search reads as it is
meant, an attribute that is written with a prefix of one meaning is thus found as it is written just
if no other prefix of its namespace comes first, as none does if there is no other. -/
theorem extras_found {l : Loader} (hl : l.Reached) {doc : Document}
    (hdoc : doc ∈ l.set.documents) :
    ∃ bytes tree first, doc.Stands l.source l.set.declared bytes tree first ∧
      (∀ t, Scoped.IsPlain bytes t → t.tree = tree) ∧
      ∀ k as, (elementTags tree.content)[k]? = some as →
        (∀ n v, as.lookup n = some v → n.space ≠ "" → n.space ≠ xsSpace →
          (l.set.declared.element (first + k)).extra.lookup n.text = some v) ∧
        (∀ p u, (Prefixes.ofBytes bytes).lookup p = some u → u ≠ "" → u ≠ xsSpace →
          ∀ x, (l.set.declared.element (first + k)).extra.lookup (p ++ ":" ++ x) =
            if (Prefixes.ofBytes bytes).prefixOf? u = some p then as.lookup ⟨u, x⟩ else none) ∧
        ∀ t, Scoped.IsPlain bytes t → ∀ p u, t.Means p u → u ≠ xsSpace →
          ((∀ d ∈ ("xml", Markup.xmlSpace) :: t.declarations, d.2 = u → d.1 = p ∨ d.1 = "") →
            t.IsFirst p u) ∧
          ∀ x v, as.lookup ⟨u, x⟩ = some v →
            (∀ b ∈ t.scopes [], b.attr? ⟨some p, x⟩ = some ⟨u, x⟩) ∧
            (l.set.declared.element (first + k)).extra.lookup (p ++ ":" ++ x) =
              if t.IsFirst p u then some v else none := by
  obtain ⟨bytes, tree, first, hstands⟩ := hl.allStand doc hdoc
  refine ⟨bytes, tree, first, hstands, fun t plain => hstands.tree_eq plain, fun k as hk => ?_⟩
  refine ⟨?_, ?_, ?_⟩
  · intro n v hv hspace hown
    exact hstands.lookup_text hk hv hspace hown
  · intro p u hlookup hspace hown x
    exact hstands.lookup_prefixed hk hlookup hspace hown x
  · intro t plain p u hmeans hown
    refine ⟨hmeans.isFirst, fun x v hv => ⟨hmeans.attr? x, ?_⟩⟩
    rw [hstands.lookup_meant hk plain hmeans hown, hv]

/-- Two prefixes of one namespace, of which the element uses the second, and one of another. -/
def doublyText : String :=
  "<s:schema xmlns:s=\"" ++ xsSpace ++ "\" xmlns:p=\"u\" xmlns:q=\"u\" xmlns:r=\"w\">" ++
    "<s:element name=\"e\" q:l=\"v\" r:l=\"z\"/></s:schema>"

def doublyBytes : List UInt8 := doublyText.toUTF8.toList

def doubly : Loader := (Loader.ofText doublyText).1

theorem doubly_facts : (Loader.ofText doublyText).2 = .ok () ∧
    (∃ doc ∈ doubly.set.documents, doc.source = "a.xsd") ∧
    doubly.set.declared.elements.size = 1 ∧
    (doubly.set.declared.element 0).extra.lookup "q:l" = none ∧
    (doubly.set.declared.element 0).extra.lookup "p:l" = some "v" := by
  rw [doubly, Loader.ofText_eq]
  decide +kernel

theorem doubly_read : doubly.source.read "a.xsd" = .ok doublyBytes := by
  rw [doubly, Loader.ofText, load_source]
  rfl

/-- The element's attributes of other namespaces are written with the second prefix and the third. -/
theorem doubly_meant : ∃ t, Scoped.IsPlain doublyBytes t ∧
    (elementTags t.tree.content)[0]? =
      some [(⟨"", "name"⟩, "e"), (⟨"u", "l"⟩, "v"), (⟨"w", "l"⟩, "z")] ∧
    t.Means "q" "u" ∧ t.Means "r" "w" ∧ t.IsFirst "r" "w" := by
  have hfacts : (Scoped.ofBytes doublyBytes).toOption.any (fun t =>
        ((∀ w ∈ t.written, w.IsPlain) ∧ t.written.map Markup.Written.pair = t.declarations ∧
          Prefixes.shapes (Text.Utf8.decodeLossy doublyBytes) ≤ t.declarations.length) ∧
        (elementTags t.tree.content)[0]? =
          some [(⟨"", "name"⟩, "e"), (⟨"u", "l"⟩, "v"), (⟨"w", "l"⟩, "z")] ∧
        (t.own.expand? "q" = some "u" ∧ ∀ d ∈ t.declarations, d.1 = "q" → d.2 = "u") ∧
        (t.own.expand? "r" = some "w" ∧ ∀ d ∈ t.declarations, d.1 = "r" → d.2 = "w") ∧
        t.IsFirst "r" "w") ∧
      Markup.Document.isUtf8 doublyBytes = true ∧
      (Text.Utf8.decodeStrict doublyBytes).2 = true := by
    rw [doublyBytes, utf8_eq]
    decide +kernel
  obtain ⟨hread, hutf8, hwhole⟩ := hfacts
  obtain ⟨t, hread, ht⟩ := exists_ok_of_any hread
  obtain ⟨⟨hplain, hcounting, honly⟩, htags, hq, hr, hfirst⟩ := of_decide_eq_true ht
  have plain : Scoped.IsPlain doublyBytes t :=
    ⟨hread, Markup.Document.exists_of_isUtf8 hutf8, hwhole, hplain, hcounting, honly⟩
  exact ⟨t, plain, htags, ⟨by decide, by decide, hq.1, hq.2⟩, ⟨by decide, by decide, hr.1, hr.2⟩,
    hfirst⟩

theorem extras_found_doubly : doubly.Reached ∧ ∃ doc ∈ doubly.set.documents, ∃ tree first,
    doc.Stands doubly.source doubly.set.declared doublyBytes tree first ∧
      (doubly.set.declared.element first).extra.lookup "\x7bu\x7dl" = some "v" ∧
      (doubly.set.declared.element first).extra.lookup "r:l" = some "z" := by
  have hreached : doubly.Reached := .load (.fresh _) "a.xsd"
  obtain ⟨-, ⟨doc, hdoc, hsource⟩, -⟩ := doubly_facts
  obtain ⟨t, plain, htags, -, hr, hfirst⟩ := doubly_meant
  obtain ⟨bytes, tree, first, hstands, htree, hfound⟩ := extras_found hreached hdoc
  obtain rfl : doublyBytes = bytes :=
    Except.ok.inj (doubly_read.symm.trans (hsource ▸ hstands.read))
  obtain rfl := htree t plain
  obtain ⟨htext, -, hmeant⟩ := hfound 0 _ htags
  have hz := ((hmeant t plain "r" "w" hr (by decide)).2 "l" "z" (by decide)).2
  rw [if_pos hfirst] at hz
  exact ⟨hreached, doc, hdoc, t.tree, first, hstands,
    htext ⟨"u", "l"⟩ "v" (by decide) (by decide) (by decide), hz⟩

/-- What is written with the second prefix of its namespace is not found as it is written, but with
the first prefix, which no attribute is written with. -/
theorem second_prefix_lost : (Loader.ofText doublyText).2 = .ok () ∧
    (∃ t, Scoped.IsPlain doublyBytes t ∧ t.Means "q" "u" ∧
      (elementTags t.tree.content)[0]? =
        some [(⟨"", "name"⟩, "e"), (⟨"u", "l"⟩, "v"), (⟨"w", "l"⟩, "z")]) ∧
    doubly.set.declared.elements.size = 1 ∧
    (doubly.set.declared.element 0).extra.lookup "q:l" = none ∧
    (doubly.set.declared.element 0).extra.lookup "p:l" = some "v" := by
  obtain ⟨hload, -, hsize, hlost, hfound⟩ := doubly_facts
  obtain ⟨t, plain, htags, hq, -⟩ := doubly_meant
  exact ⟨hload, ⟨t, plain, hq, htags⟩, hsize, hlost, hfound⟩

end Loader
end Schema
end SchemaPaths
