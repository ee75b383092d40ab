/-
Where the names of a document without a namespace are found.

Such a document is read once, for the reference that reaches it first, and all that it declares goes
into the namespace that this reference hands on.  Whoever else includes it gets nothing of it into
a namespace of its own.
-/
import SchemaPaths.Proofs.Loading.Following
import SchemaPaths.Proofs.Schema.Listing
import SchemaPaths.Proofs.Loading

namespace SchemaPaths
namespace Schema

/-! ## Reading in turn -/

section Turns

variable {source : Source} {s s' : SchemaSet} {r : Reference} {way : List Reference}

theorem Source.Enters.files (h : source.Enters r s s') (hs : s.Closed) :
    s'.Closed ∧ (∀ what q, s.Files q what → s'.Files q what) ∧
      ∀ tree, source.schema r.target = .ok tree →
        ∀ what, ∀ n ∈ namesAt what tree.content, s'.Files ⟨spaceOf tree r.adopted, n⟩ what := by
  obtain ⟨bytes, tree, directives, hbytes, htree, hread⟩ := h
  obtain ⟨hkeeps, hfiles⟩ := SchemaSet.read_files hs hread
  refine ⟨?_, hkeeps, fun tree' htree' => ?_⟩
  · have hclosed := hs.read (Loader.settingOf r.target tree.attributes
      (Markup.Prefixes.ofBytes bytes) r.adopted) tree.content
    rwa [hread] at hclosed
  · have hsame : source.schema r.target = .ok tree := by
      rw [Source.schema, hbytes]
      exact htree
    obtain rfl : tree' = tree := Except.ok.inj (htree'.symm.trans hsame)
    exact hfiles

theorem Source.InTurn.files (h : source.InTurn s way s') (hs : s.Closed) :
    (∀ what q, s.Files q what → s'.Files q what) ∧
      ∀ r ∈ way, ∀ tree, source.schema r.target = .ok tree →
        ∀ what, ∀ n ∈ namesAt what tree.content, s'.Files ⟨spaceOf tree r.adopted, n⟩ what := by
  induction h with
  | done => exact ⟨fun _ _ h => h, nofun⟩
  | next enters _ ih =>
    obtain ⟨hclosed, hkeeps, hfirst⟩ := enters.files hs
    obtain ⟨hkeeps', hrest⟩ := ih hclosed
    refine ⟨fun what q h => hkeeps' what q (hkeeps what q h), fun r' hr' tree htree what n hn => ?_⟩
    rcases List.mem_cons.1 hr' with rfl | hr'
    · exact hkeeps' what _ (hfirst tree htree what n hn)
    · exact hrest r' hr' tree htree what n hn

/-- A reference on the way stands in a document that was read, unless the walk starts with it. -/
theorem Source.Walk.origin {list : List Reference} {docs : List Document}
    (h : source.Walk [] list way) (hdocs : List.Forall₂ (ReadFor source) way docs) (hr : r ∈ way) :
    r ∈ list ∨ ∃ doc ∈ docs, ∃ c, r.origin = some ⟨doc.source, doc.space, c⟩ := by
  refine (h.mem_next r hr).imp_right ?_
  rintro ⟨r₀, hr₀, hnext⟩
  obtain ⟨doc, hdoc, hlocation, tree, htree, hspace⟩ := exists_readFor hdocs hr₀
  obtain ⟨tree', htree', d, -, -, -, -, horigin⟩ := Source.mem_references.1 hnext
  obtain rfl : tree = tree' := Except.ok.inj (htree.symm.trans htree')
  refine ⟨doc, hdoc, d.construct, ?_⟩
  rw [hlocation, hspace]
  exact horigin

end Turns

/-! ## Loads -/

namespace Loader

section Loads

variable {held : List (String × List UInt8)} {primary start : String}

theorem ensures_linkAll_same (l : Loader) :
    Ensures linkAll l (fun _ l' => ∃ d, l'.set = { l.set with declared := d }) fun _ _ => True := by
  unfold linkAll
  refine ensures_bind.2 (ensures_get.2 (ensures_bind.2 (ensures_modify.2 (ensures_bind.2 ?_))))
  exact ensures_lift (fun _ _ => ⟨_, rfl⟩) fun _ _ => trivial

/-- A load that succeeded has read what the walk leads to, and then linked it. -/
theorem walked_of_load (hstart : (Source.upload held).normalize primary = .ok start)
    (hload : (Loader.load { source := .upload held } primary).2 = .ok ()) :
    ∃ way, (Source.upload held).Walk [] [{ target := start }] way ∧
      ∃ s d, (Source.upload held).InTurn {} way s ∧
        (Loader.load { source := .upload held } primary).1.set = { s with declared := d } := by
  have hrun : Ensures (loadAll primary) { source := .upload held }
      (fun _ l => ∃ way, (Source.upload held).Walk [] [{ target := start }] way ∧
        ∃ s d, (Source.upload held).InTurn {} way s ∧ l.set = { s with declared := d })
      fun _ _ => True := by
    refine ensures_bind.2 ((ensures_readAll hstart).mono ?_ fun _ _ _ => trivial)
    rintro - l ⟨-, way, hwalk, hturn⟩
    refine (ensures_linkAll_same l).mono (fun _ l' hl' => ?_) fun _ _ _ => trivial
    obtain ⟨d, hset⟩ := hl'
    exact ⟨way, hwalk, l.set, d, hturn, hset⟩
  exact load_ok hrun hload

end Loads

/-- After a load that succeeded, everything at the top of a document without a namespace is found in
the namespace that the first reference to it hands on: that of the document in which it stands, or
none if it is an import or the document is the primary one.  Only the types of the schema language
itself are found in its namespace. -/
theorem load_files_adopted {files : List (String × List UInt8)} {primary : String}
    (hok : ((ofUpload files).load primary).2 = .ok ()) :
    ∃ way, (Source.ofFiles files).Walk [] [{ target := uploadName primary }] way ∧
      ((ofUpload files).load primary).1.locations = way.map Reference.target ∧
      ∀ r ∈ way, ∀ tree, (Source.ofFiles files).schema r.target = .ok tree →
        valueOf? tree.attributes "targetNamespace" = none →
        (∀ o ∈ r.origin, ∃ doc ∈ ((ofUpload files).left primary).documents,
          doc.source = o.location ∧ doc.space = o.space) ∧
        ∀ what n, some n ∈ namesAt what tree.content →
          (what = .type → r.adopted.getD "" ≠ xsSpace) →
          ((ofUpload files).left primary).Finds ⟨r.adopted.getD "", some n⟩ what := by
  rw [left, ofUpload, ofFiles_eq] at *
  generalize heldFiles files = held at hok ⊢
  have hstart : (Source.upload held).normalize primary = .ok (uploadName primary) := rfl
  generalize uploadName primary = start at hstart ⊢
  obtain ⟨way, hwalk, s, d, hturn, hset⟩ := walked_of_load hstart hok
  obtain ⟨docs, hdocs, hdocuments⟩ := hturn.documents
  obtain ⟨-, hfiles⟩ := hturn.files SchemaSet.closed_empty
  refine ⟨way, hwalk, ?_, fun r hr tree htree hnone => ⟨fun o ho => ?_, fun what n hn hspace => ?_⟩⟩
  · rw [Loader.locations, hset, hdocuments]
    exact locations_of_readFor hdocs
  · rcases Source.Walk.origin hwalk hdocs hr with h | ⟨doc, hdoc, c, horigin⟩
    · rw [List.mem_singleton.1 h] at ho
      cases ho
    · obtain rfl : ⟨doc.source, doc.space, c⟩ = o := Option.some.inj (horigin.symm.trans ho)
      refine ⟨doc, ?_, rfl, rfl⟩
      rw [hset, hdocuments]
      exact List.mem_append_right _ hdoc
  · rw [hset]
    have hfile := hfiles r hr tree htree what (some n) hn
    rw [spaceOf, hnone, Option.getD_none] at hfile
    exact SchemaSet.Files.finds (by cases what <;> exact hfile) hspace

/-! ## A document that takes over a namespace -/

def partFiles : List (String × List UInt8) :=
  [("a", schemaBytes " targetNamespace=\"u\"" "<include schemaLocation=\"p\"/>"),
    ("p", schemaBytes "" "<element name=\"e\"/>")]

theorem part_loads : ((ofUpload partFiles).load "a").2 = .ok () := by decide +kernel

theorem load_files_adopted_part : ((ofUpload partFiles).load "a").2 = .ok () ∧
    ∃ way, (Source.ofFiles partFiles).Walk [] [{ target := uploadName "a" }] way ∧
      ((ofUpload partFiles).load "a").1.locations = way.map Reference.target ∧
      ∀ r ∈ way, ∀ tree, (Source.ofFiles partFiles).schema r.target = .ok tree →
        valueOf? tree.attributes "targetNamespace" = none →
        (∀ o ∈ r.origin, ∃ doc ∈ ((ofUpload partFiles).left "a").documents,
          doc.source = o.location ∧ doc.space = o.space) ∧
        ∀ what n, some n ∈ namesAt what tree.content →
          (what = .type → r.adopted.getD "" ≠ xsSpace) →
          ((ofUpload partFiles).left "a").Finds ⟨r.adopted.getD "", some n⟩ what :=
  ⟨part_loads, load_files_adopted part_loads⟩

/-! ## A document shared by two namespaces -/

/-- Documents of two namespaces that include a third, which has none. -/
def sharedFiles : List (String × List UInt8) :=
  [("a", schemaBytes " targetNamespace=\"u\""
      "<include schemaLocation=\"p\"/><import schemaLocation=\"b\"/>"),
    ("b", schemaBytes " targetNamespace=\"v\"" "<include schemaLocation=\"p\"/>"),
    ("p", schemaBytes "" "<element name=\"e\"/>")]

theorem exists_ok_of_any {ε α : Type} {r : Except ε α} {p : α → Bool}
    (h : r.toOption.any p = true) : ∃ a, r = .ok a ∧ p a = true := by
  cases r with
  | ok a => exact ⟨a, rfl, h⟩
  | error e => cases h

/-- The include in the second of them comes too late, so its namespace has nothing of the third. -/
theorem shared_name_not_found :
    ((ofUpload sharedFiles).load "a").2 = .ok () ∧
    (∃ doc ∈ ((ofUpload sharedFiles).left "a").documents, doc.source = "b" ∧ doc.space = "v") ∧
    (∃ tree, (Source.ofFiles sharedFiles).schema "b" = .ok tree ∧
      ∃ d ∈ directivesOf tree.content, d.construct = .includes ∧ ∃ path, d.path? = some path ∧
        (Source.ofFiles sharedFiles).resolve "b" path = .ok "p") ∧
    (∃ tree, (Source.ofFiles sharedFiles).schema "p" = .ok tree ∧
      valueOf? tree.attributes "targetNamespace" = none ∧
      some "e" ∈ namesAt .element tree.content) ∧
    ¬ ((ofUpload sharedFiles).left "a").Finds ⟨"v", some "e"⟩ .element := by
  have hload : ((ofUpload sharedFiles).load "a").2 = .ok () ∧
      (∃ doc ∈ ((ofUpload sharedFiles).left "a").documents, doc.source = "b" ∧ doc.space = "v") ∧
      ¬ ((ofUpload sharedFiles).left "a").Finds ⟨"v", some "e"⟩ .element := by
    decide +kernel
  have hb : ((Source.ofFiles sharedFiles).schema "b").toOption.any (fun tree =>
      (directivesOf tree.content).any fun d => d.construct == .includes &&
        d.path? == some "p") := by decide +kernel
  have hp : ((Source.ofFiles sharedFiles).schema "p").toOption.any (fun tree =>
      valueOf? tree.attributes "targetNamespace" == none &&
        (namesAt .element tree.content).contains (some "e")) := by decide +kernel
  obtain ⟨hok, hincluder, hmissing⟩ := hload
  obtain ⟨tree, htree, hdirective⟩ := exists_ok_of_any hb
  obtain ⟨d, hd, hd'⟩ := List.any_eq_true.1 hdirective
  obtain ⟨hconstruct, hpath⟩ := Bool.and_eq_true_iff.1 hd'
  obtain ⟨part, hpart, hnames⟩ := exists_ok_of_any hp
  obtain ⟨hnone, hname⟩ := Bool.and_eq_true_iff.1 hnames
  exact ⟨hok, hincluder, ⟨tree, htree, d, hd, eq_of_beq hconstruct, "p", eq_of_beq hpath,
    by decide +kernel⟩, ⟨part, hpart, eq_of_beq hnone, List.contains_iff_mem.1 hname⟩, hmissing⟩

end Loader

end Schema
end SchemaPaths
