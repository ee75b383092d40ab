/-
The documents that a load reads.

Documents refer to each other in any way, in circles too.  A load of files that were handed over
walks along the references depth first, reads each document where it is reached first, and always
comes to an end.  So a document without a namespace of its own gets that of the document whose
reference led to it first, or none if that reference is an import.
-/
import SchemaPaths.Proofs.DepthFirst
import SchemaPaths.Proofs.Loading.Stepping
import SchemaPaths.Proofs.Schema.Refusing
import SchemaPaths.Proofs.Schema.Tops
import Mathlib.Data.List.Perm.Subperm

namespace SchemaPaths
namespace Schema

open Relation

/-- Where a reference stands: in which document, of which namespace, and as what. -/
structure Origin where
  location : String
  space : String
  construct : Construct

/-- A reference to a document.  The primary document is referred to from outside. -/
structure Reference where
  target : String
  origin : Option Origin := none

/-- The namespace that a document may take over.  An import hands none on. -/
def Reference.adopted (r : Reference) : Option String :=
  r.origin.bind fun o => if o.construct == .imports then none else some o.space

namespace Source

/-- The tree of the schema document at a location. -/
def schema (source : Source) (location : String) : Except Failure Markup.Tree := do
  Loader.schemaOf location (← source.read location)

/-- The document at `a` refers to that at `b`: it includes, redefines or imports it. -/
def Refers (source : Source) (a b : String) : Prop :=
  ∃ tree, source.schema a = .ok tree ∧ ∃ d ∈ directivesOf tree.content, ∃ path,
    d.path? = some path ∧ source.resolve a path = .ok b

/-- The reference that a directive is in the document that `r` leads to, if it says where. -/
def reference? (source : Source) (r : Reference) (tree : Markup.Tree) (d : Directive) :
    Option Reference :=
  d.path?.bind fun path => (source.resolve r.target path).toOption.map fun target =>
    ⟨target, some ⟨r.target, spaceOf tree r.adopted, d.construct⟩⟩

/-- The references in the document that `r` leads to, in their order. -/
def references (source : Source) (r : Reference) : List Reference :=
  match source.schema r.target with
  | .ok tree => (directivesOf tree.content).filterMap (source.reference? r tree)
  | .error _ => []

theorem mem_references {source : Source} {r r' : Reference} :
    r' ∈ source.references r ↔ ∃ tree, source.schema r.target = .ok tree ∧
      ∃ d ∈ directivesOf tree.content, ∃ path, d.path? = some path ∧
        source.resolve r.target path = .ok r'.target ∧
        r'.origin = some ⟨r.target, spaceOf tree r.adopted, d.construct⟩ := by
  unfold references
  constructor
  · intro h
    split at h
    · rename_i tree htree
      obtain ⟨d, hd, h⟩ := List.mem_filterMap.1 h
      obtain ⟨path, hpath, h⟩ := Option.bind_eq_some_iff.1 h
      obtain ⟨target, htarget, rfl⟩ := Option.map_eq_some_iff.1 h
      refine ⟨tree, htree, d, hd, path, hpath, ?_, rfl⟩
      cases hresolve : source.resolve r.target path with
      | ok b =>
        rw [hresolve] at htarget
        exact congrArg Except.ok (Option.some.inj htarget)
      | error e =>
        rw [hresolve] at htarget
        cases htarget
    · cases h
  · obtain ⟨target, origin⟩ := r'
    rintro ⟨tree, htree, d, hd, path, hpath, hresolve, rfl⟩
    rw [htree]
    exact List.mem_filterMap.2 ⟨d, hd, by simp [reference?, hpath, hresolve, Except.toOption]⟩

theorem refers_iff (source : Source) (r : Reference) (b : String) :
    source.Refers r.target b ↔ ∃ r' ∈ source.references r, r'.target = b := by
  constructor
  · rintro ⟨tree, htree, d, hd, path, hpath, hb⟩
    exact ⟨⟨b, _⟩, mem_references.2 ⟨tree, htree, d, hd, path, hpath, hb, rfl⟩, rfl⟩
  · rintro ⟨r', hr', rfl⟩
    obtain ⟨tree, htree, d, hd, path, hpath, hb, -⟩ := mem_references.1 hr'
    exact ⟨tree, htree, d, hd, path, hpath, hb⟩

/-- The walk of a load along references. -/
abbrev Walk (source : Source) : List String → List Reference → List Reference → Prop :=
  DepthFirst Reference.target source.references

end Source

/-- The document that a reference leads to, as it is read for the sake of that reference. -/
structure ReadFor (source : Source) (r : Reference) (doc : Document) : Prop where
  location : doc.source = r.target
  space : ∃ tree, source.schema r.target = .ok tree ∧ doc.space = spaceOf tree r.adopted

theorem locations_of_readFor {source : Source} {way : List Reference} {docs : List Document}
    (h : List.Forall₂ (ReadFor source) way docs) :
    docs.map (·.source) = way.map Reference.target := by
  induction h with
  | nil => rfl
  | cons h _ ih => rw [List.map_cons, List.map_cons, ih, h.location]

theorem exists_readFor {source : Source} {way : List Reference} {docs : List Document}
    (h : List.Forall₂ (ReadFor source) way docs) {r : Reference} (hr : r ∈ way) :
    ∃ doc ∈ docs, ReadFor source r doc := by
  induction h with
  | nil => cases hr
  | @cons _ doc _ _ hdoc _ ih =>
    rcases List.mem_cons.1 hr with rfl | hr
    · exact ⟨doc, List.mem_cons_self, hdoc⟩
    · obtain ⟨doc', hdoc', hread⟩ := ih hr
      exact ⟨doc', List.mem_cons_of_mem _ hdoc', hread⟩

/-! ## Documents read one after the other -/

/-- Reading the document that a reference leads to makes one set into another. -/
def Source.Enters (source : Source) (r : Reference) (s s' : SchemaSet) : Prop :=
  ∃ bytes tree directives, source.read r.target = .ok bytes ∧
    Loader.schemaOf r.target bytes = .ok tree ∧
    s.read (Loader.settingOf r.target tree.attributes (Markup.Prefixes.ofBytes bytes) r.adopted)
      tree.content = (s', .ok directives)

/-- Reading the documents of some references in turn makes one set into another. -/
inductive Source.InTurn (source : Source) : SchemaSet → List Reference → SchemaSet → Prop
  | done (s : SchemaSet) : InTurn source s [] s
  | next {s s' s'' : SchemaSet} {r : Reference} {rest : List Reference}
      (enters : source.Enters r s s') (on : InTurn source s' rest s'') :
      InTurn source s (r :: rest) s''

theorem read_places (s : SchemaSet) (setting : Setting) (content : List Markup.Tree) :
    (∃ d e, Refusal setting.source e ∧
      s.read setting content = ({ s with declared := d }, .error e)) ∨
    ∃ d doc, doc.source = setting.source ∧ doc.space = setting.space ∧
      s.read setting content =
        (({ s with declared := d } : SchemaSet).add doc, .ok (directivesOf content)) := by
  have hrun := (Declaring.document_directives (s := setting) (d := s.declared) content).and
    (Declaring.refuses_document (s := setting) content s.declared)
  unfold Ensures at hrun
  unfold SchemaSet.read
  split at hrun <;> rename_i heq <;> rw [heq]
  · rename_i r d
    obtain ⟨⟨hsource, hspace, hdirectives⟩, -⟩ := hrun
    refine .inr ⟨d, r.1, hsource, hspace, ?_⟩
    rw [← hdirectives]
  · rename_i e d
    exact .inl ⟨d, e, hrun.2, rfl⟩

section Turns

variable {source : Source} {s s' s'' : SchemaSet} {r : Reference} {way way' : List Reference}

theorem Source.Enters.document (h : source.Enters r s s') :
    ∃ doc, ReadFor source r doc ∧ s'.documents = s.documents ++ [doc] := by
  obtain ⟨bytes, tree, directives, hbytes, htree, hread⟩ := h
  have hschema : source.schema r.target = .ok tree := by
    rw [Source.schema, hbytes]
    exact htree
  rcases read_places s (Loader.settingOf r.target tree.attributes
    (Markup.Prefixes.ofBytes bytes) r.adopted) tree.content with
    ⟨d, e, -, hplaces⟩ | ⟨d, doc, hsource, hspace, hplaces⟩
  · rw [hread] at hplaces
    cases congrArg Prod.snd hplaces
  · refine ⟨doc, ⟨hsource, tree, hschema, hspace⟩, ?_⟩
    rw [hread] at hplaces
    obtain rfl : s' = _ := congrArg Prod.fst hplaces
    rfl

namespace Source.InTurn

theorem append (h : source.InTurn s way s') (h' : source.InTurn s' way' s'') :
    source.InTurn s (way ++ way') s'' := by
  induction h with
  | done => exact h'
  | next enters _ ih => exact .next enters (ih h')

theorem documents (h : source.InTurn s way s') :
    ∃ docs, List.Forall₂ (ReadFor source) way docs ∧ s'.documents = s.documents ++ docs := by
  induction h with
  | done s => exact ⟨[], .nil, (List.append_nil _).symm⟩
  | next enters _ ih =>
    obtain ⟨doc, hdoc, hfirst⟩ := enters.document
    obtain ⟨docs, hdocs, hrest⟩ := ih
    refine ⟨doc :: docs, .cons hdoc hdocs, ?_⟩
    rw [hrest, hfirst, List.append_assoc, List.singleton_append]

end Source.InTurn

end Turns

namespace Loader

/-! ## One document -/

/-- What entering a document does to a loader. -/
theorem ensures_enter (setting : Setting) (content : List Markup.Tree) (l : Loader) :
    Ensures (enter setting content) l
      (fun directives l' => directives = directivesOf content ∧ l'.source = l.source ∧
        l.set.read setting content = (l'.set, .ok directives))
      fun e _ => Refusal setting.source e := by
  unfold enter
  refine ensures_bind.2 (ensures_get.2 ?_)
  obtain ⟨d, e, he, hread⟩ | ⟨d, doc, -, -, hread⟩ := read_places l.set setting content
  · rw [hread]
    exact he
  · rw [hread]
    exact ⟨rfl, rfl, rfl⟩

/-! ## The walk -/

/-- The documents of a loader are files that were handed over, each loaded once. -/
structure Steady (files : List (String × List UInt8)) (l : Loader) : Prop where
  source : l.source = .upload files
  nodup : l.locations.Nodup
  uploaded : ∀ x ∈ l.locations, x ∈ files.map (·.1)

/-- Since it was `l`, the loader has read the documents that a walk through `list` leads to. -/
def Walked (source : Source) (l : Loader) (list : List Reference) (l' : Loader) : Prop :=
  ∃ way, source.Walk l.locations list way ∧ source.InTurn l.set way l'.set

section Walks

variable {files : List (String × List UInt8)} {source : Source} {l l' l'' : Loader}
  {list list' : List Reference} {r : Reference}

theorem Steady.count_le (h : Steady files l) : l.set.documents.length ≤ files.length := by
  have hle := (List.subperm_of_subset h.nodup h.uploaded).length_le
  simpa [locations] using hle

/-- What only adds a notice keeps a loader steady. -/
theorem Steady.noticed (h : Steady files l) (ns : List Notice) :
    Steady files { l with notices := ns } := ⟨h.source, h.nodup, h.uploaded⟩

theorem Steady.enter (h : Steady files l) {doc : Document} (hnew : doc.source ∉ l.locations)
    (hfile : doc.source ∈ files.map (·.1)) (hsource : l'.source = l.source)
    (hdocs : l'.set.documents = l.set.documents ++ [doc]) : Steady files l' := by
  have hlocations : l'.locations = l.locations ++ [doc.source] := by
    rw [locations, hdocs, List.map_append, locations, List.map_singleton]
  refine ⟨hsource.trans h.source, ?_, ?_⟩
  · rw [hlocations]
    exact List.nodup_append_comm.1 (List.nodup_cons.2 ⟨hnew, h.nodup⟩)
  · intro x hx
    rw [hlocations] at hx
    rcases List.mem_append.1 hx with hx | hx
    · exact h.uploaded x hx
    · exact List.mem_singleton.1 hx ▸ hfile

theorem locations_inTurn {way : List Reference} (h : source.InTurn l.set way l'.set) :
    l'.locations = l.locations ++ way.map Reference.target := by
  obtain ⟨docs, hdocs, heq⟩ := h.documents
  rw [Loader.locations, heq, List.map_append, locations_of_readFor hdocs, Loader.locations]

theorem Walked.refl (source : Source) (l : Loader) : Walked source l [] l :=
  ⟨[], .done _, .done _⟩

theorem Walked.known (h : r.target ∈ l.locations) (ns : List Notice) :
    Walked source l [r] { l with notices := ns } :=
  ⟨[], .pass h (.done _), .done _⟩

theorem Walked.trans (h : Walked source l list l') (h' : Walked source l' list' l'') :
    Walked source l (list ++ list') l'' := by
  obtain ⟨way, hwalk, hread⟩ := h
  obtain ⟨way', hwalk', hread'⟩ := h'
  rw [locations_inTurn hread] at hwalk'
  exact ⟨way ++ way', hwalk.append hwalk', hread.append hread'⟩

/-- A document that is entered, and then the walk through its references. -/
theorem Walked.enter (hnew : r.target ∉ l.locations) (henters : source.Enters r l.set l'.set)
    (h : Walked source l' (source.references r) l'') : Walked source l [r] l'' := by
  obtain ⟨way, hwalk, hread⟩ := h
  rw [locations_inTurn (.next henters (.done _))] at hwalk
  exact ⟨r :: way, .single hnew hwalk, .next henters hread⟩

end Walks

section Loads

variable {files : List (String × List UInt8)}

/-- Reading an upload never takes for ever. -/
theorem read_upload {location : String} {bytes : List UInt8}
    (h : Source.read (.upload files) location = .ok bytes) : location ∈ files.map (·.1) := by
  unfold Source.read at h
  dsimp only at h
  split at h
  · rename_i found hfound
    obtain ⟨before, after, hfiles, -⟩ := List.lookup_eq_some_iff.1 hfound
    rw [hfiles]
    simp
  · cases h

theorem read_upload_ne_endless {location : String} :
    Source.read (.upload files) location ≠ .error .endless := by
  unfold Source.read
  dsimp only
  split <;> simp [Failure.load]

theorem resolve_upload_ne_endless {base path : String} :
    Source.resolve (.upload files) base path ≠ .error .endless := by
  unfold Source.resolve
  split <;> simp [Failure.load]

theorem schemaOf_ne_endless {location : String} {bytes : List UInt8} :
    schemaOf location bytes ≠ .error .endless := by
  have htree : treeOf location bytes ≠ .error .endless := by
    unfold treeOf
    split <;> simp [Failure.load]
  unfold schemaOf
  cases h : treeOf location bytes with
  | error e =>
    rintro ⟨⟩
    exact htree h
  | ok tree =>
    dsimp only [bind, Except.bind]
    split <;> simp [Failure.load]

theorem ne_endless_of_refusal {location : String} {e : Failure} (h : Refusal location e) :
    e ≠ .endless := by
  cases h <;> simp [Failure.load]

theorem filterMap_one {α β : Type} (f : α → Option β) (a : α) :
    [a].filterMap f = (f a).toList := by
  cases h : f a with
  | none => rw [List.filterMap_cons_none h, List.filterMap_nil, Option.toList_none]
  | some b => rw [List.filterMap_cons_some h, List.filterMap_nil, Option.toList_some]

/-- What reading one document for a reference does, once it is known of less fuel. -/
def Loads (files : List (String × List UInt8)) (fuel : Nat) : Prop :=
  ∀ (r : Reference) (l : Loader), Steady files l →
    files.length < fuel + l.set.documents.length →
    Ensures (loadDocument fuel r.target r.adopted) l
      (fun _ l' => Steady files l' ∧ Walked (.upload files) l [r] l') fun e _ => e ≠ .endless

theorem ensures_follow {fuel : Nat} (ih : Loads files fuel) (r : Reference) (tree : Markup.Tree)
    (d : Directive) {t : Loader} (ht : Steady files t)
    (hcount : files.length < fuel + t.set.documents.length) :
    Ensures (follow fuel r.target (spaceOf tree r.adopted) d) t
      (fun _ t' => Steady files t' ∧
        Walked (.upload files) t ((Source.upload files).reference? r tree d).toList t')
      fun e _ => e ≠ .endless := by
  unfold follow Source.reference?
  cases d.path? with
  | none =>
    dsimp only
    split
    · exact ensures_modify.2 ⟨ht.noticed _, .refl _ _⟩
    · exact ensures_throw.2 nofun
  | some path =>
    refine ensures_bind.2 (ensures_get.2 (ensures_bind.2 ?_))
    rw [ht.source]
    refine ensures_lift (fun child hchild => ?_) fun e he hend =>
      resolve_upload_ne_endless (hend ▸ he)
    rw [Option.bind_some, hchild]
    exact ensures_bind.2 (ensures_modify.2 (ih ⟨child, some ⟨r.target, spaceOf tree r.adopted,
      d.construct⟩⟩ { t with notices := _ } (ht.noticed _) hcount))

-- Every document on the way down is one more file, so there is fuel for all of them.
theorem ensures_loadDocument (fuel : Nat) : Loads files fuel := by
  induction fuel with
  | zero =>
    intro r l hl hfuel
    have := hl.count_le
    omega
  | succ fuel ih =>
    intro r l hl hfuel
    by_cases hknown : r.target ∈ l.locations
    · exact ensures_known hknown fun ns => ⟨hl.noticed ns, .known hknown ns⟩
    · refine ensures_new hknown (ensures_bind.2 (ensures_get.2 (ensures_bind.2 ?_)))
      rw [hl.source]
      refine ensures_lift (fun bytes hbytes => ?_) fun e he hend =>
        read_upload_ne_endless (hend ▸ he)
      refine ensures_bind.2 (ensures_lift (fun tree htree => ?_) fun e he hend =>
        schemaOf_ne_endless (hend ▸ he))
      refine ensures_bind.2 ((ensures_enter _ tree.content l).mono ?_
        fun e _ he => ne_endless_of_refusal he)
      rintro directives l₁ ⟨rfl, hsource, hread⟩
      have henters : (Source.upload files).Enters r l.set l₁.set :=
        ⟨bytes, tree, _, hbytes, htree, hread⟩
      obtain ⟨doc, hdoc, hdocs⟩ := henters.document
      have hl₁ : Steady files l₁ := hl.enter (hdoc.location ▸ hknown)
        (hdoc.location ▸ read_upload hbytes) hsource hdocs
      have hschema : (Source.upload files).schema r.target = .ok tree := by
        rw [Source.schema, hbytes]
        exact htree
      have hrefs : (Source.upload files).references r =
          (directivesOf tree.content).filterMap ((Source.upload files).reference? r tree) := by
        rw [Source.references, hschema]
      -- the references up to the one at hand have been walked through
      refine (ensures_forM (fun before t => Steady files t ∧ Walked (.upload files) l₁
        (before.filterMap ((Source.upload files).reference? r tree)) t) ⟨hl₁, .refl _ _⟩ ?_).mono
          (fun _ l' h => ⟨h.1, ?_⟩) fun _ _ he => he
      · rintro before d after t - ⟨ht, hwalked⟩
        have hcount : files.length < fuel + t.set.documents.length := by
          obtain ⟨_, -, hturn⟩ := hwalked
          obtain ⟨docs, -, htdocs⟩ := hturn.documents
          rw [htdocs, hdocs, List.length_append, List.length_append, List.length_singleton]
          omega
        refine (ensures_follow ih r tree d ht hcount).mono (fun _ t' h => ⟨h.1, ?_⟩)
          fun _ _ he => he
        rw [List.filterMap_append, filterMap_one]
        exact hwalked.trans h.2
      · exact .enter hknown henters (hrefs ▸ h.2)

end Loads

/-! ## Whole loads -/

/-- The location of a file that was handed over under a name. -/
def uploadName (name : String) : String := Location.normalize (Location.withSlashes name)

/-- Takes up a file that was handed over. -/
def holdFile (done : List (String × List UInt8)) (name : String) (bytes : List UInt8) :
    List (String × List UInt8) :=
  if done.any fun f => f.1 == name then
    done.map fun f => if f.1 == name then (name, bytes) else f
  else done ++ [(name, bytes)]

theorem mem_holdFile {done : List (String × List UInt8)} {name : String} {bytes : List UInt8}
    {f : String × List UInt8} (h : f ∈ holdFile done name bytes) : f = (name, bytes) ∨ f ∈ done := by
  unfold holdFile at h
  split at h
  · obtain ⟨f', hf', rfl⟩ := List.mem_map.1 h
    split
    · exact .inl rfl
    · exact .inr hf'
  · rcases List.mem_append.1 h with h | h
    · exact .inr h
    · exact .inl (List.mem_singleton.1 h)

/-- The files that an upload holds. -/
def heldFiles (files : List (String × List UInt8)) : List (String × List UInt8) :=
  files.foldl (fun done f => holdFile done (uploadName f.1) f.2) []

theorem ofFiles_eq (files : List (String × List UInt8)) :
    Source.ofFiles files = .upload (heldFiles files) := rfl

theorem mem_heldFiles {files : List (String × List UInt8)} {f : String × List UInt8}
    (h : f ∈ heldFiles files) : ∃ g ∈ files, f = (uploadName g.1, g.2) := by
  suffices ∀ done, f ∈ files.foldl (fun done f => holdFile done (uploadName f.1) f.2) done →
      (∃ g ∈ files, f = (uploadName g.1, g.2)) ∨ f ∈ done from
    (this [] h).resolve_right List.not_mem_nil
  clear h
  induction files with
  | nil => exact fun _ h => .inr h
  | cons g files ih =>
    intro done h
    rcases ih _ h with ⟨g', hg', hf⟩ | h
    · exact .inl ⟨g', List.mem_cons_of_mem _ hg', hf⟩
    · exact (mem_holdFile h).imp_left fun h => ⟨g, List.mem_cons_self, h⟩

theorem name_of_mem_heldFiles {files : List (String × List UInt8)} {f : String × List UInt8}
    (h : f ∈ heldFiles files) : f.1 ∈ files.map fun g => uploadName g.1 := by
  obtain ⟨g, hg, hf⟩ := mem_heldFiles h
  have hname : uploadName g.1 = f.1 := by rw [hf]
  exact List.mem_map.2 ⟨g, hg, hname⟩

section

variable {held : List (String × List UInt8)} {primary start : String}

theorem ensures_readAll (hstart : (Source.upload held).normalize primary = .ok start) :
    Ensures (readAll primary) { source := .upload held }
      (fun _ l => Steady held l ∧
        Walked (.upload held) { source := .upload held } [{ target := start }] l)
      fun e _ => e ≠ .endless := by
  have hsteady : Steady held { source := .upload held } :=
    ⟨rfl, List.nodup_nil, fun x hx => absurd hx List.not_mem_nil⟩
  unfold readAll
  refine ensures_bind.2 (ensures_get.2 (ensures_bind.2 ?_))
  rw [hstart]
  refine ensures_bind.2 (ensures_get.2 (ensures_bind.2 ?_))
  refine (ensures_loadDocument _ { target := start } _ hsteady ?_).mono ?_ fun _ _ he => he
  · exact Nat.lt_of_lt_of_le (Nat.lt_add_of_pos_right Nat.two_pos) (Nat.le_add_right _ _)
  · rintro - l ⟨hl, hwalked⟩
    exact ensures_bind.2 (ensures_get.2 (ensures_modify.2 ⟨hl.noticed _, hwalked⟩))

end

/-- A new loader of the files that were handed over. -/
def ofUpload (files : List (String × List UInt8)) : Loader := { source := Source.ofFiles files }

/-- A schema document with some attributes and some content. -/
def schemaBytes (attributes content : String) : List UInt8 :=
  ("<schema xmlns=\"" ++ xsSpace ++ "\"" ++ attributes ++ ">" ++ content ++
    "</schema>").toUTF8.toList

/-- A new loader of an upload comes to an end with whatever primary document, and unless it fails,
it has then read each document that can be reached from there once, at the name of a file.  They
stand in the order of a walk depth first, and each has the namespace that it got at the reference
which led to it first. -/
theorem readAll_walks_closure (files : List (String × List UInt8)) (primary : String) :
    Ensures (readAll primary) (ofUpload files)
      (fun _ l => l.locations.Nodup ∧
        (∀ x ∈ l.locations, x ∈ files.map fun f => uploadName f.1) ∧
        (∀ x, x ∈ l.locations ↔
          ReflTransGen (Source.ofFiles files).Refers (uploadName primary) x) ∧
        ∃ way, (Source.ofFiles files).Walk [] [{ target := uploadName primary }] way ∧
          List.Forall₂ (ReadFor (Source.ofFiles files)) way l.set.documents)
      fun e _ => e ≠ .endless := by
  rw [ofUpload, ofFiles_eq]
  have hnames := fun f => @name_of_mem_heldFiles files f
  generalize heldFiles files = held at hnames
  have hstart : (Source.upload held).normalize primary = .ok (uploadName primary) := rfl
  generalize uploadName primary = start at hstart
  refine (ensures_readAll hstart).mono ?_ fun _ _ he => he
  rintro - l ⟨hl, way, hwalk, hread⟩
  have hway : l.locations = way.map Reference.target := locations_inTurn hread
  obtain ⟨docs, hdocs, heq⟩ := hread.documents
  refine ⟨hl.nodup, fun x hx => ?_, fun x => ?_, way, hwalk, ?_⟩
  · obtain ⟨f, hf, rfl⟩ := List.mem_map.1 (hl.uploaded x hx)
    exact hnames f hf
  · rw [hway]
    exact DepthFirst.mem_places_iff (Source.refers_iff _) hwalk x
  · rw [heq]
    exact hdocs

end Loader
end Schema
end SchemaPaths
