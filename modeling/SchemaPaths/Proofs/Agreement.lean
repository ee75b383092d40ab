/-
Where paths lead, dependencies lead, too.

A walk along paths goes into every element that it meets, and the graph has an edge for a reference
only where it is met first.  Main statement: what a walk enters by a reference can be reached in the
graph from the root of the walk, if one may also pass from what has content to the local elements in
it, between what shares a reference, and from what has an empty name to what it refers to.  A
reference at the top of a document that has a type written in it has a content for walks alone.
-/
import SchemaPaths.Proofs.Export.Chains
import SchemaPaths.Proofs.Graph.Meaning
import SchemaPaths.Proofs.Graph.Searching

namespace SchemaPaths

open Schema Export.Paths SchemaPaths.Graph Graph.Dependencies Relation

/-- A walk from an element that skips nothing goes down this chain and into its last element: each
stands in the content of the one before, and no name comes twice. -/
structure Enters (s : SchemaSet) (root : ElementId) (c : Chain) : Prop where
  follows : Follows s [root] c.particles
  distinct : (names s c.particles).Nodup

instance (s : SchemaSet) (root : ElementId) (c : Chain) : Decidable (Enters s root c) :=
  decidable_of_iff (Follows s [root] c.particles ∧ (names s c.particles).Nodup)
    ⟨fun h => ⟨h.1, h.2⟩, fun h => ⟨h.follows, h.distinct⟩⟩

/-- A walk from the one element, which can be found by name, enters the other by a reference. -/
def EntersReference (s : SchemaSet) (root target : ElementId) : Prop :=
  (∃ q, s.element? q = some root) ∧ ∃ c q, Enters s root c ∧
    (s.declared.element c.last.1).ref = some q ∧ s.element? q = some target

/-- A walk enters an element by a reference, and no edges lead there from its root. -/
def Missed (s : SchemaSet) (groups : Bool) (root target : ElementId) : Prop :=
  EntersReference s root target ∧ ∃ edges, ofSchemaSet s groups = .ok edges ∧
    ¬ ReflTransGen (Leads edges) (s.declared.element root).name (s.declared.element target).name

/-- What a graph has no edges for.  Items have local elements in their content; two items may share a
reference in it, which is met on account of one of them; and items with empty names have no edges
for their references. -/
inductive Tie (s : SchemaSet) (groups : Bool) : NodeName → NodeName → Prop
  | inside {x : Item} {n : Node} {e : ElementId} (noGroup : ∀ g, x ≠ .group g) (holds : Owns s x n)
      (leaf : e ∈ n.leaves) (noRef : (s.declared.element e).ref = none) :
      Tie s groups (x.name s.declared) (s.declared.element e).name
  | shared {x y : Item} {n m : Node} {e : ElementId} {q : QName} (noGroup : ∀ g, x ≠ .group g)
      (holds : Owns s x n) (leaf : e ∈ n.leaves) (walked : groups = false → ∀ g, y ≠ .group g)
      (other : Owns s y m) (leafToo : e ∈ m.leaves) (ref : (s.declared.element e).ref = some q) :
      Tie s groups (x.name s.declared) (y.name s.declared)
  | blank {x : Item} {n : Node} {e r : ElementId} {q : QName}
      (blank : ¬ isNamed (x.name s.declared)) (holds : Owns s x n) (leaf : e ∈ n.leaves)
      (ref : (s.declared.element e).ref = some q) (found : s.element? q = some r) :
      Tie s groups (x.name s.declared) (s.declared.element r).name

/-- No element at the top of a document is a reference with a type written in it. -/
def PlainReferences (s : SchemaSet) : Prop :=
  ∀ doc ∈ s.documents, ∀ e ∈ doc.elements, (s.declared.element e).ref.isSome →
    (s.declared.element e).inline = none

instance (s : SchemaSet) : Decidable (PlainReferences s) :=
  inferInstanceAs (Decidable (∀ _ ∈ _, _))

/-- One name leads to the other along an edge or a tie. -/
def Joined (s : SchemaSet) (groups : Bool) (edges : List (Edge NodeName)) (a b : NodeName) : Prop :=
  Leads edges a b ∨ Tie s groups a b

section Descent

variable {s : SchemaSet} {groups : Bool} {c : Collection} {met : List Meeting} {e y : ElementId}

/-! ## What references mean -/

theorem meantId_of_ref {q : QName} {r : ElementId} (href : (s.declared.element e).ref = some q)
    (hr : s.element? q = some r) : meantId s e = r := by
  simp [meantId, href, hr]

theorem meantId_of_noRef (href : (s.declared.element e).ref = none) : meantId s e = e := by
  simp [meantId, href]

/-- A reference is called by the name of what it refers to. -/
theorem meant_name (hw : s.Walkable) : (meant s e).name = (s.declared.element e).name := by
  rcases href : (s.declared.element e).ref with _ | q
  · rw [meant, meantId_of_noRef href]
  · obtain ⟨r, hr⟩ := found_reference hw href
    rw [meant, meantId_of_ref href hr, (top_of_element? hw hr).2,
      (hw.closed.nested.element e).ref q href]

/-- What a reachable element means can be reached. -/
theorem reachable_meantId (hw : s.Walkable) {top : List ElementId} (he : Reachable s top e) :
    Reachable s top (meantId s e) := by
  rcases href : (s.declared.element e).ref with _ | q
  · rw [meantId_of_noRef href]
    exact he
  · obtain ⟨r, hr⟩ := found_reference hw href
    rw [meantId_of_ref href hr]
    exact he.further (.reference href hr)

/-- What has content for a walk is no reference. -/
theorem noRef_of_resolvedType (hw : s.Walkable) (hp : PlainReferences s) {t : TypeRef}
    (ht : resolvedType s e = some t) : (s.declared.element (meantId s e)).ref = none := by
  rcases href : (s.declared.element e).ref with _ | q
  · rw [meantId_of_noRef href]
    exact href
  · obtain ⟨r, hr⟩ := found_reference hw href
    obtain ⟨doc, hdoc, htop⟩ := List.mem_flatMap.1 (top_of_element? hw hr).1
    rw [resolvedType, meant, meantId_of_ref href hr] at ht
    rw [meantId_of_ref href hr]
    by_contra hsome
    have hisSome : (s.declared.element r).ref.isSome := Option.isSome_iff_ne_none.2 hsome
    have hinline := hp doc hdoc r htop hisSome
    have htype : (s.declared.element r).type = some t := by simpa [hinline] using ht
    exact hsome (hw.closed.typed r (by rw [htype]; rfl)).1

theorem mem_childrenOf (h : y ∈ childrenOf s e) : ∃ i n,
    resolvedType s e = some (.complex (.declared i)) ∧
      (s.declared.complexType i).content = some n ∧ y ∈ n.leaves := by
  unfold childrenOf at h
  split at h
  · rename_i t ht
    match t, h with
    | .complex .anyType, h => cases h
    | .complex (.declared i), h =>
      obtain ⟨n, hn, hy⟩ := List.mem_flatMap.1 h
      exact ⟨i, n, ht, Option.mem_toList.1 hn, hy⟩
  · cases h

/-! ## One step down -/

/-- From the name of an element one gets to that of the owner of its content. -/
theorem Graph.Dependencies.Trace.owner_joined (h : Trace s groups c met) (hw : s.Walkable)
    (he : Reachable s (expands (startSteps s groups)) e)
    (noRef : (s.declared.element e).ref = none) {i : ComplexId} {n : Node}
    (type : (s.declared.element e).inline.or (s.declared.element e).type =
      some (.complex (.declared i))) (content : (s.declared.complexType i).content = some n) :
    ∃ x, (∀ g, x ≠ .group g) ∧ Owns s x n ∧
      ReflTransGen (Joined s groups c.edges) (s.declared.element e).name (x.name s.declared) := by
  by_cases hnamed : isNamed (s.declared.complexType i).name
  · have hinline : (s.declared.element e).inline = none := by
      rcases hinline : (s.declared.element e).inline with _ | t
      · rfl
      · obtain rfl : t = .complex (.declared i) := by simpa [hinline] using type
        have hname : (s.declared.complexType i).name = none :=
          ((hw.closed.nested.element e).inline _ hinline).2
        simp [hname, isNamed] at hnamed
    rw [hinline, Option.none_or] at type
    have hedge := h.edge_of_step hw he fun _ => .typeEdge noRef hinline type rfl hnamed
    have noGroup (g : GroupId) : Item.type (.complex (.declared i)) ≠ .group g := by
      intro h
      cases h
    exact ⟨_, noGroup, .own (.type (.inr content)), .single (.inl hedge)⟩
  · have noGroup (g : GroupId) : Item.element e ≠ .group g := by
      intro h
      cases h
    exact ⟨_, noGroup, .own (.element noRef type hnamed (.inr content)), .refl⟩

/-- From the name of what has a reference in its content one gets to that of what it refers to. -/
theorem Graph.Dependencies.Trace.reference_joined (h : Trace s groups c met) (hw : s.Walkable)
    (hy : Reachable s (expands (startSteps s groups)) y)
    (hlocal : (s.declared.element y).isGlobal = false) {q : QName} {r : ElementId}
    (ref : (s.declared.element y).ref = some q) (found : s.element? q = some r) {x : Item} {n : Node}
    (noGroup : ∀ g, x ≠ .group g) (owns : Owns s x n) (leaf : y ∈ n.leaves) :
    ReflTransGen (Joined s groups c.edges) (x.name s.declared) (s.declared.element r).name := by
  obtain ⟨user, hmet⟩ := h.met_of_reachable hy
  rcases h.met_owned hw hmet with ⟨-, htop⟩ | ⟨z, m, owns', leaf', rfl, walked⟩
  · obtain ⟨doc, hdoc, htop⟩ := List.mem_flatMap.1 htop
    have hglobal := (hw.closed.documents doc hdoc).isGlobal y htop
    rw [hlocal] at hglobal
    cases hglobal
  · -- the reference was met on the account of `z`, so that is where its edge begins
    have hshared : Tie s groups (x.name s.declared) (z.name s.declared) :=
      .shared noGroup owns leaf walked owns' leaf' ref
    have hnext : Joined s groups c.edges (z.name s.declared) (s.declared.element r).name := by
      by_cases hnamed : isNamed (z.name s.declared)
      · have hstep : ElementStep s (z.name s.declared) y
            (.edge (z.name s.declared) (s.declared.element r).name) := .use ref found hnamed
        exact .inl (h.mem_edges.2 (.inr ⟨_, hmet, hstep.mem hw⟩))
      · exact .inr (.blank hnamed owns' leaf' ref found)
    exact .head (.inr hshared) (.single hnext)

/-- A walk from a reachable element to one in its content stays with what can be reached, and the
names are joined. -/
theorem Graph.Dependencies.Trace.child_joined (h : Trace s groups c met) (hw : s.Walkable)
    (hp : PlainReferences s) (he : Reachable s (expands (startSteps s groups)) e)
    (hy : y ∈ childrenOf s e) : Reachable s (expands (startSteps s groups)) y ∧
      ReflTransGen (Joined s groups c.edges) (meant s e).name (meant s y).name := by
  obtain ⟨i, n, htype, hcontent, hleaf⟩ := mem_childrenOf hy
  have noRef := noRef_of_resolvedType hw hp htype
  have hm := reachable_meantId hw he
  have hreach := hm.further (.content noRef htype (.linked hcontent hleaf))
  obtain ⟨x, noGroup, owns, hjoined⟩ := h.owner_joined hw hm noRef htype hcontent
  refine ⟨hreach, hjoined.trans ?_⟩
  rcases href : (s.declared.element y).ref with _ | q
  · rw [meant, meantId_of_noRef href]
    exact .single (.inr (.inside noGroup owns hleaf href))
  · obtain ⟨r, hr⟩ := found_reference hw href
    obtain ⟨a, ha, hae⟩ := List.mem_filterMap.1 hleaf
    have hlocal : (s.declared.element y).isGlobal = false := by
      cases a with
      | element f =>
        cases hae
        exact ((hw.content i n hcontent).atoms _ ha).2 y rfl
      | _ => cases hae
    rw [meant, meantId_of_ref href hr]
    exact h.reference_joined hw hreach hlocal href hr noGroup owns hleaf

/-! ## Whole walks -/

theorem Graph.Dependencies.Trace.chain_joined (h : Trace s groups c met) (hw : s.Walkable)
    (hp : PlainReferences s) : ∀ (p : List Particle) (e : ElementId),
      Reachable s (expands (startSteps s groups)) e → Follows s (childrenOf s e) p → ∀ z ∈ p,
        ReflTransGen (Joined s groups c.edges) (meant s e).name (meant s z.1).name := by
  intro p
  induction p with
  | nil => exact fun _ _ _ => nofun
  | cons y p ih =>
    intro e he hfollows z hz
    obtain ⟨hplace, hrest⟩ := hfollows
    obtain ⟨hy, hjoined⟩ := h.child_joined hw hp he (List.mem_of_getElem? hplace)
    rcases List.mem_cons.1 hz with rfl | hz
    · exact hjoined
    · exact hjoined.trans (ih y.1 hy hrest z hz)

/-- Where a walk enters an element by a reference, edges and ties lead from its root there. -/
theorem entered_is_reached (h : s.Loaded) (hp : PlainReferences s) (groups : Bool) :
    ∃ edges, ofSchemaSet s groups = .ok edges ∧ ∀ root target, EntersReference s root target →
      ReflTransGen (Joined s groups edges) (s.declared.element root).name
        (s.declared.element target).name := by
  have hw := h.isLinked.walkable
  obtain ⟨c, met, hok, htrace⟩ := ofSchemaSet_trace hw groups
  refine ⟨c.edges, hok, ?_⟩
  rintro root target ⟨⟨q, hroot⟩, chain, q', henters, href, htarget⟩
  obtain ⟨doc, hdoc, htop⟩ := List.mem_flatMap.1 (top_of_element? hw hroot).1
  have hstart : root ∈ expands (startSteps s groups) :=
    mem_expands.2 ⟨none, mem_startSteps.2 ⟨doc, hdoc, .inr ⟨root, htop, rfl⟩⟩⟩
  have htargetName : (meant s chain.last.1).name = (s.declared.element target).name := by
    rw [meant, meantId_of_ref href htarget]
  rw [← meant_name hw (e := root), ← htargetName]
  have hlast : chain.last ∈ chain.particles := List.mem_append_right _ (List.mem_singleton_self _)
  have hfollows := henters.follows
  obtain ⟨x, p, hparticles⟩ := List.exists_cons_of_ne_nil chain.particles_ne_nil
  rw [hparticles] at hfollows hlast
  have hfirst : x.1 = root := List.mem_singleton.1 (List.mem_of_getElem? hfollows.1)
  rcases List.mem_cons.1 hlast with hx | hmem
  · rw [hx, hfirst]
  · rw [← hfirst]
    exact htrace.chain_joined hw hp p x.1 (hfirst ▸ .top hstart) hfollows.2 _ hmem

/-- Where no edge starts there is nothing to be reached. -/
theorem missed_of_no_edge {root target : ElementId} {chain : Chain} {q q' : QName}
    {edges : List (Edge NodeName)} (hedges : (ofSchemaSet s groups).toOption = some edges)
    (hroot : s.element? q = some root) (henters : Enters s root chain)
    (href : (s.declared.element chain.last.1).ref = some q') (htarget : s.element? q' = some target)
    (hother : (s.declared.element root).name ≠ (s.declared.element target).name)
    (hnone : ∀ e ∈ edges, e.source ≠ (s.declared.element root).name) :
    Missed s groups root target := by
  refine ⟨⟨⟨q, hroot⟩, chain, q', henters, href, htarget⟩, edges, ?_, fun hreach => ?_⟩
  · cases hrun : ofSchemaSet s groups with
    | error f =>
      rw [hrun] at hedges
      cases hedges
    | ok l =>
      rw [hrun] at hedges
      cases hedges
      rfl
  · rcases ReflTransGen.cases_head hreach with hsame | ⟨b, hfirst, -⟩
    · exact hother hsame
    · exact hnone _ hfirst rfl

/-- The element `a` holds `b`, of a type `t` that refers to `f`, and `c` has that content from `t`. -/
def heldText : String :=
  "<s:schema xmlns:s=\"" ++ xsSpace ++ "\"><s:element name=\"f\"/><s:complexType name=\"t\">" ++
    "<s:sequence><s:element ref=\"f\"/></s:sequence></s:complexType><s:element name=\"a\">" ++
    "<s:complexType><s:sequence><s:element name=\"b\" type=\"t\"/></s:sequence></s:complexType>" ++
    "</s:element><s:element name=\"c\"><s:complexType><s:complexContent><s:extension base=\"t\"/>" ++
    "</s:complexContent></s:complexType></s:element></s:schema>"

def held : SchemaSet := .ofText heldText

theorem held_facts : (Loader.ofText heldText).2 = .ok () ∧ held.Named ∧ PlainReferences held ∧
    (ofSchemaSet held false).toOption = some [⟨some "b", some "t"⟩, ⟨some "t", some "f"⟩] ∧
    held.element? ⟨"", some "a"⟩ = some 3 ∧ Enters held 3 ⟨[(3, 0), (2, 0)], (1, 0)⟩ ∧
    held.element? ⟨"", some "c"⟩ = some 4 ∧ Enters held 4 ⟨[(4, 0)], (1, 0)⟩ ∧
    (held.declared.element 1).ref = some ⟨"", some "f"⟩ ∧
    held.element? ⟨"", some "f"⟩ = some 0 ∧ (held.declared.element 0).name = some "f" ∧
    (held.declared.element 3).name = some "a" ∧ (held.declared.element 4).name = some "c" := by
  rw [held, SchemaSet.ofText_eq, Loader.ofText_eq]
  decide +kernel

theorem held_loaded : held.Loaded := SchemaSet.loaded_ofText held_facts.1

/-- One gets from `c` to `f`, since `c` shares the reference with `t`. -/
theorem held_reached : held.Loaded ∧ PlainReferences held ∧
    ∃ edges, ofSchemaSet held false = .ok edges ∧ ∀ root target, EntersReference held root target →
      ReflTransGen (Joined held false edges) (held.declared.element root).name
        (held.declared.element target).name := by
  obtain ⟨-, -, hplain, -⟩ := held_facts
  exact ⟨held_loaded, hplain, entered_is_reached held_loaded hplain false⟩

/-- An element with an empty name and a reference at the top have references to `f` in types that are
written in them. -/
def writtenText : String :=
  "<s:schema xmlns:s=\"" ++ xsSpace ++ "\"><s:element name=\"f\"/><s:element name=\"\">" ++
    "<s:complexType><s:sequence><s:element ref=\"f\"/></s:sequence></s:complexType></s:element>" ++
    "<s:element ref=\"v\"><s:complexType><s:sequence><s:element ref=\"f\"/></s:sequence>" ++
    "</s:complexType></s:element></s:schema>"

def written : SchemaSet := .ofText writtenText

theorem written_facts : (Loader.ofText writtenText).2 = .ok () ∧ written.Named ∧
    (ofSchemaSet written false).toOption = some [] ∧
    written.element? ⟨"", some ""⟩ = some 2 ∧ Enters written 2 ⟨[(2, 0)], (1, 0)⟩ ∧
    written.element? ⟨"", some "v"⟩ = some 4 ∧ Enters written 4 ⟨[(4, 0)], (3, 0)⟩ ∧
    (written.declared.element 1).ref = some ⟨"", some "f"⟩ ∧
    (written.declared.element 3).ref = some ⟨"", some "f"⟩ ∧
    written.element? ⟨"", some "f"⟩ = some 0 ∧ (written.declared.element 0).name = some "f" ∧
    (written.declared.element 2).name = some "" ∧ (written.declared.element 4).name = some "v" := by
  rw [written, SchemaSet.ofText_eq, Loader.ofText_eq]
  decide +kernel

theorem written_loaded : written.Loaded := SchemaSet.loaded_ofText written_facts.1

/-- Without ties no edges lead to `f`, neither from an element that holds another one or shares the
reference, nor from one with an empty name or a reference with a type written in it. -/
theorem references_missed :
    (held.Loaded ∧ held.Named ∧ Missed held false 3 0 ∧ Missed held false 4 0) ∧
      written.Loaded ∧ written.Named ∧ Missed written false 2 0 ∧ Missed written false 4 0 := by
  constructor
  · obtain ⟨-, hnamed, -, hedges, ha, hentersA, hc, hentersC, href, hf, hnameF, hnameA, hnameC⟩ :=
      held_facts
    refine ⟨held_loaded, hnamed, ?_, ?_⟩
    · apply missed_of_no_edge hedges ha hentersA href hf
      all_goals simp [hnameA, hnameF]
    · apply missed_of_no_edge hedges hc hentersC href hf
      all_goals simp [hnameC, hnameF]
  · obtain ⟨-, hnamed, hedges, hblank, hentersBlank, hv, hentersV, href, href', hf, hnameF, hname,
      hnameV⟩ := written_facts
    refine ⟨written_loaded, hnamed, ?_, ?_⟩
    · apply missed_of_no_edge hedges hblank hentersBlank href hf
      all_goals simp [hname, hnameF]
    · apply missed_of_no_edge hedges hv hentersV href' hf
      all_goals simp [hnameV, hnameF]

end Descent
end SchemaPaths
