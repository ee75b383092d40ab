/-
Exports and the shape of content.

An export shows the elements that a walk meets in types, from left to right, and their attributes.
How content is put together it does not show, nor whether groups are referred to or stand in it
themselves.  Main statement: a set with groups in the place of all references to them can be linked,
too, and its exports are those of the set itself.
-/
import SchemaPaths.Proofs.Export.Steps
import SchemaPaths.Proofs.Linking.SideBySide
import SchemaPaths.Proofs.Linking.Typing

namespace SchemaPaths

namespace Schema

/-- The declarations with other content for complex types. -/
def Declarations.withContents (d : Declarations) (content : ComplexId → Option Node) :
    Declarations :=
  { d with complexTypes := d.complexTypes.mapIdx fun i t => { t with content := content i } }

def SchemaSet.withContents (s : SchemaSet) (content : ComplexId → Option Node) : SchemaSet :=
  { s with declared := s.declared.withContents content }

section Contents

variable {s : SchemaSet} {d : Declarations} {content : ComplexId → Option Node} {i : ComplexId}

/-- Content made of elements and wildcards, whose elements are those of the content of a type. -/
structure LeavesAlike (d : Declarations) (i : ComplexId) (o : Option Node) : Prop where
  made : ∀ n ∈ o, ∀ a ∈ n.atoms, a.IsLeaf
  leaves : o.toList.flatMap Node.leaves = (d.complexType i).content.toList.flatMap Node.leaves

/-- Content that a walk passes over has no elements. -/
theorem LeavesAlike.no_leaves {o : Option Node} (h : LeavesAlike d i o)
    (hlisted : (d.complexType i).contentType.hasElements = (d.complexType i).content.isSome)
    (hunused : ¬ ((d.complexType i).contentType.hasElements && o.isSome) = true) :
    (d.complexType i).content.toList.flatMap Node.leaves = [] := by
  rcases hcontent : (d.complexType i).content with _ | n
  · rfl
  · cases o with
    | none =>
      rw [← hcontent, ← h.leaves]
      rfl
    | some m =>
      rw [hlisted, hcontent] at hunused
      exact absurd rfl hunused

theorem complexType_withContents (d : Declarations) (content : ComplexId → Option Node)
    (hi : i < d.complexTypes.size) :
    (d.withContents content).complexType i = { d.complexType i with content := content i } := by
  simp [Declarations.withContents, Declarations.complexType, hi]

theorem complexType_withContents_cases (d : Declarations) (content : ComplexId → Option Node)
    (i : ComplexId) : (d.withContents content).complexType i = d.complexType i ∨
      i < d.complexTypes.size ∧
        (d.withContents content).complexType i = { d.complexType i with content := content i } := by
  rcases Nat.lt_or_ge i d.complexTypes.size with hi | hi
  · exact .inr ⟨hi, complexType_withContents d content hi⟩
  · refine .inl ?_
    rw [complexType_of_le hi, complexType_of_le (by simpa [Declarations.withContents] using hi)]

theorem extent_withContents : (d.withContents content).extent = d.extent := by
  simp [Declarations.extent, Declarations.withContents]

theorem SchemaSet.HoldsGroups.withContents (hs : s.HoldsGroups) :
    (s.withContents content).HoldsGroups where
  found := hs.found
  atoms g n hn a ha := by
    show (s.declared.withContents content).extent.HasAtom a
    rw [extent_withContents]
    exact hs.atoms g n hn a ha

end Contents

end Schema

open Schema Walk

namespace Export
namespace Paths

/-! ## What exports go by -/

/-- Two sets with the same elements and attributes, the same names for types, and the same steps
from each type on. -/
structure LooksLike (s s' : SchemaSet) : Prop where
  elements : s'.declared.elements = s.declared.elements
  attributes : s'.declared.attributes = s.declared.attributes
  element? : s'.element? = s.element?
  attr? : s'.attr? = s.attr?
  typeText : typeText s'.declared = typeText s.declared
  steps : ∀ t, steps s' [] (.type t) = steps s [] (.type t)

theorem typeText_congr {d d' : Declarations} (hsimple : d'.simpleTypes = d.simpleTypes)
    (hname : ∀ i, (d'.complexType i).name = (d.complexType i).name) :
    typeText d' = typeText d := by
  have hsame (i : SimpleId) : d'.simpleType i = d.simpleType i := by
    rw [Declarations.simpleType, hsimple, Declarations.simpleType]
  have hcode (fuel : Nat) : d'.simpleCodeFrom fuel = d.simpleCodeFrom fuel := by
    induction fuel with
    | zero => rfl
    | succ fuel ih =>
      funext r
      have hr : d'.simple r = d.simple r := by
        cases r with
        | builtin b => rfl
        | declared i => exact hsame i
      rw [Declarations.simpleCodeFrom, Declarations.simpleCodeFrom, hr, ih]
  funext t
  have ht : d'.typeCode t = d.typeCode t := by
    match t with
    | .complex .anyType => rfl
    | .complex (.declared _) => rfl
    | .simple r =>
      rw [Declarations.typeCode, Declarations.typeCode, Declarations.chainBound, hsimple, hcode]
      rfl
  have hnames : d'.typeName t = d.typeName t := by
    match t with
    | .simple (.builtin _) => rfl
    | .simple (.declared i) => exact congrArg SimpleType.name (hsame i)
    | .complex .anyType => rfl
    | .complex (.declared i) => exact hname i
  rw [typeText, typeText, ht, hnames]

namespace LooksLike

variable {s s' : SchemaSet} (h : LooksLike s s')
include h

theorem element (i : ElementId) : s'.declared.element i = s.declared.element i := by
  rw [Declarations.element, h.elements, Declarations.element]

theorem attr (i : AttributeId) : s'.declared.attr i = s.declared.attr i := by
  rw [Declarations.attr, h.attributes, Declarations.attr]

theorem visitAttribute (r : Request) (a : AttributeId) :
    visitAttribute s' r a = visitAttribute s r a := by
  have hmeant (used : Attribute) : attributeMeant s' used = attributeMeant s used := by
    simp only [attributeMeant, h.attr?, h.attr]
  simp only [Paths.visitAttribute, h.attr, hmeant]

theorem perform (r : Request) {visit visit' : ElementId → Visit Unit} (hvisit : visit' = visit) :
    perform s' r visit' = perform s r visit := by
  funext step
  cases step with
  | note m => rfl
  | element e => exact congrFun hvisit e
  | attr a => exact h.visitAttribute r a
  | stop f => rfl

variable {r : Request} (hr : r.watch = [])
include hr

theorem visitFrom (fuel : Nat) : visitFrom s' r fuel = visitFrom s r fuel := by
  induction fuel with
  | zero => rfl
  | succ fuel ih =>
    have hmeant (met : Element) : elementMeant s' met = elementMeant s met := by
      simp only [elementMeant, h.element?, h.element]
    funext i
    simp only [Paths.visitFrom, emitElement, h.element, hmeant, h.typeText, hr, h.steps,
      h.perform r ih]

theorem fromRoot (root : Root) : fromRoot s' r root.node = fromRoot s r root.node := by
  have hsteps : Paths.steps s' [] root.node = Paths.steps s [] root.node := by
    cases root with
    | element e => exact (steps_element e).trans (steps_element e).symm
    | type t => exact h.steps t
  have hvisit : visitElement s' r = visitElement s r := by
    funext e
    rw [visitElement, visitElement, h.elements, h.visitFrom hr]
  simp only [Paths.fromRoot, visitRoot, visit, hr, hsteps, h.perform r hvisit]

end LooksLike

/-! ## Content without groups -/

section Plain

variable {s : SchemaSet} {opened : Node → List Step}

mutual

/-- A walk meets the elements of content without groups, whatever set it goes through. -/
theorem nodeSteps_of_leaves : ∀ n : Node, (∀ a ∈ n.atoms, a.IsLeaf) →
    nodeSteps s [] opened n = leafSteps n.atoms
  | .sequence _ _ _ items, hn => by
    rw [nodeSteps, sighting?_nil, notedOr, listSteps_of_leaves items hn, Node.atoms]
  | .choice _ _ items, hn => by
    rw [nodeSteps, sighting?_nil, notedOr, listSteps_of_leaves items hn, Node.atoms]
  | .element _, _ => nodeSteps_leaf trivial
  | .any .., _ => nodeSteps_leaf trivial
  | .groupRef .., hn => (hn _ (List.mem_singleton_self _)).elim
  | .attr _, hn => (hn _ (List.mem_singleton_self _)).elim
  | .type _, hn => (hn _ (List.mem_singleton_self _)).elim
  | .content .., hn => (hn _ (List.mem_singleton_self _)).elim
  | .derivation .., hn => (hn _ (List.mem_singleton_self _)).elim
  | .group _, hn => (hn _ (List.mem_singleton_self _)).elim
  | .unknown .., hn => (hn _ (List.mem_singleton_self _)).elim

theorem listSteps_of_leaves : ∀ ns : List Node, (∀ a ∈ Node.atomsOf ns, a.IsLeaf) →
    listSteps s [] opened ns = leafSteps (Node.atomsOf ns)
  | [], _ => rfl
  | n :: ns, hns => by
    rw [Node.atomsOf, List.forall_mem_append] at hns
    rw [listSteps, nodeSteps_of_leaves n hns.1, listSteps_of_leaves ns hns.2, Node.atomsOf,
      leafSteps_append]

end

theorem steps_of_leaves {o : Option Node} (fuel : Nat) (ho : ∀ n ∈ o, ∀ a ∈ n.atoms, a.IsLeaf) :
    o.toList.flatMap (stepsFrom s [] (fuel + 1)) = (o.toList.flatMap Node.leaves).map .element := by
  cases o with
  | none => rfl
  | some n =>
    rw [← leafSteps_leaves, Node.atomsOf_some, Option.toList_some, List.flatMap_singleton, stepsFrom,
      nodeSteps_of_leaves n (ho n rfl)]

end Plain

/-! ## Groups in the place of references -/

section Inlined

variable {s : SchemaSet}

/-- Where a type has no content, nothing is left of its particle; so with groups in the place of
references a walk goes through the same elements as before. -/
theorem inner_inlined (hw : s.Walkable) (i : ComplexId) :
    let inner := Outline.inner ((s.declared.complexType i).mapParticle s.inline)
    (∀ n ∈ inner, ∀ a ∈ n.atoms, a.IsLeaf) ∧
      inner.toList.flatMap Node.leaves =
        (s.declared.complexType i).content.toList.flatMap Node.leaves := by
  rcases hcontent : (s.declared.complexType i).content with _ | n
  · have hinner : Outline.inner ((s.declared.complexType i).mapParticle s.inline) =
        (s.declared.complexType i).particle.bind s.inline := by
      simp [Outline.inner, ComplexType.mapParticle, hcontent]
    have hatoms : ∀ m ∈ (s.declared.complexType i).particle.bind s.inline, m.atoms = [] := by
      intro m hm
      obtain ⟨n, hn, hinline⟩ := Option.bind_eq_some_iff.1 hm
      obtain ⟨out, hout, hatoms⟩ := hw.empty i hcontent n hn
      have hwritten : OptionWrittenOut s (some n) out := hout
      obtain rfl : s.inline n = out := hwritten.inline hw.closed
      rwa [hinline, Node.atomsOf_some] at hatoms
    rw [hinner]
    refine ⟨fun m hm a ha => ?_, ?_⟩
    · rw [hatoms m hm] at ha
      cases ha
    · refine List.flatMap_eq_nil_iff.2 fun m hm => ?_
      rw [Node.leaves, hatoms m (Option.mem_toList.1 hm)]
      rfl
  · have hlisted := hw.listed i (by rw [hcontent]; rfl)
    have hinner : Outline.inner ((s.declared.complexType i).mapParticle s.inline) = some n := by
      simp [Outline.inner, ComplexType.mapParticle, hcontent, hlisted]
    rw [hinner]
    refine ⟨?_, rfl⟩
    rintro _ ⟨⟩ a ha
    exact hw.content_isLeaf hcontent a ha

theorem steps_inlined (hw : s.Walkable) (t : TypeRef) :
    steps s.inlined [] (.type t) = steps s [] (.type t) := by
  match t with
  | .simple r => rw [steps_simple, steps_simple]
  | .complex .anyType => rw [steps_anyType, steps_anyType]
  | .complex (.declared i) =>
    obtain ⟨hplain, hleaves⟩ := inner_inlined hw i
    rw [steps_type hw, steps_declared, s.complexType_inlined, steps_of_leaves _ hplain, hleaves]
    rfl

theorem looksLike_inlined (hw : s.Walkable) : LooksLike s s.inlined where
  elements := rfl
  attributes := rfl
  element? := rfl
  attr? := rfl
  typeText := typeText_congr rfl fun i =>
    (congrArg ComplexType.name (s.complexType_inlined i) :)
  steps := steps_inlined hw

end Inlined

/-! ## Content put together in other ways -/

section Contents

variable {s : SchemaSet} {d : Declarations} {content : ComplexId → Option Node} {i : ComplexId}

/-- Content with the same elements makes the same steps, and where a type has no content any more, or
had none before, no step is left to its particle. -/
theorem inner_withContents (hs : s.Closed) (hl : Linked s d)
    (hc : ∀ i < d.complexTypes.size, LeavesAlike d i (content i)) (hi : i < d.complexTypes.size) :
    let other : SchemaSet := { s with declared := d.withContents content }
    (Outline.inner (other.declared.complexType i)).toList.flatMap (stepsFrom other []
        (other.declared.complexTypes.size + other.declared.groups.size + 1)) =
      ((d.complexType i).content.toList.flatMap Node.leaves).map .element := by
  intro other
  have htype : other.declared.complexType i = { d.complexType i with content := content i } :=
    complexType_withContents d content hi
  rw [htype]
  by_cases hused : ((d.complexType i).contentType.hasElements && (content i).isSome) = true
  · have hinner : Outline.inner { d.complexType i with content := content i } = content i :=
      if_pos hused
    rw [hinner, steps_of_leaves _ (hc i hi).made, (hc i hi).leaves]
  · have hinner : Outline.inner { d.complexType i with content := content i } =
        (d.complexType i).particle := if_neg hused
    have hnone := (hc i hi).no_leaves (hl.listed i) hused
    rw [hinner, hnone]
    rcases hp : (d.complexType i).particle with _ | p
    · rfl
    · obtain ⟨out, hout, hatoms⟩ := hl.atoms_particle hs hp
      have hclosed := hl.frame.closed.complexType i
      have hheld : other.HoldsGroups := (hs.framed hl.frame).holdsGroups.withContents
      have hp' : ∀ a ∈ p.atoms, other.declared.extent.HasAtom a := by
        rw [extent_withContents]
        exact (hclosed.own p (hclosed.own_of_particle hp).2).2.atoms
      have hgroups : (d.withContents content).groups = s.declared.groups := hl.frame.groups
      have hwritten : WrittenOut other p out := hout.framed hgroups
      rw [Option.toList_some, List.flatMap_singleton, stepsFrom_written hheld hwritten hp', hatoms,
        leafSteps_leaves, hnone]

theorem steps_withContents (hs : s.Closed) (hl : Linked s d)
    (hc : ∀ i < d.complexTypes.size, LeavesAlike d i (content i)) (t : TypeRef) :
    steps { s with declared := d.withContents content } [] (.type t) =
      steps { s with declared := d } [] (.type t) := by
  match t with
  | .simple r => rw [steps_simple, steps_simple]
  | .complex .anyType => rw [steps_anyType, steps_anyType]
  | .complex (.declared i) =>
    have huses : ((d.withContents content).complexType i).uses = (d.complexType i).uses := by
      rcases complexType_withContents_cases d content i with htype | ⟨-, htype⟩ <;> rw [htype]
    rw [steps_declared, steps_declared, huses]
    refine congrArg (· ++ _) ?_
    by_cases hi : i < d.complexTypes.size
    · rw [inner_withContents hs hl hc hi]
      exact (steps_inner (hl.walkable hs) i).symm
    · have hnone := complexType_of_le (Nat.not_lt.1 hi)
      have hsame := (complexType_withContents_cases d content i).resolve_right fun h => hi h.1
      have hinner : Outline.inner {} = none := rfl
      rw [hsame, hnone, hinner, Option.toList_none, List.flatMap_nil, List.flatMap_nil]

theorem looksLike_withContents (h : s.IsLinked)
    (hc : ∀ i < s.declared.complexTypes.size, LeavesAlike s.declared i (content i)) :
    LooksLike s (s.withContents content) where
  elements := rfl
  attributes := rfl
  element? := rfl
  attr? := rfl
  typeText := typeText_congr rfl fun i => by
    show ((s.declared.withContents content).complexType i).name = _
    rcases complexType_withContents_cases s.declared content i with htype | ⟨-, htype⟩ <;> rw [htype]
  steps t := by
    obtain ⟨s₀, hs₀, hl, heq⟩ := h
    rw [SchemaSet.withContents, heq]
    exact steps_withContents hs₀ hl hc t

end Contents

/-! ## After a load -/

section Loads

theorem written_inlined {s : SchemaSet} {d : Declarations} (hs : s.Closed) (hl : Linked s d)
    (i : ComplexId) : OptionWrittenOut s (Linking.ownParticle (s.declared.complexType i))
      (Linking.ownParticle (s.inlined.declared.complexType i)) := by
  rw [s.complexType_inlined, ownParticle_mapParticle]
  rcases complexType_cases s.declared i with hi | hnone
  · obtain ⟨b, own, added, hf⟩ := hl.complex i hi
    rw [hf.written.inline hs]
    exact hf.written
  · rw [hnone]
    rfl

theorem groupContent_inlined {s : SchemaSet} {d : Declarations} (hs : s.Closed) (hl : Linked s d)
    {q : QName} {g : GroupId} (hg : (q, g) ∈ s.groups) :
    GroupContent s g (s.inlined.declared.group g).particle := by
  obtain ⟨out, hout⟩ := hl.group (q, g) hg
  rw [s.group_inlined, Group.mapParticle, (groupContent_iff.1 hout).inline hs]
  exact hout

theorem find_inlined (s : SchemaSet) (name : String) :
    Root.find s.inlined name = Root.find s name := by
  unfold Root.find Root.qualified? Root.unqualified?
  rfl

/-- In the set that a loader has read, groups can be put in the place of all references to them, in
types and in the groups that can be referred to.  That set can be linked, too; the same names mean the
same roots in it, and everything below a root is exported as before.  Nor does it show in exports if
the content of types is put together in another way, as long as the elements in it are the same. -/
theorem inlining_keeps_exports {l : Loader} (hl : l.Reached) {primary : String}
    (hok : (l.load primary).2 = .ok ()) :
    let read := l.gathered primary
    let linked := l.left primary
    (∀ i, OptionWrittenOut read (Linking.ownParticle (read.declared.complexType i))
        (Linking.ownParticle (read.inlined.declared.complexType i))) ∧
      (∀ e ∈ read.groups, GroupContent read e.2 (read.inlined.declared.group e.2).particle) ∧
      read.inlined.link = (linked.inlined, .ok ()) ∧
      (∀ name, Root.find linked.inlined name = Root.find linked name) ∧
      (∀ skip columns (root : Root),
        fromRoot linked.inlined { skip, columns } root.node =
          fromRoot linked { skip, columns } root.node) ∧
      ∀ content,
        (∀ i < linked.declared.complexTypes.size, LeavesAlike linked.declared i (content i)) →
        ∀ skip columns (root : Root),
          fromRoot (linked.withContents content) { skip, columns } root.node =
            fromRoot linked { skip, columns } root.node := by
  intro read linked
  have hs : read.Closed := Loader.closed_gathered hl.closed primary
  have hlink : read.link = (linked, .ok ()) := Loader.gathered_link hok
  have hread : Linked read read.link.1.declared := .of_link hs (congrArg Prod.snd hlink)
  have hlinked : linked.IsLinked := (hl.loaded_left hok).isLinked
  exact ⟨written_inlined hs hread, fun e he => groupContent_inlined hs hread he,
    link_inlined hs hlink, find_inlined linked,
    fun skip columns => (looksLike_inlined hlinked.walkable).fromRoot rfl,
    fun content hc skip columns => (looksLike_withContents hlinked hc).fromRoot rfl⟩

/-- The content of the types, each in a choice of its own. -/
def enclosed (d : Declarations) (i : ComplexId) : Option Node :=
  (d.complexType i).content.map fun n => .choice (.joined i) {} [n]

theorem enclosed_alike {s : SchemaSet} (hw : s.Walkable) (i : ComplexId) :
    LeavesAlike s.declared i (enclosed s.declared i) := by
  have hatoms (n : Node) : (Node.choice (.joined i) {} [n]).atoms = n.atoms := List.append_nil _
  rw [enclosed]
  rcases hcontent : (s.declared.complexType i).content with _ | n
  · exact ⟨nofun, by rw [hcontent]; rfl⟩
  · refine ⟨?_, by rw [hcontent]; simp [Node.leaves, hatoms]⟩
    rintro _ ⟨⟩
    rw [hatoms]
    exact hw.content_isLeaf hcontent

/-- The group `g` holds `a` and refers to the group `k`, which holds nothing; the type `t` refers to
`g`, and so does `u`, which extends it and is the type of `r`. -/
def sharingText : String :=
  "<s:schema xmlns:s=\"" ++ xsSpace ++ "\"><s:group name=\"g\"><s:sequence>" ++
    "<s:element name=\"a\" type=\"s:int\"/><s:group ref=\"k\"/></s:sequence></s:group>" ++
    "<s:group name=\"k\"/><s:complexType name=\"t\"><s:group ref=\"g\"/></s:complexType>" ++
    "<s:complexType name=\"u\"><s:complexContent><s:extension base=\"t\"><s:choice>" ++
    "<s:group ref=\"g\"/></s:choice></s:extension></s:complexContent></s:complexType>" ++
    "<s:element name=\"r\" type=\"u\"/></s:schema>"

def sharingLoader : Loader := { source := .upload [("a.xsd", sharingText.toUTF8.toList)] }

def sharing : SchemaSet := sharingLoader.left "a.xsd"

theorem sharing_facts : (sharingLoader.load "a.xsd").2 = .ok () ∧
    (Linking.ownParticle
      ((sharingLoader.gathered "a.xsd").declared.complexType 1)).map Node.groupNames =
        some [⟨"", some "g"⟩] ∧
    (fromRoot sharing {} (.element 1)).1.records.toList.map (·.path) = ["/r", "/r/a", "/r/a"] := by
  rw [sharing, sharingLoader, utf8_eq]
  decide +kernel

theorem sharing_inlined : (sharingLoader.load "a.xsd").2 = .ok () ∧
    (Linking.ownParticle
      ((sharingLoader.gathered "a.xsd").declared.complexType 1)).map Node.groupNames =
        some [⟨"", some "g"⟩] ∧
    (sharingLoader.gathered "a.xsd").inlined.link.2 = .ok () ∧
    (fromRoot sharing.inlined {} (.element 1)).1.records.toList.map (·.path) =
      ["/r", "/r/a", "/r/a"] ∧
    (fromRoot (sharing.withContents (enclosed sharing.declared)) {}
      (.element 1)).1.records.toList.map (·.path) = ["/r", "/r/a", "/r/a"] := by
  obtain ⟨hok, hnames, hpaths⟩ := sharing_facts
  have hreached : sharingLoader.Reached := .fresh _
  have hlinked : sharing.IsLinked := (hreached.loaded_left hok).isLinked
  obtain ⟨-, -, hlink, -, hroots, hcontents⟩ := inlining_keeps_exports hreached hok
  have hinlined := hroots [] [] (.element 1)
  have henclosed := enclosed_alike hlinked.walkable
  have hother := hcontents (enclosed sharing.declared) (fun i _ => henclosed i) [] [] (.element 1)
  refine ⟨hok, hnames, congrArg Prod.snd hlink, ?_, ?_⟩
  · rw [← hpaths]
    exact congrArg (fun out => out.1.records.toList.map (·.path)) hinlined
  · rw [← hpaths]
    exact congrArg (fun out => out.1.records.toList.map (·.path)) hother

end Loads

end Paths
end Export
end SchemaPaths
