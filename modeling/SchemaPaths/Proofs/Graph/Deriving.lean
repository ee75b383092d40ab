/-
What types derive from.

A named complex type records an edge to the complex type that it derives from.  Nothing is recorded
for a base that is a simple type: the graph stays the same if all types are cut off from such bases,
so an edge between the names of a type and its simple base is there only if something else of these
names gives rise to it.
-/
import SchemaPaths.Proofs.Graph.Meaning
import SchemaPaths.Proofs.Graph.Recording

namespace SchemaPaths

open Schema Walk

/-! ## Types cut off from simple bases -/

namespace Schema

/-- A base, with any type in the place of a simple one. -/
def TypeRef.unlessSimple : TypeRef → TypeRef
  | .simple _ => anyType
  | .complex r => .complex r

def SimpleType.cutOff (t : SimpleType) : SimpleType := { t with baseName := none, base := none }

def ComplexType.cutOff (c : ComplexType) : ComplexType :=
  { c with base := c.base.map TypeRef.unlessSimple }

namespace Declarations

/-- The declarations without any derivation from a simple type. -/
def withoutSimpleBases (d : Declarations) : Declarations :=
  { d with
    simpleTypes := d.simpleTypes.map SimpleType.cutOff
    complexTypes := d.complexTypes.map ComplexType.cutOff }

/-- What a type derives from, as found by linking. -/
def base? (d : Declarations) : TypeRef → Option TypeRef
  | .simple r => (d.simple r).base.map .simple
  | .complex r => (d.complex r).base

variable (d : Declarations)

theorem simpleType_withoutSimpleBases (i : SimpleId) :
    d.withoutSimpleBases.simpleType i = (d.simpleType i).cutOff := by
  unfold simpleType withoutSimpleBases
  rw [show ({} : SimpleType) = SimpleType.cutOff {} from rfl]
  simp only [Array.getD_eq_getD_getElem?, Array.getElem?_map]
  cases d.simpleTypes[i]? <;> rfl

theorem complexType_withoutSimpleBases (i : ComplexId) :
    d.withoutSimpleBases.complexType i = (d.complexType i).cutOff := by
  unfold complexType withoutSimpleBases
  simp only [Array.getD_eq_getD_getElem?, Array.getElem?_map]
  cases d.complexTypes[i]? <;> rfl

theorem complex_withoutSimpleBases (r : ComplexRef) :
    d.withoutSimpleBases.complex r = (d.complex r).cutOff := by
  cases r with
  | anyType => rfl
  | declared i => exact d.complexType_withoutSimpleBases i

theorem typeName_withoutSimpleBases (t : TypeRef) :
    d.withoutSimpleBases.typeName t = d.typeName t := by
  match t with
  | .simple (.builtin _) => rfl
  | .simple (.declared i) => exact (congrArg SimpleType.name (d.simpleType_withoutSimpleBases i) :)
  | .complex r => exact (congrArg ComplexType.name (d.complex_withoutSimpleBases r) :)

theorem isBuiltin_withoutSimpleBases (t : TypeRef) :
    d.withoutSimpleBases.isBuiltin t = d.isBuiltin t := by
  match t with
  | .simple (.builtin _) => rfl
  | .simple (.declared i) => exact (congrArg SimpleType.builtin (d.simpleType_withoutSimpleBases i) :)
  | .complex .anyType => rfl
  | .complex (.declared _) => rfl

theorem openingBound_withoutSimpleBases :
    openingBound d.withoutSimpleBases = openingBound d := by
  unfold openingBound withoutSimpleBases
  simp

end Declarations

def SchemaSet.withoutSimpleBases (s : SchemaSet) : SchemaSet :=
  { s with declared := s.declared.withoutSimpleBases }

end Schema

namespace Graph
namespace Dependencies

/-! ## Steps -/

section Steps

variable {d : Declarations} {user : NodeName}

/-- Like any type, a simple one leads to no steps. -/
theorem stepsFrom_unlessSimple (fuel : Nat) (t : TypeRef) :
    stepsFrom d [] fuel user (.type t.unlessSimple) = stepsFrom d [] fuel user (.type t) := by
  match fuel, t with
  | 0, _ => rfl
  | _, .complex _ => rfl
  | fuel + 1, .simple _ =>
    simp [TypeRef.unlessSimple, anyType, stepsFrom, nodeSteps, sighting?_nil, notedOr, typeSteps,
      Declarations.complex, Declarations.ofAnyType]

theorem typeSteps_cutOff (c : ComplexType) (fuel : Nat) :
    typeSteps c.cutOff (stepsFrom d [] fuel) user = typeSteps c (stepsFrom d [] fuel) user := by
  have hbase (account : NodeName) :
      (c.cutOff.base.map Node.type).toList.flatMap (stepsFrom d [] fuel account) =
        (c.base.map Node.type).toList.flatMap (stepsFrom d [] fuel account) := by
    unfold ComplexType.cutOff
    cases c.base with
    | none => rfl
    | some b => simp [stepsFrom_unlessSimple]
  have hsome : c.cutOff.base.isSome = c.base.isSome := Option.isSome_map
  unfold typeSteps
  simp only [hbase, hsome]
  rfl

mutual

theorem nodeSteps_withoutSimpleBases (fuel : Nat) : ∀ (n : Node) (user : NodeName),
    nodeSteps d.withoutSimpleBases [] (stepsFrom d [] fuel) user n =
      nodeSteps d [] (stepsFrom d [] fuel) user n
  | .sequence _ _ _ items, user => by
    simp only [nodeSteps, sighting?_nil, listSteps_withoutSimpleBases fuel items]
  | .choice _ _ items, user => by
    simp only [nodeSteps, sighting?_nil, listSteps_withoutSimpleBases fuel items]
  | .content _ p, user => by
    simp only [nodeSteps, sighting?_nil, optionSteps_withoutSimpleBases fuel p]
  | .derivation _ p, user => by
    simp only [nodeSteps, sighting?_nil, optionSteps_withoutSimpleBases fuel p]
  | .type (.complex r), user => by
    rw [nodeSteps, nodeSteps, sighting?_nil, sighting?_nil, d.complex_withoutSimpleBases,
      typeSteps_cutOff]
  | .type (.simple _), _ => by simp only [nodeSteps, sighting?_nil]
  | .group _, _ => by
    simp only [nodeSteps, sighting?_nil]
    rfl
  | .element _, _ => by simp only [nodeSteps, sighting?_nil]
  | .attr _, _ => by simp only [nodeSteps, sighting?_nil]
  | .any .., _ => by simp only [nodeSteps, sighting?_nil]
  | .groupRef .., _ => by simp only [nodeSteps, sighting?_nil]
  | .unknown .., _ => by simp only [nodeSteps, sighting?_nil]

theorem listSteps_withoutSimpleBases (fuel : Nat) : ∀ (ns : List Node) (user : NodeName),
    listSteps d.withoutSimpleBases [] (stepsFrom d [] fuel) user ns =
      listSteps d [] (stepsFrom d [] fuel) user ns
  | [], _ => rfl
  | n :: ns, user => by
    rw [listSteps, listSteps, nodeSteps_withoutSimpleBases fuel n,
      listSteps_withoutSimpleBases fuel ns]

theorem optionSteps_withoutSimpleBases (fuel : Nat) : ∀ (o : Option Node) (user : NodeName),
    optionSteps d.withoutSimpleBases [] (stepsFrom d [] fuel) user o =
      optionSteps d [] (stepsFrom d [] fuel) user o
  | none, _ => rfl
  | some n, user => nodeSteps_withoutSimpleBases fuel n user

end

theorem stepsFrom_withoutSimpleBases (fuel : Nat) :
    stepsFrom d.withoutSimpleBases [] fuel = stepsFrom d [] fuel := by
  induction fuel with
  | zero => rfl
  | succ fuel ih =>
    funext user n
    rw [stepsFrom, stepsFrom, ih, nodeSteps_withoutSimpleBases]

theorem steps_withoutSimpleBases : steps d.withoutSimpleBases [] = steps d [] := by
  funext user n
  rw [steps, steps, d.openingBound_withoutSimpleBases, stepsFrom_withoutSimpleBases]

end Steps

/-! ## Runs -/

section Runs

variable {s : SchemaSet}

theorem elementSteps_withoutSimpleBases (user : NodeName) (e : Element) :
    elementSteps s.withoutSimpleBases [] user e = elementSteps s [] user e := by
  have hdeclared : s.withoutSimpleBases.declared = s.declared.withoutSimpleBases := rfl
  have hfound (q : QName) : s.withoutSimpleBases.element? q = s.element? q := rfl
  have helement (i : ElementId) :
      s.declared.withoutSimpleBases.element i = s.declared.element i := rfl
  unfold elementSteps referenceSteps headSteps elementTypeSteps
  simp only [hdeclared, hfound, helement, steps_withoutSimpleBases,
    Declarations.typeName_withoutSimpleBases, Declarations.isBuiltin_withoutSimpleBases]

theorem expandFrom_withoutSimpleBases (fuel : Nat) :
    expandFrom s.withoutSimpleBases [] fuel = expandFrom s [] fuel := by
  induction fuel with
  | zero => rfl
  | succ fuel ih =>
    funext e user
    rw [expandFrom, expandFrom, ih, elementSteps_withoutSimpleBases]
    rfl

/-- Collecting makes no use of derivations from simple types. -/
theorem collect_withoutSimpleBases (groups : Bool) :
    collect s.withoutSimpleBases groups = collect s groups := by
  have hvisit : visit s.withoutSimpleBases [] = visit s [] := by
    funext n user
    have hsteps : steps s.withoutSimpleBases.declared [] = steps s.declared [] :=
      steps_withoutSimpleBases
    unfold visit expand
    rw [hsteps, expandFrom_withoutSimpleBases]
    rfl
  have hdocument : visitDocument s.withoutSimpleBases groups = visitDocument s groups := by
    funext doc
    unfold visitDocument
    rw [hvisit]
  unfold collect visitAll
  rw [hdocument]
  rfl

end Runs

/-! ## Loaded sets -/

section Loaded

variable {s : SchemaSet} {groups : Bool} {c : Collection} {met : List Meeting}

/-- An edge to a complex type that another derives from, if the element whose type that is can be
reached. -/
theorem Trace.base_edge (h : Trace s groups c met) (hw : s.Walkable) {e : ElementId} {t : TypeRef}
    {i j : ComplexId} (he : Reachable s (s.documents.flatMap (·.elements)) e)
    (noRef : (s.declared.element e).ref = none)
    (ht : (s.declared.element e).inline.or (s.declared.element e).type = some t)
    (hi : Ancestor s.declared t i) (named : isNamed (s.declared.complexType i).name)
    (hj : (s.declared.complexType i).base = some (.complex (.declared j)))
    (namedBase : isNamed (s.declared.complexType j).name)
    (other : (s.declared.complexType j).name ≠ (s.declared.complexType i).name) :
    ⟨(s.declared.complexType i).name, (s.declared.complexType j).name⟩ ∈ c.edges := by
  have htop : ∀ x ∈ s.documents.flatMap (·.elements),
      Reachable s (expands (startSteps s groups)) x := by
    intro x hx
    obtain ⟨doc, hdoc, hx⟩ := List.mem_flatMap.1 hx
    exact .top (mem_expands.2 ⟨none, mem_startSteps.2 ⟨doc, hdoc, .inr ⟨x, hx, rfl⟩⟩⟩)
  exact h.edge_of_step hw (he.mono htop)
    (hi.elementStep hw noRef ht (typeStep_base named hj namedBase other))

/-- Collecting succeeds.  The graph has an edge from each named complex type behind the type of an
element that can be reached to the complex type that it derives from.  It has none for derivations
from simple types: without all of these it is the same, and every edge stands for something else that
is used. -/
theorem derivations_recorded (h : s.Loaded) (groups : Bool) :
    ∃ edges, ofSchemaSet s groups = .ok edges ∧
      (∀ e, Reachable s (s.documents.flatMap (·.elements)) e → (s.declared.element e).ref = none →
        ∀ t ∈ (s.declared.element e).inline.or (s.declared.element e).type,
          ∀ i, Ancestor s.declared t i → isNamed (s.declared.complexType i).name →
            ∀ j, (s.declared.complexType i).base = some (.complex (.declared j)) →
              isNamed (s.declared.complexType j).name →
              (s.declared.complexType j).name ≠ (s.declared.complexType i).name →
              ⟨(s.declared.complexType i).name, (s.declared.complexType j).name⟩ ∈ edges) ∧
      ofSchemaSet s.withoutSimpleBases groups = .ok edges ∧
      ∀ a b, ⟨a, b⟩ ∈ edges → NameUses s a b := by
  have hw := h.isLinked.walkable
  obtain ⟨c, met, hbuilt, htrace⟩ := ofSchemaSet_trace hw groups
  refine ⟨c.edges, hbuilt, ?_, ?_, fun a b => htrace.nameUses hw⟩
  · intro e he noRef t ht i hi named j hj namedBase other
    exact htrace.base_edge hw he noRef ht hi named hj namedBase other
  · rw [← hbuilt, ofSchemaSet, ofSchemaSet, collect_withoutSimpleBases]

/-- The type `u` of an element derives from the complex type `t`; the types `t` and `v` of others
derive from the simple type `b`. -/
def layeredText : String :=
  "<s:schema xmlns:s=\"" ++ xsSpace ++ "\"><s:element name=\"e\" type=\"t\"/>" ++
    "<s:element name=\"f\" type=\"u\"/><s:element name=\"g\" type=\"v\"/>" ++
    "<s:simpleType name=\"b\"><s:restriction base=\"s:string\"/></s:simpleType>" ++
    "<s:simpleType name=\"v\"><s:restriction base=\"b\"/></s:simpleType>" ++
    "<s:complexType name=\"t\"><s:simpleContent><s:extension base=\"b\"/></s:simpleContent>" ++
    "</s:complexType><s:complexType name=\"u\"><s:simpleContent><s:extension base=\"t\"/>" ++
    "</s:simpleContent></s:complexType></s:schema>"

def layered : SchemaSet := .ofText layeredText

theorem layered_facts : (Loader.ofText layeredText).2 = .ok () ∧
    layered.documents.flatMap (·.elements) = [0, 1, 2] ∧
    (layered.declared.element 1).ref = none ∧
    (layered.declared.element 1).inline.or (layered.declared.element 1).type =
      some (.complex (.declared 1)) ∧
    (layered.declared.complexType 1).base = some (.complex (.declared 0)) ∧
    (layered.declared.complexType 1).name = some "u" ∧
    (layered.declared.complexType 0).name = some "t" := by
  rw [layered, SchemaSet.ofText_eq, Loader.ofText_eq]
  decide +kernel

theorem layered_loaded : layered.Loaded := SchemaSet.loaded_ofText layered_facts.1

theorem layered_derivation : layered.Loaded ∧ ∃ edges, ofSchemaSet layered false = .ok edges ∧
    ofSchemaSet layered.withoutSimpleBases false = .ok edges ∧ ⟨some "u", some "t"⟩ ∈ edges := by
  obtain ⟨-, htop, href, htype, hbase, hname, hbaseName⟩ := layered_facts
  obtain ⟨edges, hbuilt, hderived, hcut, -⟩ := derivations_recorded layered_loaded false
  refine ⟨layered_loaded, edges, hbuilt, hcut, ?_⟩
  have hreach : Reachable layered (layered.documents.flatMap (·.elements)) 1 := by
    refine .top ?_
    rw [htop]
    decide
  have hedge := hderived 1 hreach href _ htype 1 (.self 1) (by rw [hname]; decide) 0 hbase
    (by rw [hbaseName]; decide) (by rw [hname, hbaseName]; decide)
  rwa [hname, hbaseName] at hedge

/-- An edge from the named type of each element that can be reached to the named simple type that it
derives from. -/
def RecordsSimpleBases (s : SchemaSet) (edges : List (Edge NodeName)) : Prop :=
  ∀ e, Reachable s (s.documents.flatMap (·.elements)) e → ∀ t ∈ (s.declared.element e).type,
    ∀ b, s.declared.base? t = some (.simple b) → s.declared.isBuiltin (.simple b) = false →
      isNamed (s.declared.typeName t) → isNamed (s.declared.simple b).name →
      (s.declared.simple b).name ≠ s.declared.typeName t →
      ⟨s.declared.typeName t, (s.declared.simple b).name⟩ ∈ edges

/-- The type `t` of an element has simple content and derives from the simple type `b`. -/
def simplyBasedText : String :=
  "<s:schema xmlns:s=\"" ++ xsSpace ++ "\"><s:element name=\"e\" type=\"t\"/>" ++
    "<s:complexType name=\"t\"><s:simpleContent><s:extension base=\"b\"/></s:simpleContent>" ++
    "</s:complexType><s:simpleType name=\"b\"><s:restriction base=\"s:string\"/></s:simpleType>" ++
    "</s:schema>"

def simplyBased : SchemaSet := .ofText simplyBasedText

theorem simplyBased_facts : (Loader.ofText simplyBasedText).2 = .ok () ∧
    ofSchemaSet simplyBased false = .ok [⟨some "e", some "t"⟩] ∧
    simplyBased.documents.flatMap (·.elements) = [0] ∧
    (simplyBased.declared.element 0).type = some (.complex (.declared 0)) ∧
    simplyBased.declared.base? (.complex (.declared 0)) = some (.simple (.declared 0)) ∧
    simplyBased.declared.isBuiltin (.simple (.declared 0)) = false ∧
    simplyBased.declared.typeName (.complex (.declared 0)) = some "t" ∧
    (simplyBased.declared.simple (.declared 0)).name = some "b" := by
  rw [simplyBased, SchemaSet.ofText_eq, Loader.ofText_eq]
  decide +kernel

theorem simple_base_not_recorded : simplyBased.Loaded ∧
    ¬ ∃ edges, ofSchemaSet simplyBased false = .ok edges ∧
      RecordsSimpleBases simplyBased edges := by
  obtain ⟨hload, hedges, htop, htype, hbase, hdeclared, hname, hbaseName⟩ := simplyBased_facts
  refine ⟨SchemaSet.loaded_ofText hload, ?_⟩
  rintro ⟨edges, hbuilt, hrecords⟩
  have hreach : Reachable simplyBased (simplyBased.documents.flatMap (·.elements)) 0 := by
    refine .top ?_
    rw [htop]
    decide
  have hedge := hrecords 0 hreach _ htype _ hbase hdeclared (by rw [hname]; decide)
    (by rw [hbaseName]; decide) (by rw [hname, hbaseName]; decide)
  rw [hedges, Except.ok.injEq] at hbuilt
  rw [← hbuilt, hname, hbaseName] at hedge
  exact absurd hedge (by decide)

end Loaded
end Dependencies
end Graph
end SchemaPaths
