/-
Which named nodes of a schema set depend on which.

An element depends on what it refers to, on the head of its substitution group and on its named
type; a named type depends on its base and on what its content mentions.  Content is followed down
to its elements.  Each element is expanded once, at the first place where it is met, and the edge to
it starts at whatever is being expanded there.
-/
import SchemaPaths.Graph.Order
import SchemaPaths.Notice
import SchemaPaths.Walk.Watch

namespace SchemaPaths
namespace Graph
namespace Dependencies

open Schema Walk

abbrev NodeName := Option String

def isNamed (n : NodeName) : Bool := n.getD "" != ""

inductive Step where
  | note (s : Sighting)
  | edge (source target : NodeName)
  | expand (e : ElementId) (user : NodeName)
  | stop (f : Failure)

/-- An edge from the user, if that has a name. -/
def use (user target : NodeName) : List Step :=
  if isNamed user then [.edge user target] else []

def kindSteps (user : NodeName) (n : Node) : List Step :=
  let idle : List Kind := [.attr, .simpleType, .any]
  (kindFailure? (if isNamed user then idle else .groupRef :: idle) Kind.all n).toList.map .stop

/-- The steps for a complex type: an edge to it, then what its base, its declared content and its
linked content hold, all on its own account if it is named and linked. -/
def typeSteps (c : ComplexType) (opened : NodeName → Node → List Step) (user : NodeName) :
    List Step :=
  let named := c.base.isSome && isNamed c.name
  let account := if named then c.name else user
  let toBase :=
    if named then
      (if user != c.name then use user c.name else []) ++
        (c.base.map Node.type).toList.flatMap (opened account)
    else []
  let declared := match c.model with
    | some m => opened account (.content m.simple m.particle)
    | none => c.particle.toList.flatMap (opened account)
  let linked := if c.contentType.hasElements then c.content.toList.flatMap (opened account) else []
  toBase ++ declared ++ linked

mutual

/-- The steps from a node on, on account of `user`.  `opened` gives the steps from a node that a
declaration holds. -/
def nodeSteps (d : Declarations) (watch : Watch) (opened : NodeName → Node → List Step)
    (user : NodeName) : Node → List Step
  | n@(.sequence _ _ _ items) =>
    notedOr .note (sighting? watch d n) (listSteps d watch opened user items)
  | n@(.choice _ _ items) =>
    notedOr .note (sighting? watch d n) (listSteps d watch opened user items)
  | n@(.content _ p) => notedOr .note (sighting? watch d n) (optionSteps d watch opened user p)
  | n@(.derivation _ p) => notedOr .note (sighting? watch d n) (optionSteps d watch opened user p)
  | n@(.element e) => notedOr .note (sighting? watch d n) [.expand e user]
  | n@(.attr _) => notedOr .note (sighting? watch d n) []
  | n@(.type (.simple _)) => notedOr .note (sighting? watch d n) []
  | n@(.type (.complex r)) =>
    notedOr .note (sighting? watch d n) (typeSteps (d.complex r) opened user)
  | n@(.any ..) => notedOr .note (sighting? watch d n) []
  | n@(.groupRef q _) => notedOr .note (sighting? watch d n) (use user q.name)
  | n@(.group g) =>
    notedOr .note (sighting? watch d n)
      ((d.group g).particle.toList.flatMap (opened (d.group g).name))
  | n@(.unknown ..) => notedOr .note (sighting? watch d n) (kindSteps user n)

def listSteps (d : Declarations) (watch : Watch) (opened : NodeName → Node → List Step)
    (user : NodeName) : List Node → List Step
  | [] => []
  | n :: ns => nodeSteps d watch opened user n ++ listSteps d watch opened user ns

def optionSteps (d : Declarations) (watch : Watch) (opened : NodeName → Node → List Step)
    (user : NodeName) : Option Node → List Step
  | none => []
  | some n => nodeSteps d watch opened user n

end

def stepsFrom (d : Declarations) (watch : Watch) : Nat → NodeName → Node → List Step
  | 0, _, _ => [.stop .endless]
  | fuel + 1, user, n => nodeSteps d watch (stepsFrom d watch fuel) user n

/-- A model is opened between a type and what it holds. -/
def steps (d : Declarations) (watch : Watch) (user : NodeName) (n : Node) : List Step :=
  stepsFrom d watch (2 * openingBound d) user n

/-! ## Elements -/

def referenceSteps (s : SchemaSet) (watch : Watch) (user : NodeName) (q : QName) : List Step :=
  match s.element? q with
  | none => [.stop (.unresolved .element q)]
  | some r => use user (s.declared.element r).name ++ steps s.declared watch none (.element r)

def headSteps (s : SchemaSet) (watch : Watch) (name : NodeName) (q : QName) : List Step :=
  match s.element? q with
  | none => [.stop (.unresolved .element q)]
  | some h =>
    .edge name (s.declared.element h).name :: steps s.declared watch none (.element h)

def elementTypeSteps (d : Declarations) (watch : Watch) (e : Element) : List Step :=
  match e.inline, e.type with
  | some t, _ => steps d watch e.name (.type t)
  | none, none => []
  | none, some t =>
    if !d.isBuiltin t && isNamed (d.typeName t) then
      .edge e.name (d.typeName t) :: steps d watch (d.typeName t) (.type t)
    else steps d watch e.name (.type t)

def elementSteps (s : SchemaSet) (watch : Watch) (user : NodeName) (e : Element) : List Step :=
  match e.ref with
  | some q => referenceSteps s watch user q
  | none =>
    (e.substitution.toList.flatMap fun q => headSteps s watch e.name q) ++
      elementTypeSteps s.declared watch e

/-! ## Collecting -/

/-- What has been collected: the edges in the order in which they were found, and the elements that
are expanded. -/
structure Collection where
  edges : List (Edge NodeName) := []
  expanded : List ElementId := []
  sightings : List Sighting := []
  notices : List Notice := []

/-- Collecting keeps what it has when it fails. -/
abbrev Collect := ExceptT Failure (StateM Collection)

def addEdge (source target : NodeName) : Collect Unit :=
  modify fun c => { c with
    edges := c.edges ++ [⟨source, target⟩]
    notices := c.notices ++ [.edgeFound source target] }

def perform (expand : ElementId → NodeName → Collect Unit) : Step → Collect Unit
  | .note s => modify fun c => { c with sightings := c.sightings ++ [s] }
  | .edge source target => addEdge source target
  | .expand e user => expand e user
  | .stop f => throw f

/-- Expands an element unless that was done before.  Elements expanded inside each other differ, so
their number bounds how deep they lie. -/
def expandFrom (s : SchemaSet) (watch : Watch) : Nat → ElementId → NodeName → Collect Unit
  | 0, _, _ => throw .endless
  | fuel + 1, e, user => do
    if (← get).expanded.contains e then return
    modify fun c => { c with expanded := e :: c.expanded }
    (elementSteps s watch user (s.declared.element e)).forM (perform (expandFrom s watch fuel))

def expand (s : SchemaSet) (watch : Watch) (e : ElementId) (user : NodeName) : Collect Unit :=
  expandFrom s watch (s.declared.elements.size + 1) e user

/-- Collects from a node on, on account of `user`. -/
def visit (s : SchemaSet) (watch : Watch) (n : Node) (user : NodeName) : Collect Unit :=
  (steps s.declared watch user n).forM (perform (expand s watch))

/-- Collects from the elements at the top of a document, with `groups` from its groups first. -/
def visitDocument (s : SchemaSet) (groups : Bool) (doc : Document) : Collect Unit := do
  modify fun c => { c with notices := c.notices ++ [.collecting doc.source] }
  if groups then doc.groups.forM fun g => visit s [] (.group g) none
  doc.elements.forM fun e => visit s [] (.element e) none

def visitAll (s : SchemaSet) (groups : Bool) : Collect Unit := do
  s.documents.forM (visitDocument s groups)
  modify fun c => { c with notices := c.notices ++ [.graphBuilt c.edges.length] }

def collect (s : SchemaSet) (groups : Bool) : Collection × Except Failure Unit :=
  let (outcome, c) := (visitAll s groups).run.run {}
  (c, outcome)

end Dependencies

/-- The edges of a schema set. -/
def ofSchemaSet (s : Schema.SchemaSet) (groups : Bool) :
    Except Schema.Failure (List (Edge (Option String))) :=
  let (c, outcome) := Dependencies.collect s groups
  outcome.map fun _ => c.edges

end Graph
end SchemaPaths
