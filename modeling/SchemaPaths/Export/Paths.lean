/-
The paths of a schema set from a root down.

The walk keeps the names of the elements it is inside of, innermost first.  An element whose name is
among them already, or is to be skipped, is passed over with all it holds; so no path has a name
twice, and every walk ends.
-/
import SchemaPaths.Export.Record
import SchemaPaths.Notice
import SchemaPaths.Walk.Outline

namespace SchemaPaths
namespace Export
namespace Paths

open Schema Walk

inductive Step where
  | note (s : Sighting)
  | element (e : ElementId)
  | attr (a : AttributeId)
  | stop (f : Failure)

def attrSteps (d : Declarations) (watch : Watch) (a : AttributeId) : List Step :=
  notedOr .note (sighting? watch d (.attr a)) [.attr a]

def kindSteps (n : Node) : List Step :=
  (kindFailure? [.simpleType, .any]
    [.element, .attr, .complexType, .sequence, .choice, .groupRef] n).toList.map .stop

/-- The steps for a complex type: its content, then its attributes. -/
def typeSteps (d : Declarations) (watch : Watch) (opened : Node → List Step) (c : ComplexType) :
    List Step :=
  (Outline.inner c).toList.flatMap opened ++ c.uses.flatMap (attrSteps d watch)

def groupSteps (s : SchemaSet) (opened : Node → List Step) (q : QName) : List Step :=
  match s.group? q with
  | some g => (s.declared.group g).particle.toList.flatMap opened
  | none => [.stop (.unresolved .group q)]

mutual

/-- The steps from a node on, down to the elements and attributes it holds.  `opened` gives the
steps from a node that a declaration holds. -/
def nodeSteps (s : SchemaSet) (watch : Watch) (opened : Node → List Step) : Node → List Step
  | n@(.sequence _ _ _ items) =>
    notedOr .note (sighting? watch s.declared n) (listSteps s watch opened items)
  | n@(.choice _ _ items) =>
    notedOr .note (sighting? watch s.declared n) (listSteps s watch opened items)
  | n@(.element e) => notedOr .note (sighting? watch s.declared n) [.element e]
  | .attr a => attrSteps s.declared watch a
  | n@(.type (.simple _)) => notedOr .note (sighting? watch s.declared n) []
  | n@(.type (.complex r)) =>
    notedOr .note (sighting? watch s.declared n)
      (typeSteps s.declared watch opened (s.declared.complex r))
  | n@(.any ..) => notedOr .note (sighting? watch s.declared n) []
  | n@(.groupRef q _) => notedOr .note (sighting? watch s.declared n) (groupSteps s opened q)
  | n => notedOr .note (sighting? watch s.declared n) (kindSteps n)

def listSteps (s : SchemaSet) (watch : Watch) (opened : Node → List Step) : List Node → List Step
  | [] => []
  | n :: ns => nodeSteps s watch opened n ++ listSteps s watch opened ns

end

def stepsFrom (s : SchemaSet) (watch : Watch) : Nat → Node → List Step
  | 0, _ => [.stop .endless]
  | fuel + 1, n => nodeSteps s watch (stepsFrom s watch fuel) n

def steps (s : SchemaSet) (watch : Watch) (n : Node) : List Step :=
  stepsFrom s watch (openingBound s.declared) n

/-! ## The walk -/

/-- What a walk is asked for. -/
structure Request where
  skip : List String := []
  columns : List String := []
  watch : Watch := []

/-- Where a walk is and what it has found, in order. -/
structure State where
  path : List (Option String) := []
  records : Array Record := #[]
  sightings : List Sighting := []
  notices : Array Notice := #[]

/-- A walk keeps its state when it fails. -/
abbrev Visit := ExceptT Failure (StateM State)

/-- Does something one step further in and comes back, however it ended. -/
def inside (name : Option String) (body : Visit Unit) : Visit Unit := fun st =>
  let (outcome, st') := body { st with path := name :: st.path }
  (outcome, { st' with path := st'.path.tail })

/-- The names of a path from the root, if it has no step without one. -/
def names? (path : List (Option String)) : Option (List String) :=
  path.reverse.mapM id

def pathNames : Visit (List String) := do
  match names? (← get).path with
  | some ns => return ns
  | none => throw .nameless

def word (name : Option String) : String := name.getD noName

def isSkipped (r : Request) (name : Option String) : Bool := name.any r.skip.contains

def emit (r : Record) : Visit Unit := modify fun st => { st with records := st.records.push r }

def say (n : Notice) : Visit Unit := modify fun st => { st with notices := st.notices.push n }

/-- How a row names a type: by its code, else by its name. -/
def typeText (d : Declarations) (t : TypeRef) : String :=
  match d.typeCode t with
  | some c => if c == "" then (d.typeName t).getD "" else c
  | none => (d.typeName t).getD ""

/-- The row of an element that the walk is inside of. -/
def emitElement (d : Declarations) (r : Request) (occurs : Occurs) (e : Element) (t : TypeRef) :
    Visit Unit := do
  let ns ← pathNames
  let outer := (((← get).path.tail.head?).map word).getD ""
  emit {
    node := outer ++ "/" ++ word e.name
    path := "/" ++ "/".intercalate ns
    notes := " ".intercalate e.notes
    type := typeText d t
    optional := some (occurs.min == 0)
    extra := r.columns.map fun c => (e.extra.lookup c).getD "" }

/-- The declaration that the use of an attribute means. -/
def attributeMeant (s : SchemaSet) (used : Attribute) : Visit Attribute :=
  match used.ref with
  | none => pure used
  | some q =>
    match s.attr? q with
    | some i => pure (s.declared.attr i)
    | none => throw (.unresolved .attr q)

def visitAttribute (s : SchemaSet) (r : Request) (a : AttributeId) : Visit Unit := do
  let used := s.declared.attr a
  let declaration ← attributeMeant s used
  if isSkipped r declaration.name then return
  let ns ← pathNames
  let outer := (((← get).path.head?).map word).getD ""
  emit {
    node := outer ++ "@" ++ word declaration.name
    path := "/" ++ "/".intercalate ns ++ "@" ++ word declaration.name
    notes := " ".intercalate declaration.notes
    type := if used.typeText == "" then declaration.typeText else used.typeText
    isAttribute := true }

def perform (s : SchemaSet) (r : Request) (visit : ElementId → Visit Unit) : Step → Visit Unit
  | .note m => modify fun st => { st with sightings := st.sightings ++ [m] }
  | .element e => visit e
  | .attr a => visitAttribute s r a
  | .stop f => throw f

/-- An element that is met inside itself is reported; the report needs the names of the path. -/
def reportRecursion (name : Option String) : Visit Unit := do
  let ns ← pathNames
  say (.recursionSkipped name (ns.map some))

/-- The declaration that an element in content means: what it refers to, if it is a reference. -/
def elementMeant (s : SchemaSet) (met : Element) : Visit Element :=
  match met.ref with
  | none => pure met
  | some q =>
    match s.element? q with
    | some j => pure (s.declared.element j)
    | none => throw (.unresolved .element q)

/-- Visits an element: its row if it has a type that is not written in it, then what its type
holds.  A reference stands for what it refers to, apart from how often it may occur. -/
def visitFrom (s : SchemaSet) (r : Request) : Nat → ElementId → Visit Unit
  | 0, _ => throw .endless
  | fuel + 1, i => do
    let met := s.declared.element i
    let e ← elementMeant s met
    if isSkipped r e.name then return
    if (← get).path.contains e.name then
      reportRecursion e.name
      return
    inside e.name do
      match e.inline, e.type with
      | some t, _ => (steps s r.watch (.type t)).forM (perform s r (visitFrom s r fuel))
      | none, some t =>
        emitElement s.declared r met.occurs e t
        (steps s r.watch (.type t)).forM (perform s r (visitFrom s r fuel))
      | none, none => pure ()

/-- The names on a path differ, so there are never more of them than elements. -/
def visitElement (s : SchemaSet) (r : Request) (e : ElementId) : Visit Unit :=
  visitFrom s r (s.declared.elements.size + 1) e

def visit (s : SchemaSet) (r : Request) (n : Node) : Visit Unit :=
  (steps s r.watch n).forM (perform s r (visitElement s r))

/-- Everything below a root, from an empty path. -/
def visitRoot (s : SchemaSet) (r : Request) (root : Node) : Visit Unit := do
  visit s r root
  say (.recordsWritten (← get).records.size)

/-- The rows below a root, as far as the walk came, and why it stopped if it did. -/
def fromRoot (s : SchemaSet) (r : Request) (root : Node) : State × Except Failure Unit :=
  let (outcome, st) := (visitRoot s r root).run.run {}
  (st, outcome)

end Paths
end Export
end SchemaPaths
