/-
What requests are answered with: the dependencies of the sent schemas, or an export of them.
-/
import SchemaPaths.Export.Csv
import SchemaPaths.Schema.Loading
import SchemaPaths.Service.Upload

namespace SchemaPaths
namespace Service

open Schema

/-- Files that were sent, under their paths, and the path of the one to begin with. -/
structure Request where
  sent : List SentFile
  paths : List String := []
  primary : Option String := none

/-- The dependencies of a schema set.  Every node has a name. -/
structure DependencyAnswer where
  primary : String
  schemas : List (String × String)
  edges : List (Graph.Edge (Option String))
  nodes : List String
  roots : List String
  sorted : List String
  dependencies : List (String × List String)

structure ExportAnswer where
  primary : String
  root : String
  chosen : Bool
  candidates : List String
  count : Nat
  csv : String
deriving DecidableEq, Repr

def lift {α : Type} (r : Except Failure α) : Except Problem α := r.mapError Problem.ofFailure

/-- The first file unless one is named. -/
def primaryOf (r : Request) (files : Upload.Files) : String :=
  match r.primary with
  | some (name : String) => if name == "" then (files.head?.map (·.1)).getD "" else name
  | none => (files.head?.map (·.1)).getD ""

/-- Loads what was sent. -/
def load (settings : Settings) (r : Request) : Except Problem (String × SchemaSet) := do
  let files ← Upload.read settings r.sent r.paths
  let primary := primaryOf r files
  let (l, outcome) := Loader.load { source := Source.ofFiles files } primary
  lift outcome
  return (primary, l.set)

def named (nodes : List (Option String)) : Except Problem (List String) :=
  match nodes.mapM id with
  | some names => .ok names
  | none => .error .namelessNode

def dependencies (settings : Settings) (r : Request) (groups : Option Bool) :
    Except Problem DependencyAnswer := do
  let (primary, s) ← load settings r
  let es ← lift (Graph.ofSchemaSet s (groups.getD settings.groups))
  let sorted ← lift ((Graph.sortedDependencies settings.strict es).mapError fun n =>
    .schema (.cycle n))
  return {
    primary
    schemas := s.documents.map fun doc => (doc.source, doc.space)
    edges := es
    nodes := ← named (Graph.nodes es)
    roots := ← named (Graph.roots es)
    sorted := ← named sorted
    dependencies := ← (Graph.dependencies es).mapM fun (n, ts) => do
      match n with
      | none => throw .namelessNode
      | some (name : String) => return (name, ← named ts) }

/-- An export takes what a request leaves open from the settings. -/
def exportPaths (settings : Settings) (r : Request) (root : Option String)
    (ignore add : Option (List String)) : Except Problem ExportAnswer := do
  let (primary, s) ← load settings r
  let w := Export.write s {
    root
    skip := ignore.getD settings.skip
    columns := add.getD settings.columns
    groups := settings.groups }
  let result ← lift w.outcome
  return {
    primary
    root := result.rootName
    chosen := result.chosen
    candidates := ← named result.candidates
    count := result.count
    csv := w.text }

end Service
end SchemaPaths
