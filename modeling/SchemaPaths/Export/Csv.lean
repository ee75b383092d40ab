/-
A whole export: the header and the rows below a root.
-/
import SchemaPaths.Export.Paths
import SchemaPaths.Export.Root

namespace SchemaPaths
namespace Export

open Schema

/-- The columns of an export: the fixed ones, then each additional one that is not there yet. -/
def header (columns : List String) : List String := distinct (fixedColumns ++ columns)

structure Order where
  root : Option String := none
  skip : List String := []
  columns : List String := []
  groups : Bool := false

/-- Where an export starts: a root under its name, the candidates that it was chosen from, and
whether it was chosen at all. -/
structure Start where
  rootName : String
  root : Root
  candidates : List (Option String)
  chosen : Bool

structure Result extends Start where
  count : Nat

/-- What an export has written and reported, and how it ended. -/
structure Written where
  text : String
  notices : List Notice
  outcome : Except Failure Result

def asLine (fields : List String) : String := ",".intercalate fields ++ "\n"

/-- The name of the root, the candidates it was chosen from, and whether it was chosen at all. -/
def rootName (s : SchemaSet) (o : Order) :
    List Notice × Except Failure (String × List (Option String) × Bool) :=
  match o.root with
  | some (name : String) =>
    if name != "" then ([], .ok (name, [], false)) else chosen
  | none => chosen
where
  chosen :=
    let (c, outcome) := Graph.Dependencies.collect s o.groups
    match outcome with
    | .error e => (c.notices, .error e)
    | .ok () =>
      let candidates := Root.candidates s c.edges
      match Root.choose candidates with
      | .error e => (c.notices, .error e)
      | .ok (name, ns) => (c.notices ++ ns, .ok (name, candidates, true))

/-- Where the export of a schema set starts, with what is to be reported about that. -/
def start (s : SchemaSet) (o : Order) : List Notice × Except Failure Start :=
  let (before, name) := rootName s o
  match name with
  | .error e => (before, .error e)
  | .ok (name, candidates, chosen) =>
    match Root.find s name with
    | .error e => (before, .error e)
    | .ok (root, found) => (before ++ found, .ok ⟨name, root, candidates, chosen⟩)

/-- Writes the export of a schema set.  Nothing is written before the root is found. -/
def write (s : SchemaSet) (o : Order) : Written :=
  let columns := distinct o.columns
  let (before, begun) := start s o
  match begun with
  | .error e => ⟨"", before, .error e⟩
  | .ok begun =>
    let (st, outcome) := Paths.fromRoot s ⟨o.skip, columns, []⟩ begun.root.node
    let text := asLine (header columns) ++
      String.join (st.records.toList.map fun r => r.line ++ "\n")
    ⟨text, before ++ st.notices.toList, outcome.map fun _ => ⟨begun, st.records.size⟩⟩

/-- The root that an export of the set takes when none is named. -/
def defaultRoot (s : SchemaSet) : Except Failure String := do
  let (c, outcome) := Graph.Dependencies.collect s false
  outcome
  let (name, _) ← Root.choose (Root.candidates s c.edges)
  return name

end Export
end SchemaPaths
