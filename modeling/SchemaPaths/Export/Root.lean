/-
The root of an export: found by its name, or chosen from what nothing depends on.
-/
import SchemaPaths.Graph.Dependencies
import SchemaPaths.Text.Blank

namespace SchemaPaths
namespace Export

open Schema

/-- An element or a type that an export starts from. -/
inductive Root where
  | element (e : ElementId)
  | type (t : TypeRef)
deriving DecidableEq, Repr

namespace Root

def node : Root → Node
  | .element e => .element e
  | .type t => .type t

/-- The root that a name with a colon means: what stands before the last colon is a prefix or a
namespace, and a type goes before an element. -/
def qualified? (s : SchemaSet) (space rest : String) : Option Root :=
  let q : QName := ⟨(s.prefixes.lookup space).getD space, some rest⟩
  match s.type? q with
  | some t => some (.type t)
  | none => (s.element? q).map .element

/-- The first namespace that has an element of the name, with the element. -/
def unqualified? (s : SchemaSet) (name : String) : Option (String × ElementId) :=
  s.namespaces.findSome? fun space =>
    (s.element? ⟨space, some name⟩).map fun e => (space, e)

/-- The root that a name means, with what is to be reported about it. -/
def find (s : SchemaSet) (name : String) : Except Failure (Root × List Notice) :=
  match Text.cutLast? ':' name with
  | some (space, rest) =>
    match qualified? s space rest with
    | some r => .ok (r, [])
    | none => .error (.schema (.rootMissing name))
  | none =>
    match unqualified? s name with
    | some (space, e) => .ok (.element e, [.rootFound name space])
    | none => .error (.schema (.rootMissing name))

/-- The nodes that nothing depends on and that go by the name of an element at the top. -/
def candidates (s : SchemaSet) (es : List (Graph.Edge (Option String))) : List (Option String) :=
  (Graph.roots es).filter fun n => (s.elements.names.map (·.name)).contains n

/-- The first candidate.  The candidates are reported, so each needs a name. -/
def choose (candidates : List (Option String)) : Except Failure (String × List Notice) :=
  match candidates with
  | [] => .error (.schema .noRoot)
  | _ =>
    match candidates.mapM id with
    | some (n :: ns) => .ok (n, [.rootsFound (n :: ns), .rootChosen n])
    | _ => .error .nameless

end Root
end Export
end SchemaPaths
