/-
Watched kinds.

A walk goes through nodes by rules that depend on their kinds.  Where a kind is watched, the walk
notes the node down instead of following its own rule, or its lack of one.
-/
import SchemaPaths.Schema.SchemaSet

namespace SchemaPaths
namespace Walk

open Schema

abbrev Watch := List Kind

/-- A watched node that a walk met. -/
structure Sighting where
  kind : Kind
  name : Option String
deriving Repr

def nodeName (d : Declarations) : Node → Option String
  | .element e => (d.element e).name
  | .attr a => (d.attr a).name
  | .type t => d.typeName t
  | .group g => (d.group g).name
  | _ => none

/-- What is noted down for a node, if its kind is watched. -/
def sighting? (watch : Watch) (d : Declarations) (n : Node) : Option Sighting :=
  n.kind?.bind fun k => if watch.contains k then some ⟨k, nodeName d n⟩ else none

/-- What a walk does at a node: noting it down if it was sighted, and else what its rule says. -/
def notedOr {Step : Type} (note : Sighting → Step) (seen : Option Sighting) (steps : List Step) :
    List Step :=
  match seen with
  | some s => [note s]
  | none => steps

/-- How messages name the kind of a node: a kind that nobody knows by its own word, or, when that is
empty, by the family the node belongs to. -/
def kindLabel (n : Node) : String :=
  match n with
  | .unknown kind family => if kind == "" then family else kind
  | _ => match n.kind? with
    | some k => k.label
    | none => ""

def unsupported (n : Node) : Failure := .schema (.unsupported (kindLabel n))

/-- How a walk fails at a node of which it sees only the kind, if it does.  `idle` are the kinds
whose rules ask for nothing more, `ruled` the others that the walk has rules for. -/
def kindFailure? (idle ruled : List Kind) (n : Node) : Option Failure :=
  match n.kind? with
  | none => some (unsupported n)
  | some k =>
    if idle.contains k then none
    else if ruled.contains k then some .missingPart
    else some (unsupported n)

/-- More than the greatest number of declarations that can be opened inside each other before an
element is met, unless one of them is inside itself. -/
def openingBound (d : Declarations) : Nat := d.complexTypes.size + d.groups.size + 2

end Walk
end SchemaPaths
