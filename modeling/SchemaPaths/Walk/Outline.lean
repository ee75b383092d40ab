/-
The plain walk.

It goes through types, sequences and choices to what they hold, and has no rule for the elements and
attributes it finds there.
-/
import SchemaPaths.Walk.Watch

namespace SchemaPaths
namespace Walk
namespace Outline

open Schema

inductive Step where
  | note (s : Sighting)
  | stop (f : Failure)

/-- The linked content of a type if it has elements, else what was declared. -/
def inner (c : ComplexType) : Option Node :=
  if c.contentType.hasElements && c.content.isSome then c.content else c.particle

def kindSteps (n : Node) : List Step :=
  match n.kind? with
  | some .element => [.stop (.unhandled "elements")]
  | some .attr => [.stop (.unhandled "attributes")]
  | _ =>
    (kindFailure? [.simpleType, .any] [.complexType, .sequence, .choice] n).toList.map .stop

mutual

/-- The steps of a walk from a node on.  `opened` gives the steps from a node that a declaration
holds. -/
def nodeSteps (d : Declarations) (watch : Watch) (opened : Node → List Step) : Node → List Step
  | n@(.sequence _ _ _ items) =>
    notedOr .note (sighting? watch d n) (listSteps d watch opened items)
  | n@(.choice _ _ items) => notedOr .note (sighting? watch d n) (listSteps d watch opened items)
  | n@(.type (.simple _)) => notedOr .note (sighting? watch d n) []
  | n@(.type (.complex r)) =>
    notedOr .note (sighting? watch d n) ((inner (d.complex r)).toList.flatMap opened)
  | n@(.any ..) => notedOr .note (sighting? watch d n) []
  | n => notedOr .note (sighting? watch d n) (kindSteps n)

def listSteps (d : Declarations) (watch : Watch) (opened : Node → List Step) :
    List Node → List Step
  | [] => []
  | n :: ns => nodeSteps d watch opened n ++ listSteps d watch opened ns

end

def stepsFrom (d : Declarations) (watch : Watch) : Nat → Node → List Step
  | 0, _ => [.stop .endless]
  | fuel + 1, n => nodeSteps d watch (stepsFrom d watch fuel) n

/-- Walks from a node; the sightings are added to those made before. -/
def visit (s : SchemaSet) (watch : Watch) (n : Node) (seen : List Sighting) :
    List Sighting × Option Failure :=
  go seen (stepsFrom s.declared watch (openingBound s.declared) n)
where
  go (seen : List Sighting) : List Step → List Sighting × Option Failure
    | [] => (seen, none)
    | .note s :: steps => go (seen ++ [s]) steps
    | .stop f :: _ => (seen, some f)

end Outline
end Walk
end SchemaPaths
