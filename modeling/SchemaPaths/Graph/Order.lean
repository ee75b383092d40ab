/-
An order of the nodes in which dependencies come first.

The search goes down one dependency at a time and keeps its way back on a stack of frames, each with
the dependencies still to be looked at.  A dependency that is on the way already closes a cycle; the
search either fails there or passes over it.
-/
import SchemaPaths.Graph.Edge

namespace SchemaPaths
namespace Graph

variable {α : Type} [DecidableEq α]

/-- A node that is being worked on. -/
structure Frame (α : Type) where
  node : α
  pending : List α

/-- What a search has done: the nodes it came to, those it finished with, in order, and the places
where it passed over a cycle. -/
structure Search (α : Type) where
  visited : List α := []
  finished : List α := []
  broken : List (α × α) := []

namespace Search

def push (es : List (Edge α)) (a : α) (s : Search α) (stack : List (Frame α)) :
    Search α × List (Frame α) :=
  ({ s with visited := a :: s.visited }, ⟨a, targets es a⟩ :: stack)

/-- Works until the stack is empty.  Each step leaves a node for good or looks at one of its
edges. -/
def run (strict : Bool) (es : List (Edge α)) :
    Nat → Search α → List (Frame α) → Except α (Search α)
  | _, s, [] => .ok s
  | 0, s, _ => .ok s
  | fuel + 1, s, ⟨a, []⟩ :: stack =>
    run strict es fuel { s with finished := s.finished ++ [a] } stack
  | fuel + 1, s, ⟨a, d :: ds⟩ :: stack =>
    if s.visited.contains d then
      if d == a || stack.any (fun f => f.node == d) then
        if strict then .error d
        else run strict es fuel { s with broken := s.broken ++ [(d, a)] } (⟨a, ds⟩ :: stack)
      else run strict es fuel s (⟨a, ds⟩ :: stack)
    else
      let (s, stack) := push es d s (⟨a, ds⟩ :: stack)
      run strict es fuel s stack

/-- Every edge is looked at once and every node left once, and an edge has two nodes at most. -/
def stepBound (es : List (Edge α)) : Nat := 3 * es.length

def visit (strict : Bool) (es : List (Edge α)) (s : Search α) (a : α) : Except α (Search α) :=
  if s.visited.contains a then .ok s
  else
    let (s, stack) := push es a s []
    run strict es (stepBound es) s stack

end Search

/-- The whole search; on failure the node that closes a cycle. -/
def search (strict : Bool) (es : List (Edge α)) : Except α (Search α) :=
  (nodes es).foldlM (Search.visit strict es) {}

/-- The nodes, dependencies first. -/
def sort (strict : Bool) (es : List (Edge α)) : Except α (List α) :=
  (search strict es).map (·.finished)

/-- The nodes, dependencies last. -/
def sortedDependencies (strict : Bool) (es : List (Edge α)) : Except α (List α) :=
  (sort strict es).map List.reverse

end Graph
end SchemaPaths
