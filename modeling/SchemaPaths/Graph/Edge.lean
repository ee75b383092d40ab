/-
Edges between nodes of any type, and what a list of edges says about its nodes.
-/
namespace SchemaPaths
namespace Graph

structure Edge (α : Type) where
  source : α
  target : α
deriving DecidableEq, Repr

namespace Edge

variable {α : Type} [DecidableEq α]

def sameEnd (blank : α → Bool) (a b : α) : Bool :=
  a == b || (blank a && blank b)

/-- Two edges are the same when their ends are; all blank ends are one. -/
def same (blank : α → Bool) (a b : Edge α) : Bool :=
  sameEnd blank a.source b.source && sameEnd blank a.target b.target

def isEmpty (blank : α → Bool) (e : Edge α) : Bool := blank e.source && blank e.target

/-- The edge with its ends replaced where replacements are given. -/
def clone (e : Edge α) (source target : Option α) : Edge α :=
  ⟨source.getD e.source, target.getD e.target⟩

def text (word : α → String) (e : Edge α) : String :=
  "Source=" ++ word e.source ++ ", Target=" ++ word e.target

end Edge

/-- What can stand at the end of an edge by itself: nothing, a text or a number. -/
inductive Label where
  | nothing
  | text (s : String)
  | number (n : Int)
deriving DecidableEq, Repr

def Label.isBlank : Label → Bool
  | .nothing => true
  | .text s => s == ""
  | .number n => n == 0

variable {α : Type} [DecidableEq α]

def addNew (nodes : List α) (a : α) : List α := if nodes.contains a then nodes else nodes ++ [a]

/-- Every node once: the sources in the order of the edges, then the targets. -/
def nodes (es : List (Edge α)) : List α :=
  (es.map (·.source) ++ es.map (·.target)).foldl addNew []

/-- What a node depends on, an edge for each mention. -/
def targets (es : List (Edge α)) (a : α) : List α :=
  (es.filter fun e => e.source == a).map (·.target)

def dependencies (es : List (Edge α)) : List (α × List α) :=
  (nodes es).map fun a => (a, targets es a)

/-- The nodes that nothing depends on. -/
def roots (es : List (Edge α)) : List α :=
  let ts := es.map (·.target)
  (nodes es).filter fun a => !ts.contains a

end Graph
end SchemaPaths
