/-
The rows below a root, without a walk.

A chain leads down from element to element, each of them in the content of the one before.  Elements
are told apart by where they stand in that content, since one declaration may stand in it twice.
There is a row for each chain to an element whose type is not written in it, and one for each
attribute of each type that is entered on the way.
-/
import SchemaPaths.Proofs.Export.Steps

namespace SchemaPaths
namespace Export
namespace Paths

open Schema Walk

/-! ## What references mean -/

/-- The declaration that an element in content means. -/
def meantId (s : SchemaSet) (i : ElementId) : ElementId :=
  match (s.declared.element i).ref with
  | none => i
  | some q => (s.element? q).getD i

def meant (s : SchemaSet) (i : ElementId) : Element := s.declared.element (meantId s i)

def nameOf (s : SchemaSet) (i : ElementId) : String := word (meant s i).name

/-- The type that is written in an element, or else the one that linking found. -/
def resolvedType (s : SchemaSet) (i : ElementId) : Option TypeRef :=
  (meant s i).inline.or (meant s i).type

/-- An element has a row of its own if it has a type that is not written in it. -/
def HasRow (s : SchemaSet) (i : ElementId) : Prop :=
  (meant s i).inline = none ∧ (meant s i).type.isSome

instance (s : SchemaSet) (i : ElementId) : Decidable (HasRow s i) :=
  inferInstanceAs (Decidable (_ ∧ _))

/-- The elements in the content of the type of an element. -/
def childrenOf (s : SchemaSet) (i : ElementId) : List ElementId :=
  match resolvedType s i with
  | some t => leavesOf s.declared t
  | none => []

/-- The declaration that the use of an attribute means. -/
def attrMeant (s : SchemaSet) (a : AttributeId) : Attribute :=
  match (s.declared.attr a).ref with
  | none => s.declared.attr a
  | some q => ((s.attr? q).map s.declared.attr).getD (s.declared.attr a)

/-! ## Chains and rows -/

/-- An element and the place where it stands among the elements in content. -/
abbrev Particle := ElementId × Nat

def names (s : SchemaSet) (path : List Particle) : List String := path.map fun x => nameOf s x.1

/-- Each particle stands at its place in the content that it is met in: the first among `start`, and
every other in the content of the one before. -/
def Follows (s : SchemaSet) (start : List ElementId) : List Particle → Prop
  | [] => True
  | x :: p => start[x.2]? = some x.1 ∧ Follows s (childrenOf s x.1) p

instance decidableFollows (s : SchemaSet) :
    ∀ (start : List ElementId) (p : List Particle), Decidable (Follows s start p)
  | _, [] => .isTrue trivial
  | start, x :: p =>
    have := decidableFollows s (childrenOf s x.1) p
    inferInstanceAs (Decidable (start[x.2]? = some x.1 ∧ Follows s (childrenOf s x.1) p))

/-- A way down: the elements it leads through and the one it leads to. -/
structure Chain where
  outer : List Particle
  last : Particle

namespace Chain

def particles (c : Chain) : List Particle := c.outer ++ [c.last]

def positions (c : Chain) : List Nat := c.particles.map (·.2)

def record (s : SchemaSet) (columns : List String) (c : Chain) : Record :=
  let e := meant s c.last.1
  { node := (names s c.outer).getLast?.getD "" ++ "/" ++ nameOf s c.last.1
    path := "/" ++ "/".intercalate (names s c.particles)
    notes := " ".intercalate e.notes
    type := (e.type.map (typeText s.declared)).getD ""
    optional := some ((s.declared.element c.last.1).occurs.min == 0)
    extra := columns.map fun k => (e.extra.lookup k).getD "" }

theorem ext_particles {c d : Chain} (h : c.particles = d.particles) : c = d := by
  obtain ⟨co, cl⟩ := c
  obtain ⟨e, dl⟩ := d
  obtain ⟨rfl, hl⟩ := List.append_inj' h rfl
  cases hl
  rfl

end Chain

inductive Row where
  | element (c : Chain)
  | attr (path : List Particle) (a : AttributeId)

namespace Row

def path : Row → List Particle
  | .element c => c.particles
  | .attr path _ => path

def chain? : Row → Option Chain
  | .element c => some c
  | .attr .. => none

def attrRecord (s : SchemaSet) (path : List Particle) (a : AttributeId) : Record :=
  let used := s.declared.attr a
  let declaration := attrMeant s a
  { node := (names s path).getLast?.getD "" ++ "@" ++ word declaration.name
    path := "/" ++ "/".intercalate (names s path) ++ "@" ++ word declaration.name
    notes := " ".intercalate declaration.notes
    type := if used.typeText == "" then declaration.typeText else used.typeText
    isAttribute := true }

def record (s : SchemaSet) (columns : List String) : Row → Record
  | .element c => c.record s columns
  | .attr path a => attrRecord s path a

end Row

/-! ## The rows of a root -/

def skips (skip : List String) (name : Option String) : Bool := name.any skip.contains

/-- What a type gives rows for: the elements in its content, then its attributes. -/
def typeRows (s : SchemaSet) (skip : List String) (below : Particle → List Row)
    (path : List Particle) (t : TypeRef) : List Row :=
  (leavesOf s.declared t).zipIdx.flatMap below ++
    ((usesOf s.declared t).filter fun a => !skips skip (attrMeant s a).name).map (.attr path)

/-- The rows from an element on, inside the elements of `outer`. -/
def rowsFrom (s : SchemaSet) (skip : List String) : Nat → List Particle → Particle → List Row
  | 0, _, _ => []
  | fuel + 1, outer, x =>
    if skips skip (meant s x.1).name || (names s outer).contains (nameOf s x.1) then []
    else
      let path := outer ++ [x]
      (if HasRow s x.1 then [.element ⟨outer, x⟩] else []) ++
        (resolvedType s x.1).toList.flatMap (typeRows s skip (rowsFrom s skip fuel path) path)

/-- What a walk begins with: the root, or the elements in the content of the root. -/
def startOf (s : SchemaSet) : Root → List ElementId
  | .element e => [e]
  | .type t => leavesOf s.declared t

def rowsBelow (s : SchemaSet) (skip : List String) (root : Root) : List Row :=
  let below := rowsFrom s skip (s.declared.elements.size + 1) []
  match root with
  | .element e => below (e, 0)
  | .type t => typeRows s skip below [] t

variable {s : SchemaSet} {skip : List String} {fuel : Nat} {outer : List Particle} {x : Particle}
  {row : Row} {c : Chain}

theorem mem_typeRows {below : Particle → List Row} {path : List Particle} {t : TypeRef} :
    row ∈ typeRows s skip below path t ↔
      (∃ y, (leavesOf s.declared t)[y.2]? = some y.1 ∧ row ∈ below y) ∨
      ∃ a ∈ usesOf s.declared t, skips skip (attrMeant s a).name = false ∧ row = .attr path a := by
  simp only [typeRows, List.mem_append, List.mem_flatMap, List.mem_zipIdx_iff_getElem?,
    List.mem_map, List.mem_filter, Bool.not_eq_true', and_assoc, @eq_comm _ row]

theorem mem_rowsFrom_succ : row ∈ rowsFrom s skip (fuel + 1) outer x ↔
    (skips skip (meant s x.1).name = false ∧ nameOf s x.1 ∉ names s outer) ∧
      ((HasRow s x.1 ∧ row = .element ⟨outer, x⟩) ∨
        ∃ t, resolvedType s x.1 = some t ∧
          row ∈ typeRows s skip (rowsFrom s skip fuel (outer ++ [x])) (outer ++ [x]) t) := by
  rw [rowsFrom]
  by_cases hpassed : skips skip (meant s x.1).name || (names s outer).contains (nameOf s x.1)
  · rw [if_pos hpassed]
    simp only [Bool.or_eq_true, List.contains_iff_mem] at hpassed
    constructor
    · exact nofun
    · rintro ⟨⟨hskip, hnew⟩, -⟩
      rcases hpassed with h | h
      · rw [hskip] at h
        cases h
      · exact absurd h hnew
  · rw [if_neg hpassed]
    simp only [Bool.or_eq_true, List.contains_iff_mem, not_or, Bool.not_eq_true] at hpassed
    dsimp only
    rw [List.mem_append, List.mem_flatMap]
    by_cases hrow : HasRow s x.1 <;> simp [hrow, hpassed]

theorem childrenOf_eq {i : ElementId} {t : TypeRef} (h : resolvedType s i = some t) :
    childrenOf s i = leavesOf s.declared t := by
  rw [childrenOf, h]

/-- Every row lies on a way down from the element that it was found from. -/
theorem path_of_mem_rowsFrom (h : row ∈ rowsFrom s skip fuel outer x) :
    ∃ p, row.path = outer ++ x :: p ∧ Follows s (childrenOf s x.1) p := by
  induction fuel generalizing outer x with
  | zero => cases h
  | succ fuel ih =>
    rw [mem_rowsFrom_succ] at h
    obtain ⟨-, ⟨-, rfl⟩ | ⟨t, htype, ht⟩⟩ := h
    · exact ⟨[], rfl, trivial⟩
    · rw [mem_typeRows] at ht
      obtain ⟨y, hplace, hy⟩ | ⟨a, -, -, rfl⟩ := ht
      · obtain ⟨p, hp, hfollows⟩ := ih hy
        refine ⟨y :: p, by rw [hp, List.append_assoc]; rfl, ?_, hfollows⟩
        rw [childrenOf_eq htype]
        exact hplace
      · exact ⟨[], rfl, trivial⟩

theorem follows_of_mem_rowsBelow {root : Root} (h : row ∈ rowsBelow s skip root) :
    Follows s (startOf s root) row.path := by
  cases root with
  | element e =>
    obtain ⟨p, hp, hfollows⟩ := path_of_mem_rowsFrom h
    rw [hp]
    exact ⟨rfl, hfollows⟩
  | type t =>
    obtain ⟨y, hplace, hy⟩ | ⟨a, -, -, rfl⟩ := mem_typeRows.1 h
    · obtain ⟨p, hp, hfollows⟩ := path_of_mem_rowsFrom hy
      rw [hp]
      exact ⟨hplace, hfollows⟩
    · trivial

end Paths
end Export
end SchemaPaths
