/-
Collecting comes through.

Every step of a set that walks can go through can be taken: what is to be expanded is declared, and
nothing tells the walk to stop.  An element is expanded once, so there are never more elements being
expanded inside each other than are declared, and the walk has room for them all.
-/
import SchemaPaths.Proofs.Graph.Running
import SchemaPaths.Proofs.Graph.Stepping

namespace SchemaPaths
namespace Graph
namespace Dependencies

open Schema Walk

/-! ## Steps that can be taken -/

/-- The walk can take the step, if it can expand the elements within the extent. -/
def Step.Open (x : Extent) : Step → Prop
  | .note _ => True
  | .edge .. => True
  | .expand e _ => e < x.elements
  | .stop _ => False

def Clear (x : Extent) (steps : List Step) : Prop := ∀ t ∈ steps, t.Open x

theorem isOpen_of_atom {x : Extent} {a : Node} {t : Step} {user : NodeName} (ha : x.HasAtom a)
    (h : t ∈ atomSteps user a) : t.Open x := by
  cases a with
  | element e =>
    rw [atomSteps, List.mem_singleton] at h
    rw [h]
    exact ha
  | groupRef q o =>
    obtain ⟨-, rfl⟩ := mem_use.1 h
    trivial
  | _ => cases h

theorem TypeStep.isOpen {d : Declarations} (hd : d.Closed) {user : NodeName} {t : TypeRef}
    {x : Step} (h : TypeStep d user t x) : x.Open d.extent := by
  induction h with
  | content holds atom step => exact isOpen_of_atom ((holds.hasContent hd).atoms _ atom) step
  | edge => trivial
  | base _ _ _ ih => exact ih

section Steps

variable {s : SchemaSet}

/-- What an element leads to is found, and can be walked through. -/
theorem clear_elementSteps (hw : s.Walkable) (user : NodeName) (e : ElementId) :
    Clear s.declared.extent (elementSteps s [] user (s.declared.element e)) := by
  intro x hx
  cases elementStep_of_mem hw hx with
  | use => trivial
  | target _ found => exact elementId_lt hw.closed found
  | headEdge => trivial
  | head _ _ found => exact elementId_lt hw.closed found
  | typeEdge => trivial
  | named _ _ _ _ step => exact step.isOpen hw.closed.declared
  | nameless _ _ _ step => exact step.isOpen hw.closed.declared

theorem clear_element {e : ElementId} (he : e < s.declared.elements.size) (user : NodeName) :
    Clear s.declared.extent (steps s.declared [] user (.element e)) := by
  intro x hx
  rw [steps_element, List.mem_singleton] at hx
  rw [hx]
  exact he

theorem clear_group (hd : s.declared.Closed) (user : NodeName) (g : GroupId) :
    Clear s.declared.extent (steps s.declared [] user (.group g)) := by
  intro x hx
  obtain ⟨n, hn, a, ha, hx⟩ := (mem_steps_group hd user g).1 hx
  exact isOpen_of_atom ((hd.group g n hn).2.atoms a ha) hx

end Steps

/-! ## Expanding -/

/-- The elements that are expanded are declared, and each is expanded once. -/
structure Expanding (s : SchemaSet) (c : Collection) : Prop where
  nodup : c.expanded.Nodup
  lt : ∀ e ∈ c.expanded, e < s.declared.elements.size

variable {s : SchemaSet}

theorem Expanding.length_le {c : Collection} (h : Expanding s c) :
    c.expanded.length ≤ s.declared.elements.size := length_le_of_nodup h.nodup h.lt

/-- Collecting succeeds from wherever there is room for what is not expanded yet, and forgets no
element that was expanded. -/
def Collects (s : SchemaSet) (room : Nat) (m : Collect Unit) : Prop :=
  ∀ c : Collection, Expanding s c → s.declared.elements.size < room + c.expanded.length →
    Ensures m c (fun _ c' => Expanding s c' ∧ c.expanded.length ≤ c'.expanded.length)
      fun _ _ => False

namespace Collects

variable {room : Nat} {m m' : Collect Unit}

theorem nothing : Collects s room (pure ()) :=
  fun _ hc _ => ensures_pure.2 ⟨hc, Nat.le_refl _⟩

theorem andThen (h : Collects s room m) (h' : Collects s room m') :
    Collects s room (do m; m') := by
  intro c hc hroom
  refine (h c hc hroom).bind fun _ c₁ hc₁ => ?_
  have hroom₁ : s.declared.elements.size < room + c₁.expanded.length := by
    have := hc₁.2
    omega
  refine (h' c₁ hc₁.1 hroom₁).mono (fun _ c₂ hc₂ => ?_) fun _ _ hb => hb
  exact ⟨hc₂.1, Nat.le_trans hc₁.2 hc₂.2⟩

/-- What touches no expanded element is no hindrance. -/
theorem aside {f : Collection → Collection} (h : ∀ c, (f c).expanded = c.expanded) :
    Collects s room (modify f) := by
  intro c hc _
  refine ensures_modify.2 ⟨⟨?_, ?_⟩, ?_⟩
  · rw [h]
    exact hc.nodup
  · rw [h]
    exact hc.lt
  · rw [h]

end Collects

theorem composes_collects (s : SchemaSet) (room : Nat) :
    Composes fun steps m => Clear s.declared.extent steps → Collects s room m where
  nothing _ := .nothing
  aside _ h _ := .aside fun c => (h c).1
  note _ _ := .aside fun _ => rfl
  edge _ _ _ := .aside fun _ => rfl
  stop _ h := (h _ (List.mem_singleton_self _)).elim
  andThen h h' hclear := by
    obtain ⟨hfirst, hnext⟩ := List.forall_mem_append.1 hclear
    exact (h hfirst).andThen (h' hnext)

/-- Expanding takes up one more element each time it goes further in. -/
theorem collects_expandFrom (hw : s.Walkable) (fuel : Nat) : ∀ e user,
    Clear s.declared.extent [.expand e user] → Collects s fuel (expandFrom s [] fuel e user) := by
  induction fuel with
  | zero =>
    intro e user _ c hc hroom
    have := hc.length_le
    omega
  | succ fuel ih =>
    intro e user hclear c hc hroom
    have he : e < s.declared.elements.size := hclear _ (List.mem_singleton_self _)
    unfold expandFrom
    refine ensures_bind.2 (ensures_get.2 ?_)
    by_cases hmet : e ∈ c.expanded
    · rw [if_pos (List.contains_iff_mem.2 hmet)]
      exact ensures_pure.2 ⟨hc, Nat.le_refl _⟩
    · rw [if_neg fun h => hmet (List.contains_iff_mem.1 h)]
      refine ensures_bind.2 (ensures_modify.2 ?_)
      have hc' : Expanding s { c with expanded := e :: c.expanded } :=
        ⟨List.nodup_cons.2 ⟨hmet, hc.nodup⟩, List.forall_mem_cons.2 ⟨he, hc.lt⟩⟩
      have hroom' : s.declared.elements.size < fuel + (e :: c.expanded).length := by
        rw [List.length_cons]
        omega
      have hsteps := (composes_collects s fuel).perform ih _ (clear_elementSteps hw user e)
      refine (hsteps _ hc' hroom').mono (fun _ c' hgot => ⟨hgot.1, ?_⟩) fun _ _ hb => hb
      exact Nat.le_trans (Nat.le_succ _) hgot.2

theorem clear_documents (hw : s.Walkable) (groups : Bool) {docs : List Document}
    (hdocs : ∀ doc ∈ docs, ∀ e ∈ doc.elements, e < s.declared.elements.size) :
    Clear s.declared.extent (docs.flatMap (documentSteps s groups)) := by
  intro x hx
  obtain ⟨doc, hdoc, hx⟩ := List.mem_flatMap.1 hx
  rcases List.mem_append.1 hx with hx | hx
  · cases groups with
    | false => cases hx
    | true =>
      obtain ⟨g, -, hx⟩ := List.mem_flatMap.1 hx
      exact clear_group hw.closed.declared none g x hx
  · obtain ⟨e, he, hx⟩ := List.mem_flatMap.1 hx
    exact clear_element (hdocs doc hdoc e he) none x hx

theorem collects_visitAll (hw : s.Walkable) (groups : Bool) (docs : List Document)
    (hdocs : ∀ doc ∈ docs, ∀ e ∈ doc.elements, e < s.declared.elements.size) :
    Collects s (s.declared.elements.size + 1)
      (visitAll { s with documents := docs } groups) :=
  (composes_collects s _).visitAll (collects_expandFrom hw _) groups docs
    (clear_documents hw groups hdocs)

end Dependencies

open Schema

/-- The edges of a set that walks can go through can be collected. -/
theorem ofSchemaSet_succeeds {s : SchemaSet} (hw : s.Walkable) (groups : Bool) :
    ∃ edges, ofSchemaSet s groups = .ok edges := by
  have hdocs := fun doc hdoc => (hw.closed.documents doc hdoc).elements
  have hrun := Dependencies.collects_visitAll hw groups s.documents hdocs {} ⟨.nil, nofun⟩ (by simp)
  unfold Ensures at hrun
  unfold ofSchemaSet Dependencies.collect
  split at hrun
  · rename_i u c heq
    rw [heq]
    exact ⟨c.edges, rfl⟩
  · exact hrun.elim

end Graph
end SchemaPaths
