/-
Both traversals of a loaded set end.

No element is entered inside one of its own name, so the path of an export has no name twice and is
never longer than there are names; and what linking made sure of has no circles that a traversal
could run into.  So neither traversal ever runs out of steps, however recursive the declarations are.
-/
import Mathlib.Data.List.Dedup
import SchemaPaths.Proofs.Export.Trail
import SchemaPaths.Proofs.Traversal

namespace SchemaPaths

open Schema Export Walk

namespace Export
namespace Paths

/-- What the declared elements are called; one may be without a name. -/
def elementNames (s : SchemaSet) : List (Option String) := s.declared.elements.toList.map (·.name)

/-- The names on a path are those of declared elements, and no two of them are the same. -/
structure Kept (s : SchemaSet) (p : Path) : Prop where
  nodup : p.Nodup
  declared : ∀ n ∈ p, n ∈ elementNames s

variable {s : SchemaSet} {columns skip : List String} {p : Path}

namespace Kept

theorem start : Kept s [] := ⟨.nil, nofun⟩

/-- So a path is no longer than there are names. -/
theorem length_le (h : Kept s p) : p.length ≤ (elementNames s).dedup.length :=
  (List.subperm_of_subset h.nodup fun n hn => List.mem_dedup.2 (h.declared n hn)).length_le

theorem length_le_size (h : Kept s p) : p.length ≤ s.declared.elements.size := by
  have hdedup := (List.dedup_sublist (elementNames s)).length_le
  have hnames : (elementNames s).length = s.declared.elements.size := by simp [elementNames]
  exact (h.length_le.trans hdedup).trans_eq hnames

theorem cons (hw : s.Walkable) (h : Kept s p) {i : ElementId} (hi : i < s.declared.elements.size)
    (hnew : (meant s i).name ∉ p) : Kept s ((meant s i).name :: p) where
  nodup := List.nodup_cons.2 ⟨hnew, h.nodup⟩
  declared := by
    refine List.forall_mem_cons.2 ⟨?_, h.declared⟩
    have hj := meantId_lt hw hi
    have helement : meant s i ∈ s.declared.elements.toList := by
      unfold meant Declarations.element
      rw [Array.getD_eq_getD_getElem?, Array.getElem?_eq_getElem hj, Option.getD_some]
      exact Array.mem_toList_iff.2 (Array.getElem_mem hj)
    exact List.mem_map_of_mem helement

end Kept

def IsNameless (e : Failure) : Prop := e = .nameless

theorem isNameless : IsNameless .nameless := rfl

/-- On a set that can be walked an export stops early only if an element on its path has no name. -/
def Holds (s : SchemaSet) (p : Path) (m : Trailed Unit) : Prop := Stays (Kept s) IsNameless p m

theorem stays_type (hw : s.Walkable) (hp : Kept s p) {visit : ElementId → Trailed Unit}
    (h : ∀ i < s.declared.elements.size, Holds s p (visit i)) (t : TypeRef) :
    Holds s p ((steps s [] (.type t)).forM (Trailed.perform s { skip, columns } visit)) := by
  rw [steps_type hw]
  refine .forM fun step hstep => ?_
  rcases List.mem_append.1 hstep with hstep | hstep
  · obtain ⟨i, hi, rfl⟩ := List.mem_map.1 hstep
    exact h i (lt_of_mem_leavesOf hw.closed hi)
  · obtain ⟨a, ha, rfl⟩ := List.mem_map.1 hstep
    refine .step hp (.visitAttribute isNameless ?_)
    rw [attributeMeant_eq hw (lt_of_mem_usesOf hw.closed ha)]
    exact .pure _

/-- By induction on the fuel: it lasts as long as the path can become longer. -/
theorem stays_visitFrom (hw : s.Walkable) (fuel : Nat) :
    ∀ (p : Path) (i : ElementId), Kept s p → i < s.declared.elements.size →
      s.declared.elements.size < fuel + p.length →
      Holds s p (Trailed.visitFrom s { skip, columns } fuel i) := by
  induction fuel with
  | zero =>
    intro p i hp _ hfuel
    have := hp.length_le_size
    omega
  | succ fuel ih =>
    intro p i hp hi hfuel
    unfold Trailed.visitFrom
    dsimp only
    rw [elementMeant_eq hw hi]
    refine .known hp ?_
    split
    · exact .pure _
    · refine .get fun st trail hst => ?_
      dsimp only
      rw [hst]
      split
      · exact .bind (.step hp (.reportRecursion isNameless _)) fun _ => .pure _
      · rename_i hnew
        have hinner : Kept s ((meant s i).name :: p) := hp.cons hw hi (by simpa using hnew)
        have hroom : s.declared.elements.size < fuel + ((meant s i).name :: p).length := by
          rw [List.length_cons]
          omega
        have htype (t : TypeRef) : Holds s ((meant s i).name :: p)
            ((steps s [] (.type t)).forM
              (Trailed.perform s { skip, columns } (Trailed.visitFrom s { skip, columns } fuel))) :=
          stays_type hw hinner (fun j hj => ih _ j hinner hj hroom) t
        refine .inside hp hinner ?_
        rcases (meant s i).inline with _ | t
        · rcases (meant s i).type with _ | t
          · exact .pure _
          · exact .bind (.step hinner (.emitElement isNameless _ _ _ _ _)) fun _ => htype t
        · exact htype t

theorem stays_visitRoot (hw : s.Walkable) {root : Root} (hr : IsGlobal s root) :
    Holds s [] (Trailed.visitRoot s { skip, columns } root.node) := by
  have hvisit (i : ElementId) (hi : i < s.declared.elements.size) : Holds s []
      (Trailed.visitFrom s { skip, columns } (s.declared.elements.size + 1) i) :=
    stays_visitFrom hw _ [] i .start hi (by simp)
  refine .bind ?_ fun _ => .step .start (Rests.get.bind fun _ => .say _)
  cases root with
  | element e =>
    obtain ⟨q, hq⟩ := hr
    show Holds s [] ((steps s [] (.element e)).forM _)
    rw [steps_element]
    exact .bind (hvisit e (elementId_lt hw.closed hq)) fun _ => .pure _
  | type t => exact stays_type hw .start hvisit t

end Paths
end Export

/-- Recursive or not, a loaded set is traversed to the end.  The edges are collected, and an export
from a root ends, if not with all rows then at a path with an element that has no name.  No path that
the export comes to has a name twice, so none is longer than there are different names of elements. -/
theorem traversals_end {s : SchemaSet} (h : s.Loaded) :
    (∀ groups, ∃ edges, Graph.ofSchemaSet s groups = .ok edges) ∧
      ∀ root, Paths.IsGlobal s root → ∀ skip columns,
        let (trail, walk) := Paths.trailFromRoot s { skip, columns } root.node
        walk = Paths.fromRoot s { skip, columns } root.node ∧
          (walk.2 = .ok () ∨ walk.2 = .error .nameless) ∧
          ∀ path ∈ trail, path.Nodup ∧ path.length ≤ (Paths.elementNames s).dedup.length := by
  have hw := h.isLinked.walkable
  refine ⟨fun groups => Graph.ofSchemaSet_succeeds hw groups, fun root hr skip columns => ?_⟩
  have hkept {trail : List Paths.Path} (htrail : ∀ p ∈ trail, Paths.Kept s p) :
      ∀ p ∈ trail, p.Nodup ∧ p.length ≤ (Paths.elementNames s).dedup.length :=
    fun p hp => ⟨(htrail p hp).nodup, (htrail p hp).length_le⟩
  have hsame := Paths.trailFromRoot_eq s { skip, columns } root.node
  have hrun : Ensures (Paths.Trailed.visitRoot s { skip, columns } root.node) ({}, []) _ _ :=
    Paths.stays_visitRoot hw hr {} [] rfl nofun
  unfold Ensures at hrun
  unfold Paths.trailFromRoot at hsame ⊢
  split at hrun
  · rename_i st heq
    rw [heq] at hsame ⊢
    exact ⟨hsame, .inl rfl, hkept hrun.2⟩
  · rename_i e st heq
    rw [heq] at hsame ⊢
    obtain ⟨rfl, -, htrail⟩ := hrun
    exact ⟨hsame, .inr rfl, hkept htrail⟩

/-- The element `a` is met again inside itself, and passed over. -/
theorem nested_traversals_end : nested.Loaded ∧
    (∀ groups, ∃ edges, Graph.ofSchemaSet nested groups = .ok edges) ∧
      let trail := (Paths.trailFromRoot nested {} (.element 0)).1
      [some "b", some "a"] ∈ trail ∧
        ∀ path ∈ trail, path.Nodup ∧ path.length ≤ (Paths.elementNames nested).dedup.length := by
  obtain ⟨hgraph, hexport⟩ := traversals_end nested_loaded
  obtain ⟨-, -, htrail⟩ := hexport (.element 0) ⟨_, nested_facts.2.2⟩ [] []
  have hmet : [some "b", some "a"] ∈ (Paths.trailFromRoot nested {} (.element 0)).1 := by
    rw [nested_eq, SchemaSet.ofText_eq]
    decide +kernel
  exact ⟨nested_loaded, hgraph, hmet, htrail⟩

end SchemaPaths
