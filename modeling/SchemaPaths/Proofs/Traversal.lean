/-
A set that loads can be traversed.

Neither the graph of what depends on what nor an export stops early on a set that was loaded: all
that they look up is there, and they have a rule for everything they meet.
-/
import SchemaPaths.Proofs.Export.Visiting
import SchemaPaths.Proofs.Graph.Collecting

namespace SchemaPaths

open Schema Export

variable {s : SchemaSet} {name : String} {root : Root} {notices : List Notice}

/-! ## Roots that are found by name -/

theorem Export.Root.isGlobal_of_qualified? {space rest : String}
    (h : Root.qualified? s space rest = some root) : Paths.IsGlobal s root := by
  unfold Root.qualified? at h
  dsimp only at h
  split at h
  · rename_i t ht
    cases h
    exact ⟨_, ht⟩
  · obtain ⟨e, he, rfl⟩ := Option.map_eq_some_iff.1 h
    exact ⟨_, he⟩

theorem Export.Root.isGlobal_of_unqualified? {space : String} {e : ElementId}
    (h : Root.unqualified? s name = some (space, e)) : Paths.IsGlobal s (.element e) := by
  obtain ⟨space', -, hfound⟩ := List.exists_of_findSome?_eq_some h
  obtain ⟨e', he', heq⟩ := Option.map_eq_some_iff.1 hfound
  cases heq
  exact ⟨_, he'⟩

theorem Export.Root.isGlobal_of_find (h : Root.find s name = .ok (root, notices)) :
    Paths.IsGlobal s root := by
  unfold Root.find at h
  split at h
  · split at h
    · rename_i hfound
      cases h
      exact isGlobal_of_qualified? hfound
    · cases h
  · split at h
    · rename_i hfound
      cases h
      exact isGlobal_of_unqualified? hfound
    · cases h

/-! ## Both traversals -/

/-- Where every element declaration in it has a name, a loaded set can be walked to the end for its
dependencies, with groups or without, and for the paths below each root that can be found in it,
whatever is skipped and whichever columns are asked for. -/
theorem traversals_succeed (h : s.Loaded) (hn : s.Named) :
    (∀ groups, ∃ edges, Graph.ofSchemaSet s groups = .ok edges) ∧
      ∀ name root notices, Root.find s name = .ok (root, notices) → ∀ skip columns,
        (Paths.fromRoot s { skip, columns } root.node).2 = .ok () := by
  have hw := h.isLinked.walkable
  refine ⟨fun groups => Graph.ofSchemaSet_succeeds hw groups, ?_⟩
  intro name root notices hfind skip columns
  exact (Paths.fromRoot_rows hw hn (Root.isGlobal_of_find hfind)).1

theorem nested_traversals : nested.Loaded ∧ nested.Named ∧
    (∀ groups, ∃ edges, Graph.ofSchemaSet nested groups = .ok edges) ∧
      ∀ name root notices, Root.find nested name = .ok (root, notices) → ∀ skip columns,
        (Paths.fromRoot nested { skip, columns } root.node).2 = .ok () :=
  ⟨nested_loaded, nested_facts.2.1, traversals_succeed nested_loaded nested_facts.2.1⟩

end SchemaPaths
