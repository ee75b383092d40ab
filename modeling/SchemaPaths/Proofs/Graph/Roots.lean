/-
The nodes that nothing depends on.

Without cycles an order of the nodes has every node before those that it depends on.  Going from a node
back to one that depends on it goes back in that order, so it comes to an end, and it ends at a root.
The first node of the order has nothing before it and is a root itself.
-/
import SchemaPaths.Proofs.Graph.Ordering

namespace SchemaPaths
namespace Graph

open List Relation

variable {α : Type} [DecidableEq α] {es : List (Edge α)} {order : List α} {a b : α}

theorem mem_roots : a ∈ roots es ↔ a ∈ nodes es ∧ ∀ b, ¬ Leads es b a := by
  have htarget : (es.map (·.target)).contains a = true ↔ ∃ b, Leads es b a := by
    rw [contains_iff_mem, mem_map]
    constructor
    · intro ⟨e, he, ha⟩
      subst ha
      exact ⟨e.source, he⟩
    · intro ⟨b, hb⟩
      exact ⟨⟨b, a⟩, hb, rfl⟩
  rw [roots, mem_filter, Bool.not_eq_true', ← Bool.not_eq_true, htarget, not_exists]

/-- Without cycles there is an order in which dependencies come first, strict or not. -/
theorem sort_of_acyclic (h : Acyclic es) (strict : Bool) :
    ∃ order, sort strict es = .ok order ∧ Orders es (fun _ _ => False) order := by
  rcases sort_cases strict es with ⟨d, -, -, hcycle⟩ | ⟨order, hok, horders⟩
  · exact absurd hcycle (h d)
  · refine ⟨order, hok, horders.mono ?_⟩
    intro a b hab hback
    exact h a (TransGen.head' hab hback.2)

namespace Orders

/-- In the order with dependencies last a node stands behind those that depend on it. -/
theorem idxOf_reverse_lt (h : Orders es (fun _ _ => False) order) (hab : Leads es a b) :
    order.reverse.idxOf a < order.reverse.idxOf b :=
  ((h.precedes a b hab).resolve_right id).reverse.idxOf_lt (nodup_reverse.2 h.nodup)

theorem exists_root (h : Orders es (fun _ _ => False) order) (hb : b ∈ nodes es) :
    ∃ a ∈ roots es, ReflTransGen (Leads es) a b := by
  -- Over the places that `b` can have in the order.
  induction hn : order.reverse.idxOf b using Nat.strongRecOn generalizing b with
  | _ n ih =>
    by_cases hroot : b ∈ roots es
    · exact ⟨b, hroot, .refl⟩
    · have hused : ∃ c, Leads es c b := by
        rw [mem_roots] at hroot
        by_contra hnone
        exact hroot ⟨hb, not_exists.1 hnone⟩
      obtain ⟨c, hcb⟩ := hused
      have hlt := h.idxOf_reverse_lt hcb
      obtain ⟨a, ha, hac⟩ := ih _ (hn ▸ hlt) hcb.source_mem rfl
      exact ⟨a, ha, hac.tail hcb⟩

theorem head_mem_roots (h : Orders es (fun _ _ => False) order)
    (ha : order.reverse.head? = some a) : a ∈ roots es := by
  obtain ⟨rest, hrest⟩ := head?_eq_some_iff.1 ha
  have hmem : a ∈ order := by
    rw [← mem_reverse, hrest]
    exact mem_cons_self
  rw [mem_roots]
  refine ⟨(h.mem a).1 hmem, ?_⟩
  intro b hba
  have hlt := h.idxOf_reverse_lt hba
  rw [hrest, idxOf_cons_self] at hlt
  omega

end Orders

/-- Without cycles every node can be reached from a root, there is a root if there is an edge, no edge
leads to a root, and the order with dependencies last begins at one. -/
theorem roots_cover (h : Acyclic es) :
    (∀ b ∈ nodes es, ∃ a ∈ roots es, ReflTransGen (Leads es) a b) ∧
      (es ≠ [] → roots es ≠ []) ∧
      (∀ a ∈ roots es, ∀ b, ¬ Leads es b a) ∧
      ∀ strict, ∃ order, sortedDependencies strict es = .ok order ∧
        ∀ a, order.head? = some a → a ∈ roots es := by
  obtain ⟨order, -, horder⟩ := sort_of_acyclic h true
  refine ⟨fun b => horder.exists_root, ?_, fun a ha => (mem_roots.1 ha).2, ?_⟩
  · intro hedge
    obtain ⟨e, he⟩ := exists_mem_of_ne_nil es hedge
    have hlead : Leads es e.source e.target := he
    obtain ⟨a, ha, -⟩ := horder.exists_root hlead.source_mem
    exact ne_nil_of_mem ha
  · intro strict
    obtain ⟨order, hok, horder⟩ := sort_of_acyclic h strict
    refine ⟨order.reverse, ?_, fun a => horder.head_mem_roots⟩
    rw [sortedDependencies, hok]
    rfl

/-- The last node depends on nothing, the first one on both others. -/
def triangle : List (Edge Nat) := [⟨1, 2⟩, ⟨2, 3⟩, ⟨1, 3⟩]

theorem acyclic_triangle : Acyclic triangle := by
  apply acyclic_of_rank fun a => 3 - a
  intro a b hab
  simp only [Leads, triangle, mem_cons, Edge.mk.injEq, not_mem_nil, or_false] at hab
  omega

theorem triangle_roots_cover : roots triangle = [1] ∧
    (∀ b ∈ nodes triangle, ReflTransGen (Leads triangle) 1 b) ∧
    sortedDependencies true triangle = .ok [1, 2, 3] := by
  have hroots : roots triangle = [1] := by decide
  refine ⟨hroots, ?_, by decide⟩
  intro b hb
  obtain ⟨a, ha, hab⟩ := (roots_cover acyclic_triangle).1 b hb
  rw [hroots, mem_singleton] at ha
  exact ha ▸ hab

end Graph
end SchemaPaths
