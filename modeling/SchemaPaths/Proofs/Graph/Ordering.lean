/-
The order that a search finds.

Main statements: every node is listed once, behind what it depends on unless a cycle leads from there
back to it; and a strict search fails exactly where there is a cycle, at a node on one.  Without
cycles, then, dependencies come first in either search.
-/
import SchemaPaths.Proofs.Graph.Searching

namespace SchemaPaths
namespace Graph

open List Relation

variable {α : Type} {es : List (Edge α)} {a b : α}

/-- The edges lead from the node back to itself. -/
def OnCycle (es : List (Edge α)) (a : α) : Prop := TransGen (Leads es) a a

def Acyclic (es : List (Edge α)) : Prop := ∀ a, ¬ OnCycle es a

/-- The one node stands before the other. -/
def Precedes (order : List α) (a b : α) : Prop := [a, b] <+ order

theorem Precedes.mem {order : List α} (h : Precedes order a b) : a ∈ order ∧ b ∈ order :=
  ⟨h.subset mem_cons_self, h.subset (mem_cons_of_mem _ mem_cons_self)⟩

theorem Precedes.reverse {order : List α} (h : Precedes order a b) : Precedes order.reverse b a :=
  reverse_sublist.2 h

/-! ## Ranks -/

theorem acyclic_of_rank (rank : α → Nat) (h : ∀ a b, Leads es a b → rank b < rank a) :
    Acyclic es := by
  have hfalls : ∀ a b, TransGen (Leads es) a b → rank b < rank a := by
    intro a b hab
    induction hab with
    | single hab => exact h _ _ hab
    | tail _ hbc ih => exact Nat.lt_trans (h _ _ hbc) ih
  exact fun a ha => Nat.lt_irrefl _ (hfalls a a ha)

variable [DecidableEq α]

theorem Precedes.idxOf_lt {order : List α} (hnodup : order.Nodup) (h : Precedes order a b) :
    order.idxOf a < order.idxOf b := by
  induction order with
  | nil => cases h
  | cons c order ih =>
    obtain ⟨hnew, hnodup⟩ := nodup_cons.1 hnodup
    cases h with
    | cons _ hsub =>
      have hmem := Precedes.mem hsub
      have hca : c ≠ a := fun h => hnew (h ▸ hmem.1)
      have hcb : c ≠ b := fun h => hnew (h ▸ hmem.2)
      rw [idxOf_cons_ne _ hca, idxOf_cons_ne _ hcb]
      exact Nat.succ_lt_succ (ih hnodup hsub)
    | cons_cons _ hsub =>
      have hcb : a ≠ b := fun h => hnew (h ▸ singleton_sublist.1 hsub)
      rw [idxOf_cons_self, idxOf_cons_ne _ hcb]
      exact Nat.succ_pos _

/-! ## The order -/

/-- Every node once, each behind what it depends on except where `back` allows otherwise. -/
structure Orders (es : List (Edge α)) (back : α → α → Prop) (order : List α) : Prop where
  nodup : order.Nodup
  mem : ∀ a, a ∈ order ↔ a ∈ nodes es
  precedes : ∀ a b, Leads es a b → Precedes order b a ∨ back a b

theorem Orders.acyclic {order : List α} (h : Orders es (fun _ _ => False) order) : Acyclic es :=
  acyclic_of_rank order.idxOf fun a b hab =>
    ((h.precedes a b hab).resolve_right id).idxOf_lt h.nodup

theorem Orders.mono {back back' : α → α → Prop} {order : List α} (h : Orders es back order)
    (hback : ∀ a b, Leads es a b → back a b → back' a b) : Orders es back' order :=
  ⟨h.nodup, h.mem, fun a b hab => (h.precedes a b hab).imp_right (hback a b hab)⟩

theorem sort_cases (strict : Bool) (es : List (Edge α)) :
    (∃ d, sort strict es = .error d ∧ strict = true ∧ OnCycle es d) ∨
      ∃ order, sort strict es = .ok order ∧
        Orders es (fun a b => strict = false ∧ ReflTransGen (Leads es) b a) order := by
  unfold sort
  rcases Search.search_cases strict es with ⟨d, hd, hcycle⟩ | ⟨r, hr, hplaced, hall⟩
  · rw [hd]
    exact .inl ⟨d, rfl, hcycle⟩
  · rw [hr]
    refine .inr ⟨r.finished, rfl, ?_, fun a => ⟨fun ha => ?_, fun ha => ?_⟩, fun a b hab => ?_⟩
    · exact (append_nil r.finished) ▸ hplaced.nodup
    · exact hplaced.known a ((hplaced.met a).2 (.inl ha))
    · exact ((hplaced.met a).1 (hall ha)).resolve_right not_mem_nil
    · exact hplaced.ordered a (((hplaced.met a).1 (hall hab.source_mem)).resolve_right not_mem_nil)
        b hab

/-- A lenient search lists every node, and what a node depends on before it, unless the node can be
reached from there. Without cycles the reversed order of either search lists every node before all
that it depends on. -/
theorem sort_dependencies_first (es : List (Edge α)) :
    (∃ order, sort false es = .ok order ∧ order.Nodup ∧ (∀ a, a ∈ order ↔ a ∈ nodes es) ∧
      ∀ a b, Leads es a b → a ≠ b → Precedes order b a ∨ ReflTransGen (Leads es) b a) ∧
    (Acyclic es → ∀ strict, ∃ order, sortedDependencies strict es = .ok order ∧ order.Nodup ∧
      (∀ a, a ∈ order ↔ a ∈ nodes es) ∧ ∀ a b, Leads es a b → Precedes order a b) := by
  constructor
  · rcases sort_cases false es with ⟨d, -, hstrict, -⟩ | ⟨order, hok, h⟩
    · cases hstrict
    · exact ⟨order, hok, h.nodup, h.mem, fun a b hab _ => (h.precedes a b hab).imp_right And.right⟩
  · intro hacyclic strict
    rcases sort_cases strict es with ⟨d, -, -, hcycle⟩ | ⟨order, hok, h⟩
    · exact absurd hcycle (hacyclic d)
    · refine ⟨order.reverse, ?_, nodup_reverse.2 h.nodup, fun a => ?_, fun a b hab => ?_⟩
      · rw [sortedDependencies, hok]
        rfl
      · rw [mem_reverse, h.mem]
      · have hnot : ¬ ReflTransGen (Leads es) b a := fun hback =>
          hacyclic a (TransGen.head' hab hback)
        exact ((h.precedes a b hab).resolve_right fun hback => hnot hback.2).reverse

/-! ## Failure -/

theorem sort_lenient {order : List α} (h : sort true es = .ok order) : sort false es = .ok order := by
  unfold sort search at h ⊢
  cases hr : (nodes es).foldlM (Search.visit true es) {} with
  | error d =>
    rw [hr] at h
    cases h
  | ok r =>
    rw [hr] at h
    rw [Search.visits_lenient hr]
    exact h

/-- A strict search fails if and only if there is a cycle, and then at a node on one; otherwise it
finds the order that a lenient one finds. -/
theorem strict_sort_fails_iff_cycle (es : List (Edge α)) :
    ((∃ d, sort true es = .error d) ↔ ∃ a, OnCycle es a) ∧
      (∀ d, sort true es = .error d → OnCycle es d) ∧
      ∀ order, sort true es = .ok order → sort false es = .ok order := by
  have herror : ∀ d, sort true es = .error d → OnCycle es d := by
    intro d hd
    rcases sort_cases true es with ⟨d', hd', -, hcycle⟩ | ⟨order, hok, -⟩
    · rw [hd] at hd'
      cases hd'
      exact hcycle
    · rw [hd] at hok
      cases hok
  refine ⟨⟨fun ⟨d, hd⟩ => ⟨d, herror d hd⟩, fun ⟨a, ha⟩ => ?_⟩, herror, fun _ => sort_lenient⟩
  rcases sort_cases true es with ⟨d, hd, -⟩ | ⟨order, -, h⟩
  · exact ⟨d, hd⟩
  · have hforward : Orders es (fun _ _ => False) order :=
      h.mono fun _ _ _ hback => Bool.noConfusion hback.1
    exact absurd ha (hforward.acyclic a)

/-- Of two nodes that depend on each other the one met first is listed last. -/
example : sort false [⟨1, 2⟩, ⟨2, 1⟩, (⟨2, 3⟩ : Edge Nat)] = .ok [3, 2, 1] ∧
    sort true [⟨1, 2⟩, ⟨2, 1⟩, (⟨2, 3⟩ : Edge Nat)] = .error 1 := by
  decide

end Graph
end SchemaPaths
