/-
Edges that are mentioned more than once.

A later mention of an edge adds nothing.  It brings no node, and when the search gets to it the edge's
target is settled: the search came to it at the first mention at the latest and passes over it now.
-/
import SchemaPaths.Proofs.Graph.Recursion

namespace SchemaPaths
namespace Graph

open List

variable {α β : Type} [DecidableEq α] [DecidableEq β]

/-! ## First mentions -/

/-- The first mention of everything that was not seen before. -/
def unseen (seen : List β) : List β → List β
  | [] => []
  | b :: l => if b ∈ seen then unseen seen l else b :: unseen (b :: seen) l

theorem unseen_eq (seen l : List β) : unseen seen l = (l.removeAll seen).eraseDups := by
  induction l generalizing seen with
  | nil => rfl
  | cons b l ih =>
    rw [unseen]
    by_cases hb : b ∈ seen
    · rw [if_pos hb, ih, cons_removeAll, if_neg (by simpa using hb)]
    · rw [if_neg hb, ih, removeAll_cons, cons_removeAll, if_pos (by simpa using hb), eraseDups_cons]
      unfold removeAll
      rw [filter_comm]

theorem eraseDups_eq (l : List β) : l.eraseDups = unseen [] l := by
  rw [unseen_eq, removeAll_nil]

/-- A later mention has been added before. -/
theorem foldl_addNew_unseen (f : β → α) (l : List β) : ∀ (seen : List β) (known : List α),
    (∀ b ∈ seen, f b ∈ known) →
      ((unseen seen l).map f).foldl addNew known = (l.map f).foldl addNew known := by
  induction l with
  | nil => exact fun _ _ _ => rfl
  | cons b l ih =>
    intro seen known hknown
    rw [unseen]
    by_cases hb : b ∈ seen
    · have hold : addNew known (f b) = known := if_pos (contains_iff_mem.2 (hknown b hb))
      rw [if_pos hb, ih seen known hknown, map_cons, foldl_cons, hold]
    · rw [if_neg hb, map_cons, foldl_cons, map_cons, foldl_cons]
      apply ih
      intro c hc
      rw [mem_addNew]
      rcases mem_cons.1 hc with rfl | hc
      · exact .inr rfl
      · exact .inl (hknown c hc)

theorem nodes_eraseDups (es : List (Edge α)) : nodes es.eraseDups = nodes es := by
  unfold nodes
  rw [eraseDups_eq, foldl_append, foldl_append, foldl_addNew_unseen _ _ _ _ nofun,
    foldl_addNew_unseen _ _ _ _ nofun]

theorem roots_eraseDups (es : List (Edge α)) : roots es.eraseDups = roots es := by
  unfold roots
  rw [nodes_eraseDups]
  apply filter_congr
  intro a _
  simp

theorem targets_cons_of_eq {e : Edge α} {a : α} (h : e.source = a) (es : List (Edge α)) :
    targets (e :: es) a = e.target :: targets es a := by
  simp [targets, h]

theorem targets_cons_of_ne {e : Edge α} {a : α} (h : e.source ≠ a) (es : List (Edge α)) :
    targets (e :: es) a = targets es a := by
  simp [targets, h]

theorem targets_unseen (a : α) (es : List (Edge α)) : ∀ seen : List (Edge α),
    targets (unseen seen es) a = unseen (targets seen a) (targets es a) := by
  induction es with
  | nil => exact fun _ => rfl
  | cons e es ih =>
    intro seen
    rw [unseen]
    by_cases ha : e.source = a
    · have hmem : e.target ∈ targets seen a ↔ e ∈ seen := by
        rw [mem_targets, Leads, ← ha]
      rw [targets_cons_of_eq ha, unseen]
      by_cases he : e ∈ seen
      · rw [if_pos he, if_pos (hmem.2 he), ih]
      · rw [if_neg he, if_neg (mt hmem.1 he), targets_cons_of_eq ha, ih, targets_cons_of_eq ha]
    · rw [targets_cons_of_ne ha]
      by_cases he : e ∈ seen
      · rw [if_pos he, ih]
      · rw [if_neg he, targets_cons_of_ne ha, ih, targets_cons_of_ne ha]

theorem targets_eraseDups (es : List (Edge α)) (a : α) :
    targets es.eraseDups a = (targets es a).eraseDups := by
  rw [eraseDups_eq, eraseDups_eq, targets_unseen]
  rfl

theorem dependencies_eraseDups (es : List (Edge α)) :
    dependencies es.eraseDups = (dependencies es).map fun (a, ts) => (a, ts.eraseDups) := by
  unfold dependencies
  rw [nodes_eraseDups, map_map]
  simp [targets_eraseDups]

/-! ## The search -/

namespace Recursive

open Marks

variable {strict : Bool} {es : List (Edge α)} {m : Marks α} {d : α}

theorem mem_visited_of_visit {m' : m.Later} (h : visit strict es m d = .ok m') :
    d ∈ m'.val.visited := by
  rw [visit] at h
  by_cases hd : d ∈ m.visited
  · exact m'.property.1 hd
  · rw [dif_neg hd] at h
    cases hr : visitAll strict es (m.enter d) (targets es d) with
    | error b =>
      rw [hr] at h
      cases h
    | ok m'' =>
      rw [hr] at h
      cases h
      exact m''.property.1 mem_cons_self

/-- A visit passes over the node. -/
def Settled (strict : Bool) (m : Marks α) (d : α) : Prop :=
  d ∈ m.visited ∧ ¬ (strict = true ∧ d ∈ m.active)

omit [DecidableEq α] in
theorem Settled.later (h : Settled strict m d) (m' : m.Later) : Settled strict m'.val d :=
  ⟨m'.property.1 h.1, by rw [m'.property.2]; exact h.2⟩

theorem Settled.visitAll_eq (h : Settled strict m d) (ds : List α) :
    visitAll strict es m (d :: ds) = visitAll strict es m ds := by
  rw [visitAll, if_neg h.2, visit, dif_pos h.1]
  show (visitAll strict es m ds >>= fun m' => return (Later.refl m).trans m') = _
  exact bind_pure _

theorem visits_eraseDups (strict : Bool) (es : List (Edge α)) :
    (∀ (m : Marks α) (a : α), visit strict es.eraseDups m a = visit strict es m a) ∧
      ∀ (m : Marks α) (l seen : List α), (∀ d ∈ seen, Settled strict m d) →
        visitAll strict es.eraseDups m (unseen seen l) = visitAll strict es m l := by
  -- Both searches are in one state throughout.  Of the nodes still to be visited the one has those
  -- that are not in `seen`.
  apply visit.mutual_induct strict es
  case case1 =>
    intro m a ha
    rw [visit, visit, dif_pos ha, dif_pos ha]
  case case2 =>
    intro m a ha ih
    rw [visit, visit, dif_neg ha, dif_neg ha, targets_eraseDups, eraseDups_eq (targets es a),
      ih [] fun _ hd => absurd hd not_mem_nil]
  case case3 =>
    intro m seen _
    rw [unseen, visitAll, visitAll]
  case case4 =>
    intro m d ds hd seen hseen
    have hnew : d ∉ seen := fun hmem => (hseen d hmem).2 hd
    rw [unseen, if_neg hnew, visitAll, visitAll, if_pos hd, if_pos hd]
  case case5 =>
    intro m d ds hopen ih ihs seen hseen
    rw [unseen]
    by_cases hd : d ∈ seen
    · rw [if_pos hd, (hseen d hd).visitAll_eq]
      exact ihs (.refl m) seen hseen
    · rw [if_neg hd, visitAll, visitAll, if_neg hopen, if_neg hopen, ih]
      cases hr : visit strict es m d with
      | error b => rfl
      | ok m' =>
        have hseen' : ∀ b ∈ d :: seen, Settled strict m'.val b := by
          intro b hb
          rcases mem_cons.1 hb with rfl | hb
          · exact ⟨mem_visited_of_visit hr, by rw [m'.property.2]; exact hopen⟩
          · exact (hseen b hb).later m'
        show (visitAll strict es.eraseDups m'.val (unseen (d :: seen) ds) >>= _) = _
        rw [ihs m' (d :: seen) hseen']
        rfl

theorem search_eraseDups (strict : Bool) (es : List (Edge α)) :
    search strict es.eraseDups = search strict es := by
  unfold search
  rw [nodes_eraseDups]
  simp only [(visits_eraseDups strict es).1]

end Recursive

/-- Without later mentions of an edge there are the same nodes and roots, and the search finds the same
order or fails at the same node.  A list of dependencies loses its own later mentions. -/
theorem repeated_edges_alike (es : List (Edge α)) :
    nodes es.eraseDups = nodes es ∧ roots es.eraseDups = roots es ∧
      (∀ strict, sort strict es.eraseDups = sort strict es) ∧
      dependencies es.eraseDups = (dependencies es).map fun (a, ts) => (a, ts.eraseDups) := by
  refine ⟨nodes_eraseDups es, roots_eraseDups es, fun strict => ?_, dependencies_eraseDups es⟩
  have h := (Search.agree_search strict es.eraseDups).order_eq
  rw [Recursive.search_eraseDups] at h
  exact h.trans (Search.agree_search strict es).order_eq.symm

end Graph
end SchemaPaths
