/-
The search, written as a recursion.

Coming to a node marks it as visited and as active; its dependencies are visited one after the other,
and then it is active no longer and stands in the order.  The search with a stack does the same: its
stack holds the nodes that are active, each with the visits that are still to be made for it, and its
steps are enough to come to the end of them.
-/
import SchemaPaths.Proofs.Graph.Ordering

namespace SchemaPaths
namespace Graph

open List

variable {α : Type} [DecidableEq α]

/-! ## The recursion -/

namespace Recursive

/-- The nodes that were come to, those of them whose dependencies are being visited, the last one
first, and those that are done, in order. -/
structure Marks (α : Type) where
  visited : List α := []
  active : List α := []
  order : List α := []

namespace Marks

def enter (m : Marks α) (a : α) : Marks α :=
  { m with visited := a :: m.visited, active := a :: m.active }

def leave (m : Marks α) (a : α) : Marks α :=
  { m with active := m.active.erase a, order := m.order ++ [a] }

/-- The marks after visits: none that says visited is lost, and the same nodes are active. -/
abbrev Later (m : Marks α) : Type :=
  { m' : Marks α // m.visited ⊆ m'.visited ∧ m'.active = m.active }

def Later.refl (m : Marks α) : m.Later := ⟨m, Subset.refl _, rfl⟩

def Later.trans {m : Marks α} (m' : m.Later) (m'' : m'.val.Later) : m.Later :=
  ⟨m''.val, List.Subset.trans m'.property.1 m''.property.1, m''.property.2.trans m'.property.2⟩

theorem active_leave {m m' : Marks α} {a : α} (h : m'.active = (m.enter a).active) :
    (m'.leave a).active = m.active := by
  rw [leave, h, enter, erase_cons_head]

def Later.leave {m : Marks α} {a : α} (m' : (m.enter a).Later) : m.Later :=
  ⟨m'.val.leave a, List.Subset.trans (subset_cons_self a _) m'.property.1,
    active_leave m'.property.2⟩

/-- The nodes of the edges that were not come to. -/
def unvisited (es : List (Edge α)) (m : Marks α) : List α :=
  (nodes es).filter fun a => !m.visited.contains a

variable {es : List (Edge α)} {m m' : Marks α} {a : α}

theorem mem_unvisited : a ∈ m.unvisited es ↔ a ∈ nodes es ∧ a ∉ m.visited := by
  simp [unvisited]

theorem nodup_unvisited : (m.unvisited es).Nodup := (nodup_nodes es).filter _

theorem unvisited_le (h : m.visited ⊆ m'.visited) :
    (m'.unvisited es).length ≤ (m.unvisited es).length := by
  apply Subperm.length_le
  apply subperm_of_subset nodup_unvisited
  intro a ha
  rw [mem_unvisited] at ha ⊢
  exact ⟨ha.1, fun hmem => ha.2 (h hmem)⟩

theorem unvisited_lt (ha : a ∉ m.visited) (hnode : a ∈ nodes es) :
    ((m.enter a).unvisited es).length < (m.unvisited es).length := by
  have hnew : a ∉ (m.enter a).unvisited es := fun hmem =>
    (mem_unvisited.1 hmem).2 mem_cons_self
  have hsub : a :: (m.enter a).unvisited es ⊆ m.unvisited es := by
    intro b hb
    rcases mem_cons.1 hb with rfl | hb
    · exact mem_unvisited.2 ⟨hnode, ha⟩
    · rw [mem_unvisited] at hb ⊢
      exact ⟨hb.1, fun hmem => hb.2 (mem_cons_of_mem _ hmem)⟩
  exact (subperm_of_subset (nodup_cons.2 ⟨hnew, nodup_unvisited⟩) hsub).length_le

end Marks

open Marks

theorem targets_eq_nil {es : List (Edge α)} {a : α} (ha : a ∉ nodes es) : targets es a = [] :=
  eq_nil_iff_forall_not_mem.2 fun _ hb => ha (mem_targets.1 hb).source_mem

mutual

/-- Visits a node: marks it, visits what it depends on, and puts it in the order. -/
def visit (strict : Bool) (es : List (Edge α)) (m : Marks α) (a : α) : Except α m.Later :=
  if _ : a ∈ m.visited then return .refl m
  else do
    let m' ← visitAll strict es (m.enter a) (targets es a)
    return m'.leave
termination_by ((m.unvisited es).length, 1)
decreasing_by
  by_cases hnode : a ∈ nodes es
  · exact Prod.Lex.left _ _ (unvisited_lt ‹_› hnode)
  · rw [targets_eq_nil hnode]
    exact Prod.Lex.right' _ (unvisited_le (subset_cons_self _ _)) Nat.zero_lt_one

/-- Visits nodes in turn.  An active one closes a cycle, on which a strict visit fails. -/
def visitAll (strict : Bool) (es : List (Edge α)) (m : Marks α) : List α → Except α m.Later
  | [] => return .refl m
  | d :: ds =>
    if strict = true ∧ d ∈ m.active then throw d
    else do
      let m' ← visit strict es m d
      let m'' ← visitAll strict es m'.val ds
      return m'.trans m''
termination_by ds => ((m.unvisited es).length, 2 * ds.length)
decreasing_by
  · apply Prod.Lex.right
    rw [length_cons]
    omega
  · apply Prod.Lex.right' _ (unvisited_le m'.property.1)
    rw [length_cons]
    omega

end

/-- Visits every node of the edges. -/
def search (strict : Bool) (es : List (Edge α)) : Except α (Marks α) :=
  (nodes es).foldlM (fun m a => (visit strict es m a).map Subtype.val) {}

def sort (strict : Bool) (es : List (Edge α)) : Except α (List α) :=
  (search strict es).map (·.order)

end Recursive

/-! ## The search that goes the same way -/

namespace Search

open Recursive (Marks)
open Recursive.Marks (Later)

variable {strict : Bool} {es : List (Edge α)} {s s' s'' : Search α}
  {stack stack' stack'' : List (Frame α)} {a d : α} {ds : List α}

/-- With as many steps as are left to do, a search gets from one point to the other, and has as many
as are left to do there. -/
def Continues (strict : Bool) (es : List (Edge α)) (s : Search α) (stack : List (Frame α))
    (s' : Search α) (stack' : List (Frame α)) : Prop :=
  ∀ fuel, work es s.visited stack ≤ fuel → ∃ fuel', work es s'.visited stack' ≤ fuel' ∧
    run strict es fuel s stack = run strict es fuel' s' stack'

theorem Continues.refl : Continues strict es s stack s stack := fun fuel h => ⟨fuel, h, rfl⟩

theorem Continues.trans (h : Continues strict es s stack s' stack')
    (h' : Continues strict es s' stack' s'' stack'') : Continues strict es s stack s'' stack'' := by
  intro fuel hfuel
  obtain ⟨fuel', hfuel', hrun⟩ := h fuel hfuel
  obtain ⟨fuel'', hfuel'', hrun'⟩ := h' fuel' hfuel'
  exact ⟨fuel'', hfuel'', hrun.trans hrun'⟩

theorem continues_step (hwork : work es s.visited stack = work es s'.visited stack' + 1)
    (hrun : ∀ fuel, run strict es (fuel + 1) s stack = run strict es fuel s' stack') :
    Continues strict es s stack s' stack' := by
  intro fuel hfuel
  cases fuel with
  | zero => omega
  | succ fuel => exact ⟨fuel, by omega, hrun fuel⟩

theorem continues_leave :
    Continues strict es s (⟨a, []⟩ :: stack) { s with finished := s.finished ++ [a] } stack :=
  continues_step work_leave fun _ => rfl

theorem continues_enter (hd : d ∉ s.visited) (hnode : d ∈ nodes es) :
    Continues strict es s (⟨a, d :: ds⟩ :: stack) (push es d s (⟨a, ds⟩ :: stack)).1
      (push es d s (⟨a, ds⟩ :: stack)).2 := by
  apply continues_step
  · rw [work_pass]
    exact congrArg (· + 1) (work_enter hd hnode).symm
  · intro fuel
    rw [run, if_neg fun hmem => hd (contains_iff_mem.1 hmem)]

/-- At a node that was come to already the search goes on, unless it is strict and the node on the
way. -/
theorem continues_pass (es : List (Edge α)) (ds : List α) (hd : d ∈ s.visited)
    (hopen : ¬ (strict = true ∧ d ∈ a :: stack.map (·.node))) :
    ∃ broken, Continues strict es s (⟨a, d :: ds⟩ :: stack) { s with broken := broken }
      (⟨a, ds⟩ :: stack) := by
  by_cases hway : d ∈ a :: stack.map (·.node)
  · have hlenient : ¬ strict = true := fun hstrict => hopen ⟨hstrict, hway⟩
    refine ⟨s.broken ++ [(d, a)], continues_step work_pass fun fuel => ?_⟩
    rw [run, if_pos (contains_iff_mem.2 hd), if_pos (onWay_iff.2 hway), if_neg hlenient]
  · refine ⟨s.broken, continues_step work_pass fun fuel => ?_⟩
    rw [run, if_pos (contains_iff_mem.2 hd), if_neg fun hmem => hway (onWay_iff.1 hmem)]

/-- A search that has made the marks of a recursion, with the active nodes on its way. -/
structure Marked (m : Marks α) (s : Search α) (way : List α) : Prop where
  visited : m.visited = s.visited
  active : m.active = way
  order : m.order = s.finished
  known : way ⊆ s.visited

omit [DecidableEq α] in
theorem Marked.enter {m : Marks α} {way : List α} (h : Marked m s way) :
    Marked (m.enter a) { s with visited := a :: s.visited } (a :: way) where
  visited := congrArg (a :: ·) h.visited
  active := congrArg (a :: ·) h.active
  order := h.order
  known := cons_subset_cons a h.known

theorem Marked.leave {m : Marks α} {way : List α} (h : Marked m s (a :: way)) :
    Marked (m.leave a) { s with finished := s.finished ++ [a] } way where
  visited := h.visited
  active := by rw [Marks.leave, h.active, erase_cons_head]
  order := congrArg (· ++ [a]) h.order
  known := fun _ hb => h.known (mem_cons_of_mem a hb)

/-- From `stack` on the search fails where the recursion fails, and gets to `stack'` with the same
marks where it does not. -/
def Follows (strict : Bool) (es : List (Edge α)) (s : Search α) (stack stack' : List (Frame α))
    {m : Marks α} : Except α m.Later → Prop
  | .error d => ∀ fuel, work es s.visited stack ≤ fuel → run strict es fuel s stack = .error d
  | .ok m' => ∃ s', Marked m'.val s' (stack'.map (·.node)) ∧ Continues strict es s stack s' stack'

theorem Follows.after {m : Marks α} {r : Except α m.Later}
    (h : Follows strict es s' stack' stack'' r) (hc : Continues strict es s stack s' stack') :
    Follows strict es s stack stack'' r := by
  cases r with
  | error d =>
    intro fuel hfuel
    obtain ⟨fuel', hfuel', hrun⟩ := hc fuel hfuel
    rw [hrun]
    exact h fuel' hfuel'
  | ok m' =>
    obtain ⟨s'', hm, hc'⟩ := h
    exact ⟨s'', hm, hc.trans hc'⟩

/-- What the recursion makes of a node the search makes of an edge to it, and what it makes of several
nodes the search makes of the edges that a frame still has. -/
theorem follows_visits (strict : Bool) (es : List (Edge α)) :
    (∀ (m : Marks α) (d : α) (s : Search α) (a : α) (ds : List α) (stack : List (Frame α)),
      d ∈ nodes es → ¬ (strict = true ∧ d ∈ m.active) → Marked m s (a :: stack.map (·.node)) →
        Follows strict es s (⟨a, d :: ds⟩ :: stack) (⟨a, ds⟩ :: stack)
          (Recursive.visit strict es m d)) ∧
      ∀ (m : Marks α) (ds : List α) (s : Search α) (a : α) (stack : List (Frame α)),
        ds ⊆ nodes es → Marked m s (a :: stack.map (·.node)) →
          Follows strict es s (⟨a, ds⟩ :: stack) (⟨a, []⟩ :: stack)
            (Recursive.visitAll strict es m ds) := by
  -- The induction is on the calls of the recursion; the stack below the frame stays as it is.
  apply Recursive.visit.mutual_induct strict es
  case case1 =>
    intro m d hd s a ds stack _ hopen hm
    rw [Recursive.visit, dif_pos hd]
    rw [hm.active] at hopen
    rw [hm.visited] at hd
    obtain ⟨broken, hc⟩ := continues_pass es ds hd hopen
    exact ⟨{ s with broken := broken }, ⟨hm.visited, hm.active, hm.order, hm.known⟩, hc⟩
  case case2 =>
    intro m d hd ih s a ds stack hnode _ hm
    have htargets : targets es d ⊆ nodes es := fun b hb => (mem_targets.1 hb).target_mem
    have hbelow := ih _ d (⟨a, ds⟩ :: stack) htargets hm.enter
    rw [Recursive.visit, dif_neg hd]
    rw [hm.visited] at hd
    cases hr : Recursive.visitAll strict es (m.enter d) (targets es d) with
    | error b =>
      rw [hr] at hbelow
      exact hbelow.after (continues_enter hd hnode)
    | ok m' =>
      rw [hr] at hbelow
      obtain ⟨s', hm', hc⟩ := hbelow
      exact ⟨_, hm'.leave, (continues_enter hd hnode).trans (hc.trans continues_leave)⟩
  case case3 =>
    intro m s a stack _ hm
    rw [Recursive.visitAll]
    exact ⟨s, hm, .refl⟩
  case case4 =>
    intro m d ds hd s a stack hnodes hm
    rw [Recursive.visitAll, if_pos hd]
    rw [hm.active] at hd
    intro fuel hfuel
    cases fuel with
    | zero =>
      rw [work_pass] at hfuel
      omega
    | succ fuel =>
      rw [run, if_pos (contains_iff_mem.2 (hm.known hd.2)), if_pos (onWay_iff.2 hd.2), if_pos hd.1]
  case case5 =>
    intro m d ds hopen ih ihs s a stack hnodes hm
    obtain ⟨hnode, hnodes⟩ := cons_subset.1 hnodes
    have hfirst := ih s a ds stack hnode hopen hm
    rw [Recursive.visitAll, if_neg hopen]
    cases hr : Recursive.visit strict es m d with
    | error b =>
      rw [hr] at hfirst
      exact hfirst
    | ok m' =>
      rw [hr] at hfirst
      obtain ⟨s', hm', hc⟩ := hfirst
      have hrest := (ihs m' s' a stack hnodes hm').after hc
      show Follows strict es s _ _ (Recursive.visitAll strict es m'.val ds >>= _)
      cases hr' : Recursive.visitAll strict es m'.val ds with
      | error b =>
        rw [hr'] at hrest
        exact hrest
      | ok m'' =>
        rw [hr'] at hrest
        exact hrest

/-- Both fail at one node or end with one order, and then with the same marks. -/
def Agree : Except α (Marks α) → Except α (Search α) → Prop
  | .error d, .error d' => d = d'
  | .ok m, .ok s => Marked m s []
  | _, _ => False

omit [DecidableEq α] in
theorem Agree.order_eq {r : Except α (Marks α)} {r' : Except α (Search α)} (h : Agree r r') :
    r'.map (·.finished) = r.map (·.order) := by
  match r, r', h with
  | .error d, .error _, h => exact congrArg Except.error h.symm
  | .ok m, .ok s, h => exact congrArg Except.ok h.order.symm

/-- From a node at the bottom of the stack there are steps enough to leave it again. -/
theorem agree_visit (strict : Bool) {m : Marks α} (hm : Marked m s []) (ha : a ∈ nodes es) :
    Agree ((Recursive.visit strict es m a).map Subtype.val) (visit strict es s a) := by
  rw [Recursive.visit, visit]
  by_cases hmet : a ∈ m.visited
  · rw [dif_pos hmet, if_pos (contains_iff_mem.2 (hm.visited ▸ hmet))]
    exact hm
  · have hnew : a ∉ s.visited := hm.visited ▸ hmet
    rw [dif_neg hmet, if_neg fun hmem => hnew (contains_iff_mem.1 hmem)]
    have htargets : targets es a ⊆ nodes es := fun b hb => (mem_targets.1 hb).target_mem
    have hbelow := (follows_visits strict es).2 (m.enter a) (targets es a) _ a [] htargets hm.enter
    have henough : work es (a :: s.visited) [⟨a, targets es a⟩] ≤ stepBound es :=
      Nat.le_trans (Nat.le_of_eq (work_enter hnew ha)) (work_le es s.visited)
    cases hr : Recursive.visitAll strict es (m.enter a) (targets es a) with
    | error d =>
      rw [hr] at hbelow
      show Agree _ (run strict es (stepBound es) _ _)
      rw [hbelow _ henough]
      rfl
    | ok m' =>
      rw [hr] at hbelow
      obtain ⟨s', hm', hc⟩ := hbelow
      obtain ⟨fuel, -, hrun⟩ := hc.trans continues_leave _ henough
      show Agree _ (run strict es (stepBound es) _ _)
      rw [hrun, run]
      exact hm'.leave

theorem agree_visits (strict : Bool) (l : List α) : ∀ (m : Marks α) (s : Search α),
    l ⊆ nodes es → Marked m s [] →
      Agree (l.foldlM (fun m a => (Recursive.visit strict es m a).map Subtype.val) m)
        (l.foldlM (visit strict es) s) := by
  induction l with
  | nil => exact fun _ _ _ hm => hm
  | cons a l ih =>
    intro m s hl hm
    obtain ⟨ha, hl⟩ := cons_subset.1 hl
    have hone := agree_visit strict hm ha
    rw [foldlM_cons, foldlM_cons]
    match (Recursive.visit strict es m a).map Subtype.val, visit strict es s a, hone with
    | .error d, .error d', hone => exact hone
    | .ok m', .ok s', hone => exact ih m' s' hl hone

theorem agree_search (strict : Bool) (es : List (Edge α)) :
    Agree (Recursive.search strict es) (search strict es) :=
  agree_visits strict (nodes es) {} {} (Subset.refl _) ⟨rfl, rfl, rfl, nil_subset _⟩

end Search

/-- The search finds the order that the recursion finds, and a strict one fails at the node at which
that fails. -/
theorem sort_eq_recursive (strict : Bool) (es : List (Edge α)) :
    sort strict es = Recursive.sort strict es :=
  (Search.agree_search strict es).order_eq

end Graph
end SchemaPaths
