/-
How the search for an order goes.

`Underway` is what holds between two steps: the nodes that the search came to are those it finished
with and those on its way, no node is both, and each node on the way leads to all that are on the way
above it.  An edge that was looked at leads to a node that is finished or will be before the edge's
source is, or, unless the search is strict, back to a node from which its source can be reached.
Every step keeps this and does one piece of the `work` that is left, so the steps that the search
allows itself are enough.
-/
import Mathlib.Algebra.GroupWithZero.Nat
import Mathlib.Data.List.Nodup
import Mathlib.Data.List.Perm.Basic
import Mathlib.Logic.Relation
import SchemaPaths.Graph.Order

namespace SchemaPaths
namespace Graph

open List Relation

variable {α : Type} [DecidableEq α]

/-- There is an edge from one node to the other. -/
def Leads (es : List (Edge α)) (a b : α) : Prop := ⟨a, b⟩ ∈ es

variable {es : List (Edge α)} {a b d : α}

/-! ## Nodes and their edges -/

theorem mem_targets : b ∈ targets es a ↔ Leads es a b := by
  rw [targets, mem_map]
  constructor
  · rintro ⟨⟨source, target⟩, he, rfl⟩
    obtain ⟨hmem, hsource⟩ := mem_filter.1 he
    rw [← eq_of_beq hsource]
    exact hmem
  · intro h
    exact ⟨⟨a, b⟩, mem_filter.2 ⟨h, beq_self_eq_true a⟩, rfl⟩

theorem mem_addNew {nodes : List α} : b ∈ addNew nodes a ↔ b ∈ nodes ∨ b = a := by
  unfold addNew
  split
  · rename_i h
    refine ⟨.inl, fun hb => hb.elim id ?_⟩
    rintro rfl
    exact contains_iff_mem.1 h
  · rw [mem_append, mem_singleton]

theorem nodup_addNew {nodes : List α} (h : nodes.Nodup) : (addNew nodes a).Nodup := by
  unfold addNew
  split
  · exact h
  · rename_i hnew
    rw [nodup_append_comm, singleton_append, nodup_cons]
    exact ⟨fun ha => hnew (contains_iff_mem.2 ha), h⟩

theorem mem_foldl_addNew {l nodes : List α} : b ∈ l.foldl addNew nodes ↔ b ∈ nodes ∨ b ∈ l := by
  induction l generalizing nodes with
  | nil => simp
  | cons a l ih => rw [foldl_cons, ih, mem_addNew, mem_cons, or_assoc]

theorem nodup_foldl_addNew {l nodes : List α} (h : nodes.Nodup) : (l.foldl addNew nodes).Nodup := by
  induction l generalizing nodes with
  | nil => exact h
  | cons a l ih => exact ih (nodup_addNew h)

theorem length_foldl_addNew (l nodes : List α) :
    (l.foldl addNew nodes).length ≤ nodes.length + l.length := by
  induction l generalizing nodes with
  | nil => exact Nat.le_refl _
  | cons a l ih =>
    have hone : (addNew nodes a).length ≤ nodes.length + 1 := by
      unfold addNew
      split
      · exact Nat.le_succ _
      · exact Nat.le_of_eq length_append
    have hrest := ih (addNew nodes a)
    rw [foldl_cons, length_cons]
    omega

theorem nodup_nodes (es : List (Edge α)) : (nodes es).Nodup := nodup_foldl_addNew nodup_nil

theorem length_nodes_le (es : List (Edge α)) : (nodes es).length ≤ 2 * es.length := by
  have h := length_foldl_addNew (es.map (·.source) ++ es.map (·.target)) []
  rw [length_append, length_map, length_map, length_nil] at h
  unfold nodes
  omega

theorem Leads.source_mem (h : Leads es a b) : a ∈ nodes es :=
  mem_foldl_addNew.2 (.inr (mem_append_left _ (mem_map_of_mem (f := Edge.source) h)))

theorem Leads.target_mem (h : Leads es a b) : b ∈ nodes es :=
  mem_foldl_addNew.2 (.inr (mem_append_right _ (mem_map_of_mem (f := Edge.target) h)))

/-- Every edge starts at one node, so different nodes have no more edges than there are. -/
theorem sum_targets_le {l : List α} (hl : l.Nodup) (es : List (Edge α)) :
    (l.map fun a => (targets es a).length).sum ≤ es.length := by
  induction l generalizing es with
  | nil => exact Nat.zero_le _
  | cons a l ih =>
    obtain ⟨hnew, hl⟩ := nodup_cons.1 hl
    have hothers : ∀ b ∈ l, targets es b = targets (es.filter fun e => !(e.source == a)) b := by
      intro b hb
      have hba : b ≠ a := fun h => hnew (h ▸ hb)
      unfold targets
      rw [filter_filter]
      congr 2
      funext e
      by_cases h : e.source = b
      · simp [h, hba]
      · simp [h]
    have hsplit := length_eq_length_filter_add (l := es) fun e => e.source == a
    have hrest : (l.map fun b => (targets es b).length).sum ≤
        (es.filter fun e => !(e.source == a)).length := by
      rw [map_congr_left fun b hb => congrArg length (hothers b hb)]
      exact ih hl _
    have hown : (targets es a).length = (es.filter fun e => e.source == a).length := length_map _
    rw [map_cons, sum_cons]
    omega

namespace Search

/-! ## What is left to do -/

/-- The steps that are left: one for each node on the way and each of its edges not yet looked at,
and the same for the nodes that the search has not come to. -/
def work (es : List (Edge α)) (visited : List α) (stack : List (Frame α)) : Nat :=
  (stack.map fun f => f.pending.length + 1).sum +
    (((nodes es).filter fun a => !visited.contains a).map fun a => (targets es a).length + 1).sum

section Work

variable {visited : List α} {stack : List (Frame α)} {ds : List α}

theorem work_leave : work es visited (⟨a, []⟩ :: stack) = work es visited stack + 1 := by
  simp only [work, map_cons, sum_cons, length_nil]
  omega

theorem work_pass :
    work es visited (⟨a, d :: ds⟩ :: stack) = work es visited (⟨a, ds⟩ :: stack) + 1 := by
  simp only [work, map_cons, sum_cons, length_cons]
  omega

/-- Coming to a node moves what there is to do for it from one sum to the other. -/
theorem work_enter (hd : d ∉ visited) (hnode : d ∈ nodes es) :
    work es (d :: visited) (⟨d, targets es d⟩ :: stack) = work es visited stack := by
  have hperm : ((nodes es).filter fun a => !visited.contains a).Perm
      (d :: (nodes es).filter fun a => !(d :: visited).contains a) := by
    have hnew : d ∉ (nodes es).filter fun a => !(d :: visited).contains a := by simp
    refine (perm_ext_iff_of_nodup ((nodup_nodes es).filter _)
      (nodup_cons.2 ⟨hnew, (nodup_nodes es).filter _⟩)).2 fun b => ?_
    by_cases hb : b = d
    · simp [hb, hd, hnode]
    · simp [hb]
  have hsum := (hperm.map fun a => (targets es a).length + 1).sum_nat
  rw [map_cons, sum_cons] at hsum
  simp only [work, map_cons, sum_cons]
  omega

theorem work_le (es : List (Edge α)) (visited : List α) : work es visited [] ≤ stepBound es := by
  have hsub : ((nodes es).filter fun a => !visited.contains a).Sublist (nodes es) := filter_sublist
  have hedges := sum_targets_le (hsub.nodup (nodup_nodes es)) es
  have hnodes := hsub.length_le
  have hbound := length_nodes_le es
  have hsplit : ∀ l : List α, (l.map fun a => (targets es a).length + 1).sum =
      (l.map fun a => (targets es a).length).sum + l.length := by
    intro l
    induction l with
    | nil => rfl
    | cons a l ih =>
      simp only [map_cons, sum_cons, length_cons, ih]
      omega
  rw [work, map_nil, sum_nil, hsplit, stepBound]
  omega

end Work

/-! ## What holds between the steps -/

/-- The edges of `a` lead to nodes in `known`, or, unless the search is strict, back to where `a` can
be reached from. -/
def LeadsInto (strict : Bool) (es : List (Edge α)) (a : α) (known : List α) : Prop :=
  ∀ b, Leads es a b → b ∈ known ∨ strict = false ∧ ReflTransGen (Leads es) b a

/-- All edges of the nodes on the way are looked at or pending.  The nodes in `done` will be finished
by the time the first frame is left. -/
def Looked (strict : Bool) (es : List (Edge α)) : List α → List (Frame α) → Prop
  | _, [] => True
  | done, f :: stack =>
    (∀ b ∈ f.pending, Leads es f.node b) ∧ LeadsInto strict es f.node (f.pending ++ done) ∧
      Looked strict es (f.node :: done) stack

/-- The nodes that a search came to, when those in `way` are on its way, the last one first. -/
structure Placed (strict : Bool) (es : List (Edge α)) (visited finished way : List α) : Prop where
  met : ∀ a, a ∈ visited ↔ a ∈ finished ∨ a ∈ way
  nodup : (finished ++ way).Nodup
  known : ∀ a ∈ visited, a ∈ nodes es
  descends : way.Pairwise fun a b => TransGen (Leads es) b a
  ordered : ∀ a ∈ finished, ∀ b, Leads es a b →
    [b, a] <+ finished ∨ strict = false ∧ ReflTransGen (Leads es) b a

structure Underway (strict : Bool) (es : List (Edge α)) (s : Search α) (stack : List (Frame α)) :
    Prop where
  placed : Placed strict es s.visited s.finished (stack.map (·.node))
  looked : Looked strict es s.finished stack

section Steps

variable {strict : Bool} {s : Search α} {stack : List (Frame α)}
  {visited finished way done ds : List α}

omit [DecidableEq α] in
theorem Looked.mono {done' : List α} (h : Looked strict es done stack) (hd : done ⊆ done') :
    Looked strict es done' stack := by
  induction stack generalizing done done' with
  | nil => trivial
  | cons f stack ih =>
    obtain ⟨hpending, hleads, hrest⟩ := h
    refine ⟨hpending, fun b hb => (hleads b hb).imp_left fun hmem => ?_,
      ih hrest (cons_subset_cons _ hd)⟩
    exact (mem_append.1 hmem).elim (mem_append_left _) fun hb => mem_append_right _ (hd hb)

theorem Placed.start : Placed strict es [] [] [] where
  met _ := by simp
  nodup := nodup_nil
  known := nofun
  descends := .nil
  ordered := nofun

theorem Placed.enter (h : Placed strict es visited finished way) (hd : d ∉ visited)
    (hnode : d ∈ nodes es) (hway : ∀ a ∈ way, TransGen (Leads es) a d) :
    Placed strict es (d :: visited) finished (d :: way) where
  met a := by
    rw [mem_cons, h.met, mem_cons]
    exact or_left_comm
  nodup := by
    refine nodup_middle.2 (nodup_cons.2 ⟨fun hmem => hd ?_, h.nodup⟩)
    exact (h.met d).2 (mem_append.1 hmem)
  known := forall_mem_cons.2 ⟨hnode, h.known⟩
  descends := pairwise_cons.2 ⟨hway, h.descends⟩
  ordered := h.ordered

theorem Placed.leave (h : Placed strict es visited finished (a :: way))
    (hleads : LeadsInto strict es a finished) :
    Placed strict es visited (finished ++ [a]) way where
  met b := by rw [h.met, mem_cons, mem_append, mem_singleton, or_assoc]
  nodup := by
    rw [append_assoc, singleton_append]
    exact h.nodup
  known := h.known
  descends := h.descends.of_cons
  ordered b hb c hc := by
    rcases mem_append.1 hb with hb | hb
    · exact (h.ordered b hb c hc).imp_left fun hsub => hsub.trans (sublist_append_left _ _)
    · cases mem_singleton.1 hb
      refine (hleads c hc).imp_left fun hmem => ?_
      exact (singleton_sublist.2 hmem).append (Sublist.refl [a])

/-- A node is left when all its edges have been looked at. -/
theorem Underway.leave (h : Underway strict es s (⟨a, []⟩ :: stack)) :
    Underway strict es { s with finished := s.finished ++ [a] } stack := by
  obtain ⟨-, hleads, hrest⟩ := h.looked
  refine ⟨h.placed.leave hleads, hrest.mono fun b hb => ?_⟩
  exact mem_append.2 ((mem_cons.1 hb).symm.imp_right mem_singleton.2)

/-- An edge is passed over when it leads to a finished node or back along the way. -/
theorem Underway.pass (h : Underway strict es s (⟨a, d :: ds⟩ :: stack))
    (hd : d ∈ s.finished ∨ strict = false ∧ ReflTransGen (Leads es) d a) :
    Underway strict es s (⟨a, ds⟩ :: stack) := by
  obtain ⟨hpending, hleads, hrest⟩ := h.looked
  refine ⟨h.placed, fun b hb => hpending b (mem_cons_of_mem _ hb), fun b hb => ?_, hrest⟩
  rcases hleads b hb with hmem | hback
  · rcases mem_cons.1 hmem with rfl | hmem
    · exact hd.imp_left (mem_append_right _)
    · exact .inl hmem
  · exact .inr hback

theorem onWay_iff :
    (d == a || stack.any fun f => f.node == d) = true ↔ d ∈ a :: stack.map (·.node) := by
  rw [Bool.or_eq_true, beq_iff_eq, any_eq_true, mem_cons, mem_map]
  simp only [beq_iff_eq]

/-- From the node of a frame all nodes on the way before it reach where its edges lead. -/
theorem Underway.reaches (h : Underway strict es s (⟨a, d :: ds⟩ :: stack)) :
    ∀ b ∈ a :: stack.map (·.node), TransGen (Leads es) b d := by
  have had : Leads es a d := h.looked.1 d mem_cons_self
  intro b hb
  rcases mem_cons.1 hb with rfl | hb
  · exact .single had
  · exact ((pairwise_cons.1 h.placed.descends).1 b hb).tail had

theorem Underway.reaches_top (h : Underway strict es s (⟨a, ds⟩ :: stack))
    (hd : d ∈ a :: stack.map (·.node)) : ReflTransGen (Leads es) d a := by
  rcases mem_cons.1 hd with rfl | hd
  · exact .refl
  · exact ((pairwise_cons.1 h.placed.descends).1 d hd).to_reflTransGen

/-- An edge to a new node is gone along. -/
theorem Underway.enter (h : Underway strict es s (⟨a, d :: ds⟩ :: stack)) (hd : d ∉ s.visited) :
    Underway strict es (push es d s (⟨a, ds⟩ :: stack)).1 (push es d s (⟨a, ds⟩ :: stack)).2 := by
  obtain ⟨hpending, hleads, hrest⟩ := h.looked
  have had : Leads es a d := hpending d mem_cons_self
  refine ⟨h.placed.enter hd had.target_mem h.reaches, ?_, ?_, ?_, ?_, ?_⟩
  · exact fun b hb => mem_targets.1 hb
  · exact fun b hb => .inl (mem_append_left _ (mem_targets.2 hb))
  · exact fun b hb => hpending b (mem_cons_of_mem _ hb)
  · intro b hb
    refine (hleads b hb).imp_left fun hmem => ?_
    exact perm_middle.symm.subset hmem
  · exact hrest.mono (cons_subset_cons _ (subset_cons_self _ _))

/-- The search starts anew from a node that it has not come to. -/
theorem Underway.begin (h : Underway strict es s []) (ha : a ∉ s.visited) (hnode : a ∈ nodes es) :
    Underway strict es (push es a s []).1 (push es a s []).2 := by
  refine ⟨h.placed.enter ha hnode nofun, fun b hb => mem_targets.1 hb, fun b hb => ?_, trivial⟩
  exact .inl (mem_append_left _ (mem_targets.2 hb))

end Steps

/-! ## What a search comes to -/

/-- A search that fails has found a node on a cycle, and only a strict one fails.  One that does not
fail has left all nodes that it came to. -/
def Comes (strict : Bool) (es : List (Edge α)) (s : Search α) : Except α (Search α) → Prop
  | .ok r => Underway strict es r [] ∧ s.visited ⊆ r.visited
  | .error d => strict = true ∧ TransGen (Leads es) d d

section Run

variable {strict : Bool} {s : Search α}

theorem Comes.after {s' : Search α} {outcome : Except α (Search α)} (h : Comes strict es s' outcome)
    (hs : s.visited ⊆ s'.visited) : Comes strict es s outcome := by
  cases outcome with
  | ok r => exact ⟨h.1, fun b hb => h.2 (hs hb)⟩
  | error d => exact h

theorem comes_run (fuel : Nat) : ∀ (s : Search α) (stack : List (Frame α)),
    Underway strict es s stack → work es s.visited stack ≤ fuel →
      Comes strict es s (run strict es fuel s stack) := by
  induction fuel with
  | zero =>
    intro s stack h hwork
    cases stack with
    | nil => exact ⟨h, Subset.refl _⟩
    | cons f stack =>
      simp only [work, map_cons, sum_cons] at hwork
      omega
  | succ fuel ih =>
    intro s stack h hwork
    match stack with
    | [] => exact ⟨h, Subset.refl _⟩
    | ⟨a, []⟩ :: stack =>
      rw [work_leave] at hwork
      exact ih _ stack h.leave (Nat.le_of_succ_le_succ hwork)
    | ⟨a, d :: ds⟩ :: stack =>
      rw [work_pass] at hwork
      have hwork := Nat.le_of_succ_le_succ hwork
      rw [run]
      split
      · rename_i hmet
        have hmet : d ∈ s.visited := contains_iff_mem.1 hmet
        split
        · rename_i hway
          have hway := onWay_iff.1 hway
          cases strict with
          | true => exact ⟨rfl, h.reaches d hway⟩
          | false =>
            have hpass := h.pass (.inr ⟨rfl, h.reaches_top hway⟩)
            exact ih _ _ ⟨hpass.placed, hpass.looked⟩ hwork
        · rename_i hway
          have hfinished : d ∈ s.finished :=
            ((h.placed.met d).1 hmet).resolve_right fun hmem => hway (onWay_iff.2 hmem)
          exact ih _ _ (h.pass (.inl hfinished)) hwork
      · rename_i hnew
        have hnew : d ∉ s.visited := fun hmem => hnew (contains_iff_mem.2 hmem)
        have hnode : d ∈ nodes es := (h.looked.1 d mem_cons_self).target_mem
        refine (ih _ _ (h.enter hnew) ?_).after (subset_cons_self _ _)
        exact Nat.le_trans (Nat.le_of_eq (work_enter hnew hnode)) hwork

theorem comes_visit (h : Underway strict es s []) (ha : a ∈ nodes es) :
    Comes strict es s (visit strict es s a) ∧ ∀ r, visit strict es s a = .ok r → a ∈ r.visited := by
  unfold visit
  split
  · rename_i hmet
    refine ⟨⟨h, Subset.refl _⟩, fun r hr => ?_⟩
    cases hr
    exact contains_iff_mem.1 hmet
  · rename_i hnew
    have hnew : a ∉ s.visited := fun hmem => hnew (contains_iff_mem.2 hmem)
    have hbegin := h.begin hnew ha
    have hcomes := comes_run (stepBound es) _ _ hbegin
      (Nat.le_trans (Nat.le_of_eq (work_enter hnew ha)) (work_le es s.visited))
    refine ⟨hcomes.after (subset_cons_self _ _), fun r hr => ?_⟩
    dsimp only at hr
    rw [hr] at hcomes
    exact hcomes.2 mem_cons_self

theorem comes_visits {l : List α} (hl : l ⊆ nodes es) (h : Underway strict es s []) :
    Comes strict es s (l.foldlM (visit strict es) s) ∧
      ∀ r, l.foldlM (visit strict es) s = .ok r → l ⊆ r.visited := by
  induction l generalizing s with
  | nil => exact ⟨⟨h, Subset.refl _⟩, fun _ _ => nil_subset _⟩
  | cons a l ih =>
    obtain ⟨ha, hl⟩ := cons_subset.1 hl
    obtain ⟨hvisit, hmet⟩ := comes_visit h ha
    rw [foldlM_cons]
    cases hs : visit strict es s a with
    | error d =>
      rw [hs] at hvisit
      exact ⟨hvisit, nofun⟩
    | ok s' =>
      rw [hs] at hvisit
      obtain ⟨hrest, hall⟩ := ih hl hvisit.1
      refine ⟨hrest.after hvisit.2, fun r hr => cons_subset.2 ⟨?_, hall r hr⟩⟩
      change l.foldlM (visit strict es) s' = .ok r at hr
      rw [hr] at hrest
      exact hrest.2 (hmet s' hs)

/-- The search either fails at a node on a cycle, and then it is strict, or finishes with every node
once. -/
theorem search_cases (strict : Bool) (es : List (Edge α)) :
    (∃ d, search strict es = .error d ∧ strict = true ∧ TransGen (Leads es) d d) ∨
      ∃ r, search strict es = .ok r ∧ Placed strict es r.visited r.finished [] ∧
        nodes es ⊆ r.visited := by
  have hstart : Underway strict es {} [] := ⟨.start, trivial⟩
  obtain ⟨hcomes, hall⟩ := comes_visits (Subset.refl (nodes es)) hstart
  unfold search
  cases hr : (nodes es).foldlM (visit strict es) {} with
  | error d =>
    rw [hr] at hcomes
    exact .inl ⟨d, rfl, hcomes⟩
  | ok r =>
    rw [hr] at hcomes
    exact .inr ⟨r, rfl, hcomes.1.placed, hall r hr⟩

/-! ## Strict and lenient searches -/

/-- A strict search that does not fail never had to pass over a cycle. -/
theorem run_lenient (fuel : Nat) : ∀ (s r : Search α) (stack : List (Frame α)),
    run true es fuel s stack = .ok r → run false es fuel s stack = .ok r := by
  induction fuel with
  | zero =>
    intro s r stack h
    cases stack <;> exact h
  | succ fuel ih =>
    intro s r stack h
    match stack with
    | [] => exact h
    | ⟨a, []⟩ :: stack => exact ih _ r stack h
    | ⟨a, d :: ds⟩ :: stack =>
      rw [run] at h ⊢
      split at h
      · rename_i hmet
        rw [if_pos hmet]
        split at h
        · cases h
        · rename_i hway
          rw [if_neg hway]
          exact ih _ r _ h
      · rename_i hnew
        rw [if_neg hnew]
        exact ih _ r _ h

theorem visits_lenient {l : List α} : ∀ {s r : Search α},
    l.foldlM (visit true es) s = .ok r → l.foldlM (visit false es) s = .ok r := by
  induction l with
  | nil => exact fun h => h
  | cons a l ih =>
    intro s r h
    rw [foldlM_cons] at h ⊢
    have hone : ∀ s', visit true es s a = .ok s' → visit false es s a = .ok s' := by
      intro s' hs
      unfold visit at hs ⊢
      split at hs
      · rename_i hmet
        rw [if_pos hmet]
        exact hs
      · rename_i hnew
        rw [if_neg hnew]
        exact run_lenient _ _ s' _ hs
    cases hs : visit true es s a with
    | error d =>
      rw [hs] at h
      cases h
    | ok s' =>
      rw [hs] at h
      rw [hone s' hs]
      exact ih h

end Run
end Search
end Graph
end SchemaPaths
