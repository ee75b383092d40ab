/-
Where the edges come from.

A run starts from the steps for the groups and the elements at the top of the documents.  Every
element that it expands was met on somebody's account, either there or among the steps of another
element that it expands, and every edge is recorded by one of these steps.  The list of the elements
with the accounts that they were met on says it all, since an element is expanded once.
-/
import SchemaPaths.Proofs.Graph.Reaching

namespace SchemaPaths
namespace Graph
namespace Dependencies

open Schema Walk

def Step.edge? : Step → Option (Edge NodeName)
  | .edge source target => some ⟨source, target⟩
  | _ => none

/-- The edges that steps record themselves, apart from what is recorded for the elements that they
expand. -/
def records (steps : List Step) : List (Edge NodeName) := steps.filterMap Step.edge?

theorem records_append (a b : List Step) : records (a ++ b) = records a ++ records b :=
  List.filterMap_append

theorem mem_records {a b : NodeName} {steps : List Step} :
    ⟨a, b⟩ ∈ records steps ↔ .edge a b ∈ steps := by
  unfold records
  rw [List.mem_filterMap]
  constructor
  · rintro ⟨x, hx, hedge⟩
    cases x with
    | edge source target =>
      cases hedge
      exact hx
    | _ => cases hedge
  · intro h
    exact ⟨_, h, rfl⟩

/-- An element and the account that it was met on. -/
abbrev Meeting := ElementId × NodeName

/-- What is to be done for an element that was met. -/
def meetingSteps (s : SchemaSet) (x : Meeting) : List Step :=
  elementSteps s [] x.2 (s.declared.element x.1)

/-- What a run adds to a collection when it takes some steps and expands the elements of `met` for
them. -/
structure Traced (s : SchemaSet) (steps : List Step) (c c' : Collection) (met : List Meeting) :
    Prop where
  expanded : c'.expanded = met.map Prod.fst ++ c.expanded
  edges : c'.edges.Perm (c.edges ++ (records steps ++ met.flatMap fun x => records (meetingSteps s x)))
  origin : ∀ x ∈ met, .expand x.1 x.2 ∈ steps ∨ ∃ y ∈ met, .expand x.1 x.2 ∈ meetingSteps s y

def Traces (s : SchemaSet) (steps : List Step) (m : Collect Unit) : Prop :=
  ∀ c : Collection, Ensures m c (fun _ c' => ∃ met, Traced s steps c c' met) fun _ _ => True

variable {s : SchemaSet}

theorem Traced.andThen {a b : List Step} {c c' c'' : Collection} {met met' : List Meeting}
    (h : Traced s a c c' met) (h' : Traced s b c' c'' met') :
    Traced s (a ++ b) c c'' (met' ++ met) where
  expanded := by rw [h'.expanded, h.expanded, List.map_append, List.append_assoc]
  edges := by
    rw [List.perm_iff_count]
    intro e
    have hfirst := h.edges.count_eq e
    have hnext := h'.edges.count_eq e
    simp only [List.count_append, records_append, List.flatMap_append] at hfirst hnext ⊢
    omega
  origin x hx := by
    rcases List.mem_append.1 hx with hx | hx
    · rcases h'.origin x hx with hstep | ⟨y, hy, hstep⟩
      · exact .inl (List.mem_append_right _ hstep)
      · exact .inr ⟨y, List.mem_append_left _ hy, hstep⟩
    · rcases h.origin x hx with hstep | ⟨y, hy, hstep⟩
      · exact .inl (List.mem_append_left _ hstep)
      · exact .inr ⟨y, List.mem_append_right _ hy, hstep⟩

/-- An element that was expanded before adds nothing; a new one adds what its steps add. -/
theorem Traced.skip {c : Collection} (e : ElementId) (user : NodeName) :
    Traced s [.expand e user] c c [] where
  expanded := rfl
  edges := by
    have hnone : records [.expand e user] = [] := rfl
    simp [hnone]
  origin := nofun

theorem Traced.enter {c c' : Collection} {met : List Meeting} {e : ElementId} {user : NodeName}
    (h : Traced s (meetingSteps s (e, user)) { c with expanded := e :: c.expanded } c' met) :
    Traced s [.expand e user] c c' (met ++ [(e, user)]) where
  expanded := by simp [h.expanded]
  edges := by
    have hnone : records [.expand e user] = [] := rfl
    rw [List.perm_iff_count]
    intro x
    have hinner := h.edges.count_eq x
    simp only [List.count_append, List.flatMap_append, List.flatMap_singleton, hnone,
      List.nil_append] at hinner ⊢
    omega
  origin x hx := by
    have hself : (e, user) ∈ met ++ [(e, user)] := List.mem_append_right _ (List.mem_singleton_self _)
    rcases List.mem_append.1 hx with hx | hx
    · rcases h.origin x hx with hstep | ⟨y, hy, hstep⟩
      · exact .inr ⟨_, hself, hstep⟩
      · exact .inr ⟨y, List.mem_append_left _ hy, hstep⟩
    · rw [List.mem_singleton.1 hx]
      exact .inl (List.mem_singleton_self _)

theorem Traces.aside {f : Collection → Collection} {x : List Step} (hx : records x = [])
    (h : ∀ c, (f c).expanded = c.expanded ∧ (f c).edges = c.edges) : Traces s x (modify f) := by
  intro c
  refine ensures_modify.2 ⟨[], ?_, ?_, nofun⟩
  · rw [(h c).1]
    rfl
  · simp [(h c).2, hx]

theorem Traces.andThen {a b : List Step} {m m' : Collect Unit} (h : Traces s a m)
    (h' : Traces s b m') : Traces s (a ++ b) (do m; m') := by
  intro c
  refine (h c).bind fun _ c₁ hc₁ => (h' c₁).mono (fun _ c₂ hc₂ => ?_) fun _ _ _ => trivial
  obtain ⟨met, hmet⟩ := hc₁
  obtain ⟨met', hmet'⟩ := hc₂
  exact ⟨met' ++ met, hmet.andThen hmet'⟩

theorem composes_traces (s : SchemaSet) : Composes (Traces s) where
  nothing _ := ensures_pure.2 ⟨[], rfl, by simp [records], nofun⟩
  aside _ h := .aside rfl h
  note _ := .aside rfl fun _ => ⟨rfl, rfl⟩
  edge source target := by
    have hone : records [.edge source target] = [⟨source, target⟩] := rfl
    exact fun c => ensures_modify.2 ⟨[], rfl, by simp [hone], nofun⟩
  stop _ _ := ensures_throw.2 trivial
  andThen := .andThen

theorem traces_expandFrom (fuel : Nat) : ∀ e user,
    Traces s [.expand e user] (expandFrom s [] fuel e user) := by
  induction fuel with
  | zero => exact fun _ _ _ => ensures_throw.2 trivial
  | succ fuel ih =>
    intro e user c
    unfold expandFrom
    refine ensures_bind.2 (ensures_get.2 ?_)
    by_cases hmet : e ∈ c.expanded
    · rw [if_pos (List.contains_iff_mem.2 hmet)]
      exact ensures_pure.2 ⟨[], .skip e user⟩
    · rw [if_neg fun h => hmet (List.contains_iff_mem.1 h)]
      refine ensures_bind.2 (ensures_modify.2 ?_)
      have hsteps := (composes_traces s).perform ih (meetingSteps s (e, user))
      refine (hsteps _).mono (fun _ c' hc' => ?_) fun _ _ _ => trivial
      obtain ⟨met, htraced⟩ := hc'
      exact ⟨_, htraced.enter⟩

/-! ## Whole runs -/

theorem traces_visitAll (groups : Bool) : Traces s (startSteps s groups) (visitAll s groups) :=
  (composes_traces s).visitAll (traces_expandFrom _) groups s.documents

/-- What a whole run has collected: each element is expanded once, on the account that it was met
on, and the edges are those that the steps from the groups and elements at the top and those from
the elements record. -/
structure Trace (s : SchemaSet) (groups : Bool) (c : Collection) (met : List Meeting) : Prop where
  expanded : c.expanded = met.map Prod.fst
  nodup : c.expanded.Nodup
  edges : c.edges.Perm
    (records (startSteps s groups) ++ met.flatMap fun x => records (meetingSteps s x))
  origin : ∀ x ∈ met, .expand x.1 x.2 ∈ startSteps s groups ∨
    ∃ y ∈ met, .expand x.1 x.2 ∈ meetingSteps s y
  reaches : ∀ e, e ∈ c.expanded ↔ Reachable s (expands (startSteps s groups)) e

/-- Collecting succeeds, and what it has collected has a trace. -/
theorem collect_trace (hw : s.Walkable) (groups : Bool) :
    (collect s groups).2 = .ok () ∧ ∃ met, Trace s groups (collect s groups).1 met := by
  have hdocs := fun doc hdoc => (hw.closed.documents doc hdoc).elements
  have hroom : s.declared.elements.size < s.declared.elements.size + 1 + 0 := Nat.lt_succ_self _
  have hcollects := collects_visitAll hw groups s.documents hdocs {} ⟨.nil, nofun⟩ hroom
  have hcovers := covers_documents hw groups s.documents {}
  have hrun := (hcollects.and hcovers).and (traces_visitAll groups {})
  unfold Ensures at hrun
  unfold collect
  split at hrun
  · rename_i u c heq
    rw [heq]
    obtain ⟨⟨⟨hexpanding, -⟩, -, htop, hreach⟩, met, htraced⟩ := hrun
    have hmet : c.expanded = met.map Prod.fst := by simp [htraced.expanded]
    refine ⟨rfl, met, hmet, hexpanding.nodup, htraced.edges, htraced.origin, fun e => ?_⟩
    constructor
    · exact fun he => ((hreach e he).resolve_left List.not_mem_nil).1
    · intro he
      induction he with
      | top he => exact htop he
      | further _ leads ih => exact ((hreach _ ih).resolve_left List.not_mem_nil).2 _ leads
  · exact hrun.1.1.elim

theorem ofSchemaSet_trace (hw : s.Walkable) (groups : Bool) :
    ∃ c met, ofSchemaSet s groups = .ok c.edges ∧ Trace s groups c met := by
  obtain ⟨hok, met, htrace⟩ := collect_trace hw groups
  refine ⟨(collect s groups).1, met, ?_, htrace⟩
  show (collect s groups).2.map _ = _
  rw [hok]
  rfl

namespace Trace

variable {groups : Bool} {c : Collection} {met : List Meeting} {a b : NodeName} {e : ElementId}
  {user : NodeName}

theorem mem_edges (h : Trace s groups c met) : ⟨a, b⟩ ∈ c.edges ↔
    .edge a b ∈ startSteps s groups ∨ ∃ x ∈ met, .edge a b ∈ meetingSteps s x := by
  rw [h.edges.mem_iff, List.mem_append, mem_records, List.mem_flatMap]
  simp only [mem_records]

/-- An element that can be reached was met on some account. -/
theorem met_of_reachable (h : Trace s groups c met)
    (he : Reachable s (expands (startSteps s groups)) e) : ∃ user, (e, user) ∈ met := by
  have hmem := (h.reaches e).2 he
  rw [h.expanded] at hmem
  obtain ⟨⟨e', user⟩, hx, rfl⟩ := List.mem_map.1 hmem
  exact ⟨user, hx⟩

/-- So all edges are recorded that there are on any account. -/
theorem edge_of_step (h : Trace s groups c met) (hw : s.Walkable)
    (he : Reachable s (expands (startSteps s groups)) e)
    (step : ∀ user, ElementStep s user e (.edge a b)) : ⟨a, b⟩ ∈ c.edges := by
  obtain ⟨user, hx⟩ := h.met_of_reachable he
  exact h.mem_edges.2 (.inr ⟨_, hx, (step user).mem hw⟩)

/-- Where an element was met: at the top, as what another refers to or as a head, or in content. -/
theorem origin_cases (h : Trace s groups c met) (hw : s.Walkable) (hx : (e, user) ∈ met) :
    .expand e user ∈ startSteps s groups ∨
      ∃ f user', ElementStep s user' f (.expand e user) := by
  rcases h.origin _ hx with hstep | ⟨y, -, hstep⟩
  · exact .inl hstep
  · exact .inr ⟨y.1, y.2, elementStep_of_mem hw hstep⟩

end Trace
end Dependencies
end Graph
end SchemaPaths
