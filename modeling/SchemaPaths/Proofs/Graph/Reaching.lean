/-
Which elements are expanded.

An element leads to the element it refers to; an element that is no reference leads to its head and
to the elements in the content of its type.  Main statement: collecting expands what can be reached
in this way from the elements at the top of the documents, each element once, in whatever order these
come.
-/
import SchemaPaths.Proofs.Graph.Collecting

namespace SchemaPaths
namespace Graph
namespace Dependencies

open Schema Walk

/-! ## What an element leads to -/

/-- The elements in the declared and the linked content of a type and, if it has a name, in that of
its base. -/
inductive TypeHolds (d : Declarations) : TypeRef → ElementId → Prop
  | declared {i : ComplexId} {n : Node} {e : ElementId}
      (particle : Linking.ownParticle (d.complexType i) = some n) (leaf : e ∈ n.leaves) :
      TypeHolds d (.complex (.declared i)) e
  | linked {i : ComplexId} {n : Node} {e : ElementId}
      (content : (d.complexType i).content = some n) (leaf : e ∈ n.leaves) :
      TypeHolds d (.complex (.declared i)) e
  | base {i : ComplexId} {b : TypeRef} {e : ElementId} (named : isNamed (d.complexType i).name)
      (base : (d.complexType i).base = some b) (holds : TypeHolds d b e) :
      TypeHolds d (.complex (.declared i)) e

/-- The type written in an element comes before any other. -/
inductive LeadsTo (s : SchemaSet) (e : ElementId) : ElementId → Prop
  | reference {q : QName} {r : ElementId} (ref : (s.declared.element e).ref = some q)
      (found : s.element? q = some r) : LeadsTo s e r
  | head {q : QName} {h : ElementId} (noRef : (s.declared.element e).ref = none)
      (named : (s.declared.element e).substitution = some q) (found : s.element? q = some h) :
      LeadsTo s e h
  | content {t : TypeRef} {r : ElementId} (noRef : (s.declared.element e).ref = none)
      (type : (s.declared.element e).inline.or (s.declared.element e).type = some t)
      (holds : TypeHolds s.declared t r) : LeadsTo s e r

/-- The least set of elements that holds those at the top and all that its members lead to. -/
inductive Reachable (s : SchemaSet) (top : List ElementId) : ElementId → Prop
  | top {e : ElementId} (h : e ∈ top) : Reachable s top e
  | further {e r : ElementId} (h : Reachable s top e) (leads : LeadsTo s e r) : Reachable s top r

/-! ## What the steps expand -/

def Step.element? : Step → Option ElementId
  | .expand e _ => some e
  | _ => none

/-- The elements that steps are to expand. -/
def expands (steps : List Step) : List ElementId := steps.filterMap Step.element?

section Steps

variable {s : SchemaSet} {a b : List Step} {e f : ElementId}

theorem expands_append : expands (a ++ b) = expands a ++ expands b := List.filterMap_append

theorem expands_flatMap {α : Type} (l : List α) (f : α → List Step) :
    expands (l.flatMap f) = l.flatMap fun x => expands (f x) := List.filterMap_flatMap

theorem mem_expands : e ∈ expands a ↔ ∃ user, .expand e user ∈ a := by
  unfold expands
  rw [List.mem_filterMap]
  constructor
  · rintro ⟨x, hx, he⟩
    cases x with
    | expand f user =>
      cases he
      exact ⟨user, hx⟩
    | _ => cases he
  · rintro ⟨user, hx⟩
    exact ⟨_, hx, rfl⟩

theorem expands_steps_element (d : Declarations) (user : NodeName) (e : ElementId) :
    expands (steps d [] user (.element e)) = [e] := by
  rw [steps_element]
  rfl

theorem mem_atomSteps_expand {n : Node} {user user' : NodeName} :
    (.expand e user') ∈ atomSteps user n ↔ n.element? = some e ∧ user' = user := by
  cases n with
  | element f => simp [atomSteps, Node.element?, eq_comm]
  | groupRef q o => simp [atomSteps, Node.element?, mem_use]
  | _ => simp [atomSteps, Node.element?]

theorem TypeStep.typeHolds {d : Declarations} {user : NodeName} {t : TypeRef} {x : Step}
    (h : TypeStep d user t x) : ∀ e user', x = .expand e user' → TypeHolds d t e := by
  induction h with
  | content holds atom step =>
    rintro e user' rfl
    have hleaf := List.mem_filterMap.2 ⟨_, atom, (mem_atomSteps_expand.1 step).1⟩
    rcases holds with holds | holds
    · exact .declared holds hleaf
    · exact .linked holds hleaf
  | edge => exact nofun
  | base named base _ ih => exact fun e user' hx => .base named base (ih e user' hx)

theorem typeStep_of_leaf {d : Declarations} {i : ComplexId} {n : Node} (holds : InType d i n)
    (leaf : e ∈ n.leaves) (user : NodeName) :
    TypeStep d user (.complex (.declared i)) (.expand e (account (d.complexType i) user)) := by
  obtain ⟨a, ha, he⟩ := List.mem_filterMap.1 leaf
  exact .content holds ha (mem_atomSteps_expand.2 ⟨he, rfl⟩)

theorem TypeHolds.typeStep {d : Declarations} {t : TypeRef} (h : TypeHolds d t e) :
    ∀ user, ∃ user', TypeStep d user t (.expand e user') := by
  induction h with
  | declared particle leaf => exact fun user => ⟨_, typeStep_of_leaf (.inl particle) leaf user⟩
  | linked content leaf => exact fun user => ⟨_, typeStep_of_leaf (.inr content) leaf user⟩
  | base named base _ ih =>
    intro user
    obtain ⟨user', step⟩ := ih _
    exact ⟨user', .base named base step⟩

/-- Expanding an element goes on to the elements that it leads to. -/
theorem mem_expands_elementSteps (hw : s.Walkable) (user : NodeName) (f : ElementId) :
    e ∈ expands (elementSteps s [] user (s.declared.element f)) ↔ LeadsTo s f e := by
  rw [mem_expands]
  constructor
  · rintro ⟨user', h⟩
    cases elementStep_of_mem hw h with
    | target ref found => exact .reference ref found
    | head noRef named found => exact .head noRef named found
    | named noRef noInline type _ step =>
      exact .content noRef (by rw [noInline, type, Option.none_or]) (step.typeHolds _ _ rfl)
    | nameless noRef type _ step => exact .content noRef type (step.typeHolds _ _ rfl)
  · intro h
    cases h with
    | reference ref found => exact ⟨none, (ElementStep.target ref found).mem hw⟩
    | head noRef named found => exact ⟨none, (ElementStep.head noRef named found).mem hw⟩
    | content noRef type holds =>
      obtain ⟨account, hwalked⟩ := exists_account hw noRef type
      obtain ⟨user', step⟩ := holds.typeStep account
      exact ⟨user', (hwalked user _ step).mem hw⟩

end Steps

/-! ## Expanding -/

section Runs

variable {s : SchemaSet}

theorem Reachable.mono {top top' : List ElementId} {e : ElementId} (h : Reachable s top e)
    (ht : ∀ t ∈ top, Reachable s top' t) : Reachable s top' e := by
  induction h with
  | top h => exact ht _ h
  | further _ leads ih => exact ih.further leads

/-- What a run that succeeds expands: all of `top`, whatever was expanded before, and of anything else
only what can be reached from `top`, and then also all that this leads to. -/
def Covers (s : SchemaSet) (top : List ElementId) (m : Collect Unit) : Prop :=
  ∀ c : Collection, Ensures m c
    (fun _ c' => c.expanded ⊆ c'.expanded ∧ top ⊆ c'.expanded ∧ ∀ e ∈ c'.expanded,
      e ∈ c.expanded ∨ Reachable s top e ∧ ∀ r, LeadsTo s e r → r ∈ c'.expanded)
    fun _ _ => True

theorem Covers.aside {f : Collection → Collection} (h : ∀ c, (f c).expanded = c.expanded) :
    Covers s [] (modify f) := by
  intro c
  refine ensures_modify.2 ⟨?_, List.nil_subset _, fun e he => .inl ?_⟩
  · rw [h]
    exact List.Subset.refl _
  · rw [h] at he
    exact he

theorem Covers.andThen {top top' : List ElementId} {m m' : Collect Unit} (h : Covers s top m)
    (h' : Covers s top' m') : Covers s (top ++ top') (do m; m') := by
  intro c
  refine (h c).bind fun _ c₁ hc₁ => (h' c₁).mono (fun _ c₂ hc₂ => ?_) fun _ _ _ => trivial
  obtain ⟨hkeep, htop, hreach⟩ := hc₁
  obtain ⟨hkeep', htop', hreach'⟩ := hc₂
  refine ⟨List.Subset.trans hkeep hkeep',
    List.append_subset.2 ⟨List.Subset.trans htop hkeep', htop'⟩, fun e he => ?_⟩
  rcases hreach' e he with he | ⟨hr, hleads⟩
  · rcases hreach e he with he | ⟨hr, hleads⟩
    · exact .inl he
    · refine .inr ⟨hr.mono fun t ht => .top (List.mem_append_left _ ht), fun r h => ?_⟩
      exact hkeep' (hleads r h)
  · exact .inr ⟨hr.mono fun t ht => .top (List.mem_append_right _ ht), hleads⟩

theorem composes_covers (s : SchemaSet) :
    Composes fun steps m => Covers s (expands steps) m where
  nothing _ := ensures_pure.2 ⟨List.Subset.refl _, List.nil_subset _, fun _ => .inl⟩
  aside _ h := .aside fun c => (h c).1
  note _ := .aside fun _ => rfl
  edge _ _ := .aside fun _ => rfl
  stop _ _ := ensures_throw.2 trivial
  andThen h h' := by
    rw [expands_append]
    exact h.andThen h'

/-- An element is expanded before what it leads to. -/
theorem covers_expandFrom (hw : s.Walkable) (fuel : Nat) : ∀ e user,
    Covers s [e] (expandFrom s [] fuel e user) := by
  induction fuel with
  | zero => exact fun _ _ _ => ensures_throw.2 trivial
  | succ fuel ih =>
    intro e user c
    unfold expandFrom
    refine ensures_bind.2 (ensures_get.2 ?_)
    by_cases hmet : e ∈ c.expanded
    · rw [if_pos (List.contains_iff_mem.2 hmet)]
      refine ensures_pure.2 ⟨List.Subset.refl _, ?_, fun _ => .inl⟩
      exact List.cons_subset.2 ⟨hmet, List.nil_subset _⟩
    · rw [if_neg fun h => hmet (List.contains_iff_mem.1 h)]
      refine ensures_bind.2 (ensures_modify.2 ?_)
      have hsteps := (composes_covers s).perform ih (elementSteps s [] user (s.declared.element e))
      refine (hsteps _).mono (fun _ c' hc' => ?_) fun _ _ h => h
      obtain ⟨hkeep, hleads, hreach⟩ := hc'
      have he : e ∈ c'.expanded := hkeep List.mem_cons_self
      refine ⟨fun f hf => hkeep (List.mem_cons_of_mem _ hf),
        List.cons_subset.2 ⟨he, List.nil_subset _⟩, fun f hf => ?_⟩
      -- `e` is put down before its steps run, so for them it was expanded already
      rcases hreach f hf with hf | ⟨hr, hall⟩
      · rcases List.mem_cons.1 hf with rfl | hf
        · refine .inr ⟨.top List.mem_cons_self, fun r hr => hleads ?_⟩
          exact (mem_expands_elementSteps hw user f).2 hr
        · exact .inl hf
      · refine .inr ⟨hr.mono fun t ht => ?_, hall⟩
        have hlead := (mem_expands_elementSteps hw user e).1 ht
        exact .further (.top List.mem_cons_self) hlead

theorem covers_documents (hw : s.Walkable) (groups : Bool) (docs : List Document) :
    Covers s (expands (docs.flatMap (documentSteps s groups)))
      (visitAll { s with documents := docs } groups) :=
  (composes_covers s).visitAll (covers_expandFrom hw _) groups docs

/-- Without the groups a run starts with the elements at the top. -/
theorem expands_documentSteps (doc : Document) :
    expands (documentSteps s false doc) = doc.elements := by
  simp [documentSteps, expands_flatMap, expands_steps_element]

theorem covers_visitAll (hw : s.Walkable) (docs : List Document) :
    Covers s (docs.flatMap (·.elements)) (visitAll { s with documents := docs } false) := by
  have h := covers_documents hw false docs
  simpa only [expands_flatMap, expands_documentSteps] using h

/-- Collecting succeeds.  With the documents and the elements at their top in any order, it expands
the elements that can be reached from these, each once. -/
theorem expanded_eq_reachable (h : s.Loaded) (docs : List Document)
    (hdocs : ∀ e, e ∈ docs.flatMap (·.elements) ↔ e ∈ s.documents.flatMap (·.elements)) :
    let run := collect { s with documents := docs } false
    run.2 = .ok () ∧ run.1.expanded.Nodup ∧
      ∀ e, e ∈ run.1.expanded ↔ Reachable s (s.documents.flatMap (·.elements)) e := by
  have hw := h.isLinked.walkable
  have hdeclared : ∀ doc ∈ docs, ∀ e ∈ doc.elements, e < s.declared.elements.size := by
    intro doc hdoc e he
    obtain ⟨doc', hdoc', he'⟩ :=
      List.mem_flatMap.1 ((hdocs e).1 (List.mem_flatMap.2 ⟨doc, hdoc, he⟩))
    exact (hw.closed.documents doc' hdoc').elements e he'
  have hrun := (collects_visitAll hw false docs hdeclared {} ⟨.nil, nofun⟩ (by simp)).and
    (covers_visitAll hw docs {})
  unfold Ensures at hrun
  unfold collect
  split at hrun
  · rename_i u c heq
    rw [heq]
    obtain ⟨⟨hexpanding, -⟩, -, htop, hreach⟩ := hrun
    refine ⟨rfl, hexpanding.nodup, fun e => ⟨fun he => ?_, fun he => ?_⟩⟩
    · have hr := ((hreach e he).resolve_left List.not_mem_nil).1
      exact hr.mono fun t ht => .top ((hdocs t).1 ht)
    · induction he with
      | top he => exact htop ((hdocs _).2 he)
      | further _ leads ih =>
        exact ((hreach _ ih).resolve_left List.not_mem_nil).2 _ leads
  · exact hrun.1.elim

/-- The element `a` is met again in its own content, as a reference, and expanded once. -/
theorem nested_expanded : nested.Loaded ∧
    (let run := collect { nested with documents := nested.documents.reverse } false
    run.2 = .ok () ∧ run.1.expanded.Nodup ∧
      ∀ e, e ∈ run.1.expanded ↔ Reachable nested (nested.documents.flatMap (·.elements)) e) :=
  ⟨nested_loaded, expanded_eq_reachable nested_loaded _ fun e => by simp⟩

end Runs
end Dependencies
end Graph
end SchemaPaths
