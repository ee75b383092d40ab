/-
What the bodies of groups record.

If a run goes through the groups, too, each element in the body of a group can be met on the group's
account.  Content that refers to the group has the very same elements, and each is met once, so one
that the run comes to in such content first is recorded on the account of that content, and not from
the group.  Main statement: a reference in a body is recorded from its group unless something that
the run starts with earlier leads to it, and otherwise from what holds the content it was met in.
-/
import SchemaPaths.Proofs.Graph.Meaning
import SchemaPaths.Proofs.Graph.Recording

namespace SchemaPaths
namespace Graph
namespace Dependencies

open Schema Walk

/-! ## Reaching in stages -/

section Stages

variable {s : SchemaSet} {top top' : List ElementId} {e : ElementId}

theorem not_reachable_nil : ¬ Reachable s [] e := by
  intro h
  induction h with
  | top h => cases h
  | further _ _ ih => exact ih

theorem Reachable.of_append (h : Reachable s (top ++ top') e) :
    Reachable s top e ∨ Reachable s top' e := by
  induction h with
  | top h => exact (List.mem_append.1 h).imp .top .top
  | further _ leads ih => exact ih.imp (·.further leads) (·.further leads)

/-- What the elements lead to is among them. -/
def Settled (s : SchemaSet) (expanded : List ElementId) : Prop :=
  ∀ e ∈ expanded, ∀ r, LeadsTo s e r → r ∈ expanded

theorem Settled.reachable {expanded : List ElementId} (h : Settled s expanded)
    (htop : top ⊆ expanded) (he : Reachable s top e) : e ∈ expanded := by
  induction he with
  | top he => exact htop he
  | further _ leads ih => exact h _ ih _ leads

/-- How a run that succeeds goes from one collection to another. -/
structure Spread (s : SchemaSet) (top : List ElementId) (c c' : Collection) : Prop where
  kept : c.expanded ⊆ c'.expanded
  all : top ⊆ c'.expanded
  only : ∀ e ∈ c'.expanded, e ∈ c.expanded ∨ Reachable s top e
  settled : Settled s c.expanded → Settled s c'.expanded

theorem Covers.spread {m : Collect Unit} (h : Covers s top m) (c : Collection) :
    Ensures m c (fun _ c' => Spread s top c c') fun _ _ => True := by
  refine (h c).mono (fun _ c' hc' => ?_) fun _ _ _ => trivial
  obtain ⟨hkept, htop, hreach⟩ := hc'
  refine ⟨hkept, htop, fun e he => (hreach e he).imp_right And.left, fun hsettled e he r hr => ?_⟩
  rcases hreach e he with hold | ⟨-, hleads⟩
  · exact hkept (hsettled e hold r hr)
  · exact hleads r hr

theorem Spread.andThen {c c' c'' : Collection} (h : Spread s top c c') (h' : Spread s top' c' c'') :
    Spread s (top ++ top') c c'' where
  kept := List.Subset.trans h.kept h'.kept
  all := List.append_subset.2 ⟨List.Subset.trans h.all h'.kept, h'.all⟩
  only e he := by
    rcases h'.only e he with he | hr
    · exact (h.only e he).imp_right fun hr => hr.mono fun t ht => .top (List.mem_append_left _ ht)
    · exact .inr (hr.mono fun t ht => .top (List.mem_append_right _ ht))
  settled := h'.settled ∘ h.settled

end Stages

/-! ## Where elements are met first -/

/-- After the steps `before`, an element is to be expanded on somebody's account. -/
def ComesAfter (before steps : List Step) (x : Meeting) : Prop :=
  ∃ after, steps = before ++ .expand x.1 x.2 :: after

section Coming

variable {a b before : List Step} {x y : Meeting}

theorem ComesAfter.mem_expands (h : ComesAfter before a x) : x.1 ∈ expands a := by
  obtain ⟨after, rfl⟩ := h
  exact Dependencies.mem_expands.2 ⟨x.2, List.mem_append_right _ List.mem_cons_self⟩

theorem ComesAfter.of_append (h : ComesAfter before (a ++ b) x) :
    ComesAfter before a x ∨ ∃ rest, before = a ++ rest ∧ ComesAfter rest b x := by
  obtain ⟨after, heq⟩ := h
  rcases List.append_eq_append_iff.1 heq with ⟨rest, hbefore, hb⟩ | ⟨rest, ha, hafter⟩
  · exact .inr ⟨rest, hbefore, after, hb⟩
  · rcases List.cons_eq_append_iff.1 hafter with ⟨rfl, hb⟩ | ⟨rest, rfl, -⟩
    · refine .inr ⟨[], ?_, after, hb⟩
      rw [ha, List.append_nil, List.append_nil]
    · exact .inl ⟨rest, ha⟩

theorem ComesAfter.of_single (h : ComesAfter before [.expand y.1 y.2] x) : before = [] ∧ x = y := by
  obtain ⟨after, heq⟩ := h
  rcases List.cons_eq_append_iff.1 heq with ⟨rfl, hstep⟩ | ⟨_, -, hnil⟩
  · injection hstep with hstep
    injection hstep with hfst hsnd
    exact ⟨rfl, Prod.ext hfst hsnd⟩
  · simp at hnil

end Coming

/-- The accounts that elements are met on if they were not expanded before: that of the step that is
to expand them, unless what is expanded earlier leads to them. -/
structure Firsts (s : SchemaSet) (steps : List Step) (c : Collection) (met : List Meeting) :
    Prop where
  fresh : ∀ before x, ComesAfter before steps x → x.1 ∉ c.expanded →
    ¬ Reachable s (expands before) x.1 → x ∈ met
  led : Settled s c.expanded → ∀ before x, ComesAfter before steps x → x.1 ∉ c.expanded →
    Reachable s (expands before) x.1 → ∃ user, (x.1, user) ∈ met ∧
      (.expand x.1 user ∈ before ∨ ∃ y ∈ met, .expand x.1 user ∈ meetingSteps s y)

section Firsts

variable {s : SchemaSet} {c c' c'' : Collection} {met met' : List Meeting} {a b : List Step}

/-- Steps that expand nothing meet nothing. -/
theorem Firsts.of_none (h : expands a = []) : Firsts s a c met := by
  have hnone : ∀ {before x}, ¬ ComesAfter before a x := fun hx => by
    have hmem := hx.mem_expands
    rw [h] at hmem
    cases hmem
  exact ⟨fun _ _ hx => absurd hx hnone, fun _ _ _ hx => absurd hx hnone⟩

theorem Firsts.single {x : Meeting} (h : x.1 ∉ c.expanded → x ∈ met) :
    Firsts s [.expand x.1 x.2] c met := by
  refine ⟨fun before y hy hnew _ => ?_, fun _ before y hy _ hr => ?_⟩
  · obtain ⟨-, rfl⟩ := hy.of_single
    exact h hnew
  · obtain ⟨rfl, -⟩ := hy.of_single
    exact absurd hr not_reachable_nil

theorem Firsts.andThen (h : Firsts s a c met) (h' : Firsts s b c' met')
    (ht : Traced s a c c' met) (hspread : Spread s (expands a) c c') :
    Firsts s (a ++ b) c (met' ++ met) := by
  refine ⟨fun before x hx hnew hnot => ?_, fun hsettled before x hx hnew hr => ?_⟩
  · rcases hx.of_append with hx' | ⟨rest, rfl, hx'⟩
    · exact List.mem_append_right _ (h.fresh before x hx' hnew hnot)
    · rw [expands_append] at hnot
      have hnew' : x.1 ∉ c'.expanded := fun hmem => (hspread.only _ hmem).elim hnew fun hr =>
        hnot (hr.mono fun t ht => .top (List.mem_append_left _ ht))
      refine List.mem_append_left _ (h'.fresh rest x hx' hnew' fun hr => ?_)
      exact hnot (hr.mono fun t ht => .top (List.mem_append_right _ ht))
  · rcases hx.of_append with hx' | ⟨rest, rfl, hx'⟩
    · obtain ⟨user, hmet, hstep⟩ := h.led hsettled before x hx' hnew hr
      refine ⟨user, List.mem_append_right _ hmet, hstep.imp_right ?_⟩
      rintro ⟨y, hy, hstep⟩
      exact ⟨y, List.mem_append_right _ hy, hstep⟩
    · by_cases hmem : x.1 ∈ c'.expanded
      · rw [ht.expanded] at hmem
        obtain ⟨⟨e, user⟩, hmet, rfl⟩ := List.mem_map.1 ((List.mem_append.1 hmem).resolve_right hnew)
        refine ⟨user, List.mem_append_right _ hmet, ?_⟩
        rcases ht.origin _ hmet with hstep | ⟨y, hy, hstep⟩
        · exact .inl (List.mem_append_left _ hstep)
        · exact .inr ⟨y, List.mem_append_right _ hy, hstep⟩
      · -- the steps of `a` have not come to the element, so what leads to it is among the rest
        rw [expands_append] at hr
        have hrest : Reachable s (expands rest) x.1 := hr.of_append.resolve_left fun hr =>
          hmem ((hspread.settled hsettled).reachable hspread.all hr)
        obtain ⟨user, hmet, hstep⟩ := h'.led (hspread.settled hsettled) rest x hx' hmem hrest
        refine ⟨user, List.mem_append_left _ hmet, hstep.imp (List.mem_append_right _) ?_⟩
        rintro ⟨y, hy, hstep⟩
        exact ⟨y, List.mem_append_left _ hy, hstep⟩

/-- A run is traced, spreads from what its steps expand, and meets elements where it comes to them
first. -/
def Orders (s : SchemaSet) (steps : List Step) (m : Collect Unit) : Prop :=
  ∀ c, Ensures m c (fun _ c' => Spread s (expands steps) c c' ∧
    ∃ met, Traced s steps c c' met ∧ Firsts s steps c met) fun _ _ => True

theorem Orders.of_none {m : Collect Unit} (hcovers : Covers s (expands a) m) (htraces : Traces s a m)
    (h : expands a = []) : Orders s a m := by
  intro c
  refine ((hcovers.spread c).and (htraces c)).mono (fun _ c' hc' => ?_) fun _ _ _ => trivial
  obtain ⟨hspread, met, htraced⟩ := hc'
  exact ⟨hspread, met, htraced, .of_none h⟩

theorem Orders.andThen {m m' : Collect Unit} (h : Orders s a m) (h' : Orders s b m') :
    Orders s (a ++ b) (do m; m') := by
  intro c
  refine (h c).bind fun _ c₁ hc₁ => (h' c₁).mono (fun _ c₂ hc₂ => ?_) fun _ _ _ => trivial
  obtain ⟨hspread, met, htraced, hfirsts⟩ := hc₁
  obtain ⟨hspread', met', htraced', hfirsts'⟩ := hc₂
  refine ⟨?_, met' ++ met, htraced.andThen htraced', hfirsts.andThen hfirsts' htraced hspread⟩
  rw [expands_append]
  exact hspread.andThen hspread'

theorem composes_orders (s : SchemaSet) : Composes (Orders s) where
  nothing := .of_none (composes_covers s).nothing (composes_traces s).nothing rfl
  aside f h := .of_none ((composes_covers s).aside f h) ((composes_traces s).aside f h) rfl
  note x := .of_none ((composes_covers s).note x) ((composes_traces s).note x) rfl
  edge source target := .of_none ((composes_covers s).edge source target)
    ((composes_traces s).edge source target) rfl
  stop f := .of_none ((composes_covers s).stop f) ((composes_traces s).stop f) rfl
  andThen := .andThen

/-- An element that is new is met right where it is to be expanded. -/
theorem orders_expandFrom (hw : s.Walkable) (fuel : Nat) (e : ElementId) (user : NodeName) :
    Orders s [.expand e user] (expandFrom s [] fuel e user) := by
  intro c
  have hmeets : Ensures (expandFrom s [] fuel e user) c (fun _ c' => ∃ met,
      Traced s [.expand e user] c c' met ∧ (e ∉ c.expanded → (e, user) ∈ met)) fun _ _ => True := by
    cases fuel with
    | zero => exact ensures_throw.2 trivial
    | succ fuel =>
      unfold expandFrom
      refine ensures_bind.2 (ensures_get.2 ?_)
      by_cases hmet : e ∈ c.expanded
      · rw [if_pos (List.contains_iff_mem.2 hmet)]
        exact ensures_pure.2 ⟨[], .skip e user, fun hnew => absurd hmet hnew⟩
      · rw [if_neg fun h => hmet (List.contains_iff_mem.1 h)]
        refine ensures_bind.2 (ensures_modify.2 ?_)
        have hsteps := (composes_traces s).perform (traces_expandFrom fuel) (meetingSteps s (e, user))
        refine (hsteps _).mono (fun _ c' hc' => ?_) fun _ _ _ => trivial
        obtain ⟨met, htraced⟩ := hc'
        exact ⟨_, htraced.enter, fun _ => List.mem_append_right _ (List.mem_singleton_self _)⟩
  have hrun := ((covers_expandFrom hw fuel e user).spread c).and hmeets
  refine hrun.mono (fun _ c' hc' => ?_) fun _ _ _ => trivial
  obtain ⟨hspread, met, htraced, hmet⟩ := hc'
  exact ⟨hspread, met, htraced, .single (x := (e, user)) hmet⟩

theorem orders_visitAll (hw : s.Walkable) (groups : Bool) :
    Orders s (startSteps s groups) (visitAll s groups) :=
  (composes_orders s).visitAll (orders_expandFrom hw _) groups s.documents

/-- What a whole run has collected, with the places where it came to elements first. -/
theorem collect_firsts (hw : s.Walkable) (groups : Bool) :
    (collect s groups).2 = .ok () ∧ ∃ met, Trace s groups (collect s groups).1 met ∧
      Firsts s (startSteps s groups) {} met := by
  obtain ⟨hok, _, htrace⟩ := collect_trace hw groups
  have hnodup := htrace.nodup
  have hreaches := htrace.reaches
  have hrun := orders_visitAll hw groups {}
  refine ⟨hok, ?_⟩
  clear htrace
  unfold Ensures at hrun
  unfold collect at hok hnodup hreaches ⊢
  split at hrun <;> rename_i heq <;> rw [heq] at hok hnodup hreaches ⊢
  · obtain ⟨-, met, htraced, hfirsts⟩ := hrun
    have hmet := htraced.expanded
    rw [List.append_nil] at hmet
    exact ⟨met, ⟨hmet, hnodup, htraced.edges, htraced.origin, hreaches⟩, hfirsts⟩
  · cases hok

end Firsts

/-! ## Bodies of groups -/

section Bodies

variable {s : SchemaSet} {met : List Meeting} {c : Collection} {g : GroupId} {p : ElementId}

/-- The elements in the body of a group, from left to right. -/
def bodyLeaves (d : Declarations) (g : GroupId) : List ElementId :=
  (d.group g).particle.toList.flatMap Node.leaves

/-- What a run starts with when it goes through some documents, and then through some groups of the
next one and the elements `leaves` from the body of a further group. -/
def earlier (s : SchemaSet) (docs : List Document) (gs : List GroupId) (leaves : List ElementId) :
    List ElementId :=
  (docs.flatMap fun doc => doc.groups.flatMap (bodyLeaves s.declared) ++ doc.elements) ++
    (gs.flatMap (bodyLeaves s.declared) ++ leaves)

theorem steps_group (hd : s.declared.Closed) (user : NodeName) (g : GroupId) :
    steps s.declared [] user (.group g) = (s.declared.group g).particle.toList.flatMap
      fun n => n.atoms.flatMap (atomSteps (s.declared.group g).name) := by
  have hbound : 2 * openingBound s.declared =
      2 * (s.declared.complexTypes.size + s.declared.groups.size) + 3 + 1 := by
    unfold openingBound
    omega
  rw [steps, hbound, stepsFrom, nodeSteps, sighting?_nil, notedOr]
  rcases hparticle : (s.declared.group g).particle with _ | n
  · rfl
  · simp [stepsFrom_content (hd.group g n hparticle).2]

theorem expands_atomSteps (user : NodeName) (as : List Node) :
    expands (as.flatMap (atomSteps user)) = as.filterMap Node.element? := by
  rw [expands_flatMap, List.filterMap_eq_flatMap_toList]
  refine List.flatMap_congr fun a _ => ?_
  cases a with
  | groupRef q o =>
    by_cases huser : isNamed user <;> simp [expands, atomSteps, use, huser, Step.element?, Node.element?]
  | _ => rfl

theorem expands_group (hd : s.declared.Closed) (user : NodeName) (g : GroupId) :
    expands (steps s.declared [] user (.group g)) = bodyLeaves s.declared g := by
  rw [steps_group hd, expands_flatMap, bodyLeaves]
  exact List.flatMap_congr fun n _ => expands_atomSteps _ _

theorem expands_documentSteps_groups (hd : s.declared.Closed) (doc : Document) :
    expands (documentSteps s true doc) =
      doc.groups.flatMap (bodyLeaves s.declared) ++ doc.elements := by
  simp [documentSteps, expands_append, expands_flatMap, expands_group hd, expands_steps_element]

/-- A run comes to each element in the body of a group of a document, on account of the group. -/
theorem exists_comesAfter (hd : s.declared.Closed) {docs docs' : List Document} {doc : Document}
    (hdoc : s.documents = docs ++ doc :: docs') {gs gs' : List GroupId}
    (hg : doc.groups = gs ++ g :: gs') {n : Node} (hn : (s.declared.group g).particle = some n)
    {ls ls' : List ElementId} (hp : n.leaves = ls ++ p :: ls') :
    ∃ before, ComesAfter before (startSteps s true) (p, (s.declared.group g).name) ∧
      expands before = earlier s docs gs ls := by
  obtain ⟨as, rest, hatoms, has, hrest⟩ := List.filterMap_eq_append_iff.1 hp
  obtain ⟨as', a, as'', rfl, hnone, ha, -⟩ := List.filterMap_eq_cons_iff.1 hrest
  have hnone' : as'.filterMap Node.element? = [] := List.filterMap_eq_nil_iff.2 hnone
  have hstep : atomSteps (s.declared.group g).name a =
      [.expand p (s.declared.group g).name] := by
    cases a with
    | element e =>
      cases ha
      rfl
    | _ => cases ha
  let account := (s.declared.group g).name
  let body := (as ++ as').flatMap (atomSteps account)
  refine ⟨docs.flatMap (documentSteps s true) ++
    (gs.flatMap (fun g => steps s.declared [] none (.group g)) ++ body), ⟨as''.flatMap
      (atomSteps account) ++ (gs'.flatMap (fun g => steps s.declared [] none (.group g)) ++
        (doc.elements.flatMap (fun e => steps s.declared [] none (.element e)) ++
          docs'.flatMap (documentSteps s true))), ?_⟩, ?_⟩
  · have hgroup : steps s.declared [] none (.group g) =
        body ++ .expand p account :: as''.flatMap (atomSteps account) := by
      rw [steps_group hd, hn, Option.toList_some, List.flatMap_singleton, hatoms]
      simp [body, account, hstep]
    rw [startSteps, hdoc, List.flatMap_append, List.flatMap_cons, documentSteps, if_pos rfl, hg,
      List.flatMap_append, List.flatMap_cons, hgroup]
    simp [account]
  · have hbody : expands body = ls := by
      rw [expands_atomSteps, List.filterMap_append, has, hnone', List.append_nil]
    simp only [expands_append, expands_flatMap, expands_documentSteps_groups hd, expands_group hd,
      hbody, earlier]

/-- What stands in the body of a group does not stand at the top of a document. -/
theorem not_top_of_body (hw : s.Walkable) {n : Node} (hn : (s.declared.group g).particle = some n)
    (hp : p ∈ n.leaves) : p ∉ s.documents.flatMap (·.elements) := by
  obtain ⟨a, ha, hleaf⟩ := List.mem_filterMap.1 hp
  have helement : a = .element p := by
    cases a with
    | element e =>
      cases hleaf
      rfl
    | _ => cases hleaf
  have hlocal := ((hw.closed.nested.group g n hn).atoms a ha).2 p helement
  intro htop
  obtain ⟨doc, hdoc, hmem⟩ := List.mem_flatMap.1 htop
  rw [(hw.closed.documents doc hdoc).isGlobal p hmem] at hlocal
  cases hlocal

/-- What an element leads to is at the top, or in content that counts for its account. -/
theorem ElementStep.expand_owned (hw : s.Walkable) {f : ElementId} {user user' : NodeName}
    (h : ElementStep s user' f (.expand p user)) (hp : p ∉ s.documents.flatMap (·.elements)) :
    ∃ x n, Owns s x n ∧ p ∈ n.leaves ∧ x.name s.declared = user ∧ ∀ g, x ≠ .group g := by
  cases h with
  | target ref found => exact absurd (top_of_element? hw found).1 hp
  | head noRef named found => exact absurd (top_of_element? hw found).1 hp
  | named noRef noInline type named step => exact step.expand_owned (.own named) p user rfl
  | nameless noRef type nameless step =>
    exact step.expand_owned (.element noRef type nameless) p user rfl

/-- How a reference in the body of a group is recorded by a run that starts with `before` and then
comes to it: from the group, or from an element or a type whose content it was met in. -/
structure Recorded (s : SchemaSet) (edges : List (Edge NodeName)) (before : List ElementId)
    (g : GroupId) (p r : ElementId) (account : NodeName) : Prop where
  edge : isNamed account → ⟨account, (s.declared.element r).name⟩ ∈ edges
  own : ¬ Reachable s before p → account = (s.declared.group g).name
  lent : Reachable s before p → p ∉ before → ∃ x n, Owns s x n ∧ p ∈ n.leaves ∧
    x.name s.declared = account ∧ ∀ g', x ≠ .group g'

/-- Collecting with the groups succeeds, and each reference in the body of a group is recorded once,
with an edge to the element it refers to: from the group, unless something that the run starts with
earlier leads to this reference, and otherwise from an element or a type with the content in which it
was met. -/
theorem bodies_recorded (h : s.Loaded) :
    let run := collect s true
    run.2 = .ok () ∧ ∃ account : ElementId → NodeName,
      run.1.edges.Perm (records (startSteps s true) ++
        run.1.expanded.flatMap fun e => records (meetingSteps s (e, account e))) ∧
      run.1.expanded.Nodup ∧
      ∀ docs doc docs', s.documents = docs ++ doc :: docs' →
        ∀ gs g gs', doc.groups = gs ++ g :: gs' → ∀ n ∈ (s.declared.group g).particle,
          ∀ ls p ls', n.leaves = ls ++ p :: ls' → ∀ q ∈ (s.declared.element p).ref,
            ∃ r, s.element? q = some r ∧ p ∈ run.1.expanded ∧
              Recorded s run.1.edges (earlier s docs gs ls) g p r (account p) := by
  intro run
  have hw := h.isLinked.walkable
  obtain ⟨hok, met, htrace, hfirsts⟩ := collect_firsts hw true
  obtain ⟨account, haccount⟩ := htrace.exists_accounts
  refine ⟨hok, account, ?_, htrace.nodup, fun docs doc docs' hdoc gs g gs' hg n hn ls p ls' hp q hq => ?_⟩
  · have hsame : ∀ x ∈ met, records (meetingSteps s x) =
        records (meetingSteps s (x.1, account x.1)) := fun x hx => by rw [haccount x hx]
    rw [htrace.expanded, List.flatMap_map, ← List.flatMap_congr hsame]
    exact htrace.edges
  · obtain ⟨r, hr⟩ := found_reference hw hq
    have hleaf : p ∈ n.leaves := hp ▸ List.mem_append_right _ List.mem_cons_self
    obtain ⟨before, hcomes, hbefore⟩ := exists_comesAfter hw.closed.declared hdoc hg hn hp
    have hreach : Reachable s (expands (startSteps s true)) p := .top hcomes.mem_expands
    obtain ⟨user, hmet⟩ := htrace.met_of_reachable hreach
    refine ⟨r, hr, (htrace.reaches p).2 hreach, fun hnamed => ?_, fun hnot => ?_, fun hr hnew => ?_⟩
    · rw [haccount _ hmet] at hnamed ⊢
      exact htrace.mem_edges.2 (.inr ⟨_, hmet, (ElementStep.use hq hr hnamed).mem hw⟩)
    · rw [← hbefore] at hnot
      exact haccount _ (hfirsts.fresh before _ hcomes List.not_mem_nil hnot)
    · rw [← hbefore] at hr hnew
      obtain ⟨user, hmet, hstep⟩ := hfirsts.led nofun before _ hcomes List.not_mem_nil hr
      rw [haccount _ hmet]
      rcases hstep with hstep | ⟨y, -, hstep⟩
      · exact absurd (mem_expands.2 ⟨user, hstep⟩) hnew
      · exact (elementStep_of_mem hw hstep).expand_owned hw (not_top_of_body hw hn hleaf)

/-- The element `a` in the body of `g` has the body of `h` in its content. -/
def lentText : String :=
  "<s:schema xmlns:s=\"" ++ xsSpace ++ "\">" ++
    "<s:group name=\"g\"><s:sequence><s:element ref=\"a\"/></s:sequence></s:group>" ++
    "<s:group name=\"h\"><s:sequence><s:element ref=\"b\"/></s:sequence></s:group>" ++
    "<s:element name=\"a\"><s:complexType><s:group ref=\"h\"/></s:complexType></s:element>" ++
    "<s:element name=\"b\"/></s:schema>"

def lent : SchemaSet := .ofText lentText

theorem lent_facts : (Loader.ofText lentText).2 = .ok () ∧ UniqueGroups lent ∧
    lent.documents.map (·.groups) = [[0, 1]] ∧
    (lent.declared.group 0).particle.map Node.leaves = some [0] ∧
    (lent.declared.group 0).name = some "g" ∧
    (lent.declared.element 0).ref = some ⟨"", some "a"⟩ ∧
    lent.element? ⟨"", some "a"⟩ = some 2 ∧ (lent.declared.element 2).name = some "a" := by
  rw [lent, SchemaSet.ofText_eq, Loader.ofText_eq]
  decide +kernel

theorem lent_loaded : lent.Loaded := SchemaSet.loaded_ofText lent_facts.1

/-- The first reference of the first group is recorded from the group. -/
theorem lent_first_recorded : lent.Loaded ∧
    ⟨some "g", some "a"⟩ ∈ (collect lent true).1.edges := by
  obtain ⟨-, -, hgroups, hleaves, hname, href, hfound, htarget⟩ := lent_facts
  obtain ⟨-, account, -, -, hrecorded⟩ := bodies_recorded lent_loaded
  obtain ⟨doc, docs', hdoc, hdocGroups, -⟩ := List.map_eq_cons_iff.1 hgroups
  obtain ⟨n, hn, hp⟩ := Option.map_eq_some_iff.1 hleaves
  obtain ⟨r, hr, -, hedge⟩ := hrecorded [] doc docs' hdoc [] 0 [1] hdocGroups n hn [] 0 [] hp _ href
  have hown := hedge.own not_reachable_nil
  rw [hfound, Option.some.injEq] at hr
  have hmem := hedge.edge (by rw [hown, hname]; decide)
  rw [hown, hname, ← hr, htarget] at hmem
  exact ⟨lent_loaded, hmem⟩

/-- An edge from each group to each element that is referred to in its body. -/
def RecordsBodies (s : SchemaSet) (edges : List (Edge NodeName)) : Prop :=
  ∀ doc ∈ s.documents, ∀ g ∈ doc.groups, ∀ n ∈ (s.declared.group g).particle, ∀ p ∈ n.leaves,
    ∀ q ∈ (s.declared.element p).ref, ∀ r, s.element? q = some r →
      ⟨(s.declared.group g).name, (s.declared.element r).name⟩ ∈ edges

theorem lent_edges :
    ofSchemaSet lent true =
      .ok [⟨some "g", some "a"⟩, ⟨some "a", some "h"⟩, ⟨some "a", some "b"⟩] ∧
    (lent.declared.group 1).particle.map Node.leaves = some [1] ∧
    (lent.declared.group 1).name = some "h" ∧
    (lent.declared.element 1).ref = some ⟨"", some "b"⟩ ∧
    lent.element? ⟨"", some "b"⟩ = some 3 ∧ (lent.declared.element 3).name = some "b" := by
  rw [lent, SchemaSet.ofText_eq]
  decide +kernel

/-- The reference in the body of `h` is recorded from `a`, which leads to it. -/
theorem lent_body_not_recorded : lent.Loaded ∧ UniqueGroups lent ∧
    ¬ ∃ edges, ofSchemaSet lent true = .ok edges ∧ RecordsBodies lent edges := by
  refine ⟨lent_loaded, lent_facts.2.1, ?_⟩
  rintro ⟨edges, hbuilt, hrecords⟩
  obtain ⟨-, -, hgroups, -⟩ := lent_facts
  obtain ⟨hedges, hleaves, hname, href, hfound, htarget⟩ := lent_edges
  obtain ⟨doc, docs', hdoc, hdocGroups, -⟩ := List.map_eq_cons_iff.1 hgroups
  obtain ⟨n, hn, hp⟩ := Option.map_eq_some_iff.1 hleaves
  have hedge := hrecords doc (hdoc ▸ List.mem_cons_self) 1 (hdocGroups ▸ by decide) n hn 1
    (hp ▸ List.mem_cons_self) _ href _ hfound
  rw [hedges, Except.ok.injEq] at hbuilt
  rw [← hbuilt, hname, htarget] at hedge
  exact absurd hedge (by decide)

end Bodies
end Dependencies
end Graph
end SchemaPaths
