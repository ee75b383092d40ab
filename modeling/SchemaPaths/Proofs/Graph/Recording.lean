/-
Which edges a run records.

The graph has an edge for the head that an element names, for the named type that it has, and for the
bases and groups that the named types behind it use, as soon as the element can be reached.  What a
single meeting adds to the edges is known, too: a reference that stands in content adds one edge, from
the account that it was met on to the element it refers to.
-/
import SchemaPaths.Proofs.Graph.Tracing

namespace SchemaPaths
namespace Graph
namespace Dependencies

open Schema Walk

/-- The complex types behind a type: itself and, through types that have names, its bases. -/
inductive Ancestor (d : Declarations) : TypeRef → ComplexId → Prop
  | self (i : ComplexId) : Ancestor d (.complex (.declared i)) i
  | base {i j : ComplexId} {b : TypeRef} (named : isNamed (d.complexType i).name)
      (base : (d.complexType i).base = some b) (further : Ancestor d b j) :
      Ancestor d (.complex (.declared i)) j

/-- No element and no type at the top of a document has an empty name or none. -/
structure NoBlankNames (s : SchemaSet) : Prop where
  element : ∀ e < s.declared.elements.size, isNamed (s.declared.element e).name
  type : ∀ doc ∈ s.documents, ∀ t ∈ doc.types, isNamed (s.declared.typeName t)

instance (s : SchemaSet) : Decidable (NoBlankNames s) :=
  decidable_of_iff ((∀ e < s.declared.elements.size, isNamed (s.declared.element e).name) ∧
    ∀ doc ∈ s.documents, ∀ t ∈ doc.types, isNamed (s.declared.typeName t))
    ⟨fun h => ⟨h.1, h.2⟩, fun h => ⟨h.element, h.type⟩⟩

/-- The edges for what an element that is no reference names: its head and its type, and the bases and
groups that the complex types behind that type name. -/
structure DirectEdges (s : SchemaSet) (edges : List (Edge NodeName)) (e : ElementId) : Prop where
  head : ∀ q ∈ (s.declared.element e).substitution, ∃ h, s.element? q = some h ∧
    ⟨(s.declared.element e).name, (s.declared.element h).name⟩ ∈ edges
  type : ∀ t ∈ (s.declared.element e).type, (s.declared.element e).inline = none →
    isNamed (s.declared.typeName t) → s.declared.isBuiltin t = false →
      ⟨(s.declared.element e).name, s.declared.typeName t⟩ ∈ edges
  base : ∀ t ∈ (s.declared.element e).inline.or (s.declared.element e).type,
    ∀ i, Ancestor s.declared t i → isNamed (s.declared.complexType i).name →
      ∀ j, (s.declared.complexType i).base = some (.complex (.declared j)) →
        (s.declared.complexType j).name ≠ (s.declared.complexType i).name →
          ⟨(s.declared.complexType i).name, (s.declared.complexType j).name⟩ ∈ edges
  group : ∀ t ∈ (s.declared.element e).inline.or (s.declared.element e).type,
    ∀ i, Ancestor s.declared t i → isNamed (s.declared.complexType i).name →
      ∀ n ∈ Linking.ownParticle (s.declared.complexType i), ∀ q ∈ n.groupNames,
        ∃ g, s.group? q = some g ∧
          ⟨(s.declared.complexType i).name, (s.declared.group g).name⟩ ∈ edges

/-! ## What types and elements do on any account -/

section Steps

variable {s : SchemaSet} {d : Declarations} {x : Step}

theorem Ancestor.typeStep {t : TypeRef} {i : ComplexId} (h : Ancestor d t i)
    (step : ∀ user, TypeStep d user (.complex (.declared i)) x) : ∀ user, TypeStep d user t x := by
  induction h with
  | self => exact step
  | base named base _ ih => exact fun user => .base named base (ih step _)

theorem Ancestor.elementStep (hw : s.Walkable) {e : ElementId} {t : TypeRef} {i : ComplexId}
    (h : Ancestor s.declared t i) (noRef : (s.declared.element e).ref = none)
    (type : (s.declared.element e).inline.or (s.declared.element e).type = some t)
    (step : ∀ user, TypeStep s.declared user (.complex (.declared i)) x) (user : NodeName) :
    ElementStep s user e x := by
  obtain ⟨account, hwalked⟩ := exists_account hw noRef type
  exact hwalked user x (h.typeStep step account)

theorem typeStep_base {i j : ComplexId} (named : isNamed (d.complexType i).name)
    (base : (d.complexType i).base = some (.complex (.declared j)))
    (namedBase : isNamed (d.complexType j).name)
    (other : (d.complexType j).name ≠ (d.complexType i).name) (user : NodeName) :
    TypeStep d user (.complex (.declared i))
      (.edge (d.complexType i).name (d.complexType j).name) :=
  .base named base (.edge namedBase named other.symm)

theorem typeStep_group {i : ComplexId} {n : Node} {q : QName}
    (named : isNamed (d.complexType i).name)
    (own : Linking.ownParticle (d.complexType i) = some n) (mention : q ∈ n.groupNames)
    (user : NodeName) :
    TypeStep d user (.complex (.declared i)) (.edge (d.complexType i).name q.name) := by
  obtain ⟨a, ha, hname⟩ := List.mem_filterMap.1 mention
  have haccount : account (d.complexType i) user = (d.complexType i).name := if_pos named
  refine .content (.inl own) ha ?_
  rw [haccount, mem_atomSteps_edge]
  exact ⟨q, hname, named, rfl, rfl⟩

end Steps

/-! ## Accounts -/

section Accounts

variable {s : SchemaSet} {groups : Bool} {c : Collection} {met : List Meeting}

theorem expands_startSteps (s : SchemaSet) :
    expands (startSteps s false) = s.documents.flatMap (·.elements) := by
  simp only [startSteps, expands_flatMap, expands_documentSteps]

theorem records_startSteps (s : SchemaSet) : records (startSteps s false) = [] := by
  unfold records
  rw [List.filterMap_eq_nil_iff]
  intro x hx
  simp only [startSteps, documentSteps, steps_element, Bool.false_eq_true, if_false,
    List.nil_append, List.mem_flatMap, List.mem_singleton] at hx
  obtain ⟨doc, -, e, -, rfl⟩ := hx
  rfl

theorem TypeStep.named_account {d : Declarations} {user : NodeName} {t : TypeRef} {x : Step}
    (h : TypeStep d user t x) : isNamed user → ∀ e user', x = .expand e user' → isNamed user' := by
  induction h with
  | @content user i n a x holds atom step =>
    rintro huser e user' rfl
    rw [(mem_atomSteps_expand.1 step).2, account]
    by_cases hnamed : isNamed (d.complexType i).name <;> simp [hnamed, huser]
  | edge =>
    rintro - e user' h
    cases h
  | base named _ _ ih => exact fun _ => ih named

/-- What stands in content is met on the account of something that has a name. -/
theorem Trace.named_account (h : Trace s false c met) (hw : s.Walkable) (hn : NoBlankNames s)
    {e : ElementId} {user : NodeName} (hx : (e, user) ∈ met)
    (he : e ∉ s.documents.flatMap (·.elements)) : isNamed user := by
  rcases h.origin_cases hw hx with hstart | ⟨f, user', step⟩
  · have htop : e ∈ expands (startSteps s false) := mem_expands.2 ⟨user, hstart⟩
    rw [expands_startSteps] at htop
    exact absurd htop he
  · cases step with
    | target ref found => exact absurd (top_of_element? hw found).1 he
    | head noRef named found => exact absurd (top_of_element? hw found).1 he
    | named noRef noInline type named step => exact step.named_account named e user rfl
    | nameless noRef type nameless step =>
      rcases element_cases s.declared f with hf | hnone
      · exact step.named_account (hn.element f hf) e user rfl
      · simp [hnone] at type

/-- Elements are expanded once, so each has one account. -/
theorem Trace.exists_accounts (h : Trace s groups c met) :
    ∃ account : ElementId → NodeName, ∀ x ∈ met, account x.1 = x.2 := by
  have hkeys : (met.map Prod.fst).Nodup := h.expanded ▸ h.nodup
  have hone : ∀ e, ∃ user, ∀ x ∈ met, x.1 = e → x.2 = user := by
    intro e
    by_cases he : ∃ x ∈ met, x.1 = e
    · obtain ⟨x, hx, rfl⟩ := he
      refine ⟨x.2, fun y hy hfst => ?_⟩
      rw [List.inj_on_of_nodup_map hkeys hy hx hfst]
    · exact ⟨none, fun x hx hfst => absurd ⟨x, hx, hfst⟩ he⟩
  choose account haccount using hone
  exact ⟨account, fun x hx => (haccount x.1 x hx rfl).symm⟩

end Accounts

/-! ## Direct dependencies -/

section Direct

variable {s : SchemaSet} {c : Collection} {met : List Meeting}

theorem Trace.directEdges (h : Trace s false c met) (hw : s.Walkable) (hn : NoBlankNames s)
    {e : ElementId} (he : Reachable s (s.documents.flatMap (·.elements)) e)
    (noRef : (s.declared.element e).ref = none) : DirectEdges s c.edges e := by
  rw [← expands_startSteps] at he
  refine ⟨fun q hq => ?_, fun t ht noInline named own => ?_,
    fun t ht i hi named j hj other => ?_, fun t ht i hi named n own q hq => ?_⟩
  · obtain ⟨r, hr⟩ := found_head hw noRef hq
    exact ⟨r, hr, h.edge_of_step hw he fun _ => .headEdge noRef hq hr⟩
  · exact h.edge_of_step hw he fun _ => .typeEdge noRef noInline ht own named
  · obtain ⟨doc, hdoc, hmem⟩ := hw.base_top hj
    have hnamed : isNamed (s.declared.complexType j).name := hn.type doc hdoc _ hmem
    exact h.edge_of_step hw he (hi.elementStep hw noRef ht (typeStep_base named hj hnamed other))
  · obtain ⟨g, hg⟩ := Option.isSome_iff_exists.1 (hw.ownGroups i n own q hq)
    refine ⟨g, hg, ?_⟩
    rw [name_of_group? hw hg]
    exact h.edge_of_step hw he (hi.elementStep hw noRef ht (typeStep_group named own hq))

/-- Collecting succeeds and records an edge for each direct dependency of the elements that can be
reached from the top.  The edges are those recorded when the elements are expanded, each on one
account, and a reference in content records one edge, to the element it refers to. -/
theorem direct_dependencies_recorded (h : s.Loaded) (hn : NoBlankNames s) :
    let top := s.documents.flatMap (·.elements)
    let run := collect s false
    run.2 = .ok () ∧
      (∀ e, Reachable s top e → (s.declared.element e).ref = none →
        DirectEdges s run.1.edges e) ∧
      run.1.expanded.Nodup ∧ (∀ e, e ∈ run.1.expanded ↔ Reachable s top e) ∧
      ∃ account : ElementId → NodeName,
        run.1.edges.Perm
          (run.1.expanded.flatMap fun e => records (meetingSteps s (e, account e))) ∧
        ∀ e, Reachable s top e → e ∉ top → ∀ q ∈ (s.declared.element e).ref,
          ∃ r, s.element? q = some r ∧ isNamed (account e) ∧
            records (meetingSteps s (e, account e)) =
              [⟨account e, (s.declared.element r).name⟩] := by
  intro top run
  have hw := h.isLinked.walkable
  obtain ⟨hok, met, htrace⟩ := collect_trace hw false
  have hreaches := htrace.reaches
  rw [expands_startSteps] at hreaches
  obtain ⟨account, haccount⟩ := htrace.exists_accounts
  refine ⟨hok, fun e he => htrace.directEdges hw hn he, htrace.nodup, hreaches, account, ?_,
    fun e he hlocal q hq => ?_⟩
  · have hsame : ∀ x ∈ met, records (meetingSteps s x) =
        records (meetingSteps s (x.1, account x.1)) := fun x hx => by rw [haccount x hx]
    have hedges := htrace.edges
    rw [records_startSteps, List.nil_append, List.flatMap_congr hsame] at hedges
    rw [htrace.expanded, List.flatMap_map]
    exact hedges
  · obtain ⟨r, hr⟩ := found_reference hw hq
    obtain ⟨user, hx⟩ := htrace.met_of_reachable (by rwa [expands_startSteps])
    have huser : account e = user := haccount _ hx
    have hnamed : isNamed (account e) := huser ▸ htrace.named_account hw hn hx hlocal
    refine ⟨r, hr, hnamed, ?_⟩
    have hsteps : meetingSteps s (e, account e) =
        [.edge (account e) (s.declared.element r).name, .expand r none] := by
      have href : (s.declared.element e).ref = some q := hq
      simp [meetingSteps, elementSteps, href, referenceSteps_found hr, use, hnamed]
    rw [hsteps]
    rfl

/-- The element `b` can be substituted for `a`, and its type `u` extends that of `a` by a group. -/
def familyText : String :=
  "<s:schema xmlns:s=\"" ++ xsSpace ++ "\"><s:element name=\"a\" type=\"t\"/>" ++
    "<s:element name=\"b\" type=\"u\" substitutionGroup=\"a\"/>" ++
    "<s:complexType name=\"t\"/><s:complexType name=\"u\"><s:complexContent>" ++
    "<s:extension base=\"t\"><s:group ref=\"g\"/></s:extension></s:complexContent></s:complexType>" ++
    "<s:group name=\"g\"><s:sequence><s:element ref=\"a\"/></s:sequence></s:group></s:schema>"

def family : SchemaSet := .ofText familyText

theorem family_facts : (Loader.ofText familyText).2 = .ok () ∧ NoBlankNames family ∧
    family.documents.flatMap (·.elements) = [0, 1] ∧ (family.declared.element 1).ref = none ∧
    2 ∈ (collect family false).1.expanded ∧
    (family.declared.element 2).ref = some ⟨"", some "a"⟩ ∧
    family.element? ⟨"", some "a"⟩ = some 0 ∧ (family.declared.element 0).name = some "a" := by
  rw [family, SchemaSet.ofText_eq, Loader.ofText_eq]
  decide +kernel

theorem family_loaded : family.Loaded := SchemaSet.loaded_ofText family_facts.1

/-- All that `b` depends on is recorded, and one edge to `a` for the reference in the group. -/
theorem family_dependencies : family.Loaded ∧ NoBlankNames family ∧
    DirectEdges family (collect family false).1.edges 1 ∧
    ∃ user, isNamed user ∧ records (meetingSteps family (2, user)) = [⟨user, some "a"⟩] := by
  obtain ⟨-, hnamed, htop, hplain, hmet, href, hfound, hname⟩ := family_facts
  obtain ⟨-, hdirect, -, hreach, account, -, hone⟩ :=
    direct_dependencies_recorded family_loaded hnamed
  have hlocal : 2 ∉ family.documents.flatMap (·.elements) := by rw [htop]; decide
  have hfirst : 1 ∈ family.documents.flatMap (·.elements) := by rw [htop]; decide
  obtain ⟨r, hr, huser, hsteps⟩ := hone 2 ((hreach 2).1 hmet) hlocal _ href
  rw [hfound, Option.some.injEq] at hr
  rw [← hr, hname] at hsteps
  exact ⟨family_loaded, hnamed, hdirect 1 (.top hfirst) hplain, account 2, huser, hsteps⟩

end Direct
end Dependencies
end Graph
end SchemaPaths
