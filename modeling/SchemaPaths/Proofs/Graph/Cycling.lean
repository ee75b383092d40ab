/-
What a cycle that a strict order fails at stands for.

Edges connect names, so declarations of one name are one node, and a cycle of edges need not be one of
declarations.  Main statement: it is a cycle of names, each of which some declaration of that name
uses.  Where the uses of names have no cycle, a strict order is found.
-/
import SchemaPaths.Proofs.Graph.Meaning
import SchemaPaths.Proofs.Graph.Ordering

namespace SchemaPaths
namespace Graph
namespace Dependencies

open Schema Relation

/-! ## Elements with types that have no content -/

/-- Nothing is there but elements and types without content. -/
structure Bare (s : SchemaSet) : Prop where
  element : ∀ e < s.declared.elements.size, (s.declared.element e).substitution = none
  type : ∀ i < s.declared.complexTypes.size,
    (Linking.ownParticle (s.declared.complexType i)).isNone ∧
      (s.declared.complexType i).content.isNone ∧ (s.declared.complexType i).base = some anyType
  group : s.documents.flatMap (·.groups) = []

instance (s : SchemaSet) : Decidable (Bare s) :=
  decidable_of_iff ((∀ e < s.declared.elements.size, (s.declared.element e).substitution = none) ∧
    (∀ i < s.declared.complexTypes.size,
      (Linking.ownParticle (s.declared.complexType i)).isNone ∧
        (s.declared.complexType i).content.isNone ∧
        (s.declared.complexType i).base = some anyType) ∧ s.documents.flatMap (·.groups) = [])
    ⟨fun h => ⟨h.1, h.2.1, h.2.2⟩, fun h => ⟨h.element, h.type, h.group⟩⟩

namespace Bare

variable {s : SchemaSet} {x y : Item}

theorem no_content (h : Bare s) (i : ComplexId) (n : Node) : ¬ InType s.declared i n := by
  rcases complexType_cases s.declared i with hi | hnone
  · obtain ⟨hown, hcontent, -⟩ := h.type i hi
    exact not_inType hown hcontent n
  · exact not_inType (by rw [hnone]; rfl) (by rw [hnone]; rfl) n

theorem not_owns (h : Bare s) (n : Node) : ¬ Owns s x n := by
  rintro (⟨holds | ⟨-, -, -, holds⟩ | ⟨read, top, -⟩⟩ | ⟨-, -, -, holds⟩)
  · exact h.no_content _ n holds
  · exact h.no_content _ n holds
  · have hmem := List.mem_flatMap.2 ⟨_, read, top⟩
    simp [h.group] at hmem
  · exact h.no_content _ n holds

/-- All that is used is types, by elements. -/
theorem uses (h : Bare s) {content : Item → Node → Prop} (hc : ∀ x n, content x n → Owns s x n)
    (huses : Uses s content x y) :
    ∃ e t, x = .element e ∧ y = .type t ∧ (s.declared.element e).type = some t := by
  cases huses with
  | @head e _ q noRef named found =>
    rcases element_cases s.declared e with he | hnone
    · rw [h.element e he] at named
      cases named
    · rw [hnone] at named
      cases named
  | @type e t _ _ type => exact ⟨e, t, rfl, rfl, type⟩
  | @base i j base =>
    rcases complexType_cases s.declared i with hi | hnone
    · rw [(h.type i hi).2.2] at base
      cases base
    · rw [hnone] at base
      cases base
  | reference holds => exact absurd (hc _ _ holds) (h.not_owns _)
  | group holds => exact absurd (hc _ _ holds) (h.not_owns _)

/-- No item uses itself over others. -/
theorem acyclic (h : Bare s) : ∀ x, ¬ TransGen (Uses s (ContentOf s)) x x := by
  intro x hcycle
  have hc : ∀ x n, ContentOf s x n → Owns s x n := fun _ _ => .own
  obtain ⟨y, hfirst, -⟩ := TransGen.head'_iff.1 hcycle
  obtain ⟨z, -, hlast⟩ := TransGen.tail'_iff.1 hcycle
  obtain ⟨e, -, rfl, -⟩ := h.uses hc hfirst
  obtain ⟨-, t, -, hx, -⟩ := h.uses hc hlast
  cases hx

/-- Nor does a name, if elements and types share none. -/
theorem acyclic_names (h : Bare s) {a b : NodeName} (hab : a ≠ b)
    (hnames : ∀ e < s.declared.elements.size, ∀ t ∈ (s.declared.element e).type,
      (s.declared.element e).name = a ∧ s.declared.typeName t = b) :
    ∀ x, ¬ TransGen (NameUses s) x x := by
  have hstep : ∀ x y, NameUses s x y → x = a ∧ y = b := by
    intro x y huse
    cases huse with
    | item huses _ =>
      obtain ⟨e, t, rfl, rfl, htype⟩ := h.uses (fun _ _ => id) huses
      rcases element_cases s.declared e with he | hnone
      · exact hnames e he t htype
      · rw [hnone] at htype
        cases htype
    | mention holds => exact absurd holds (h.not_owns _)
  intro x hcycle
  obtain ⟨y, hfirst, -⟩ := TransGen.head'_iff.1 hcycle
  obtain ⟨z, -, hlast⟩ := TransGen.tail'_iff.1 hcycle
  exact hab ((hstep _ _ hfirst).1.symm.trans (hstep _ _ hlast).2)

end Bare

/-! ## Cycles of edges -/

section Cycles

variable {s : SchemaSet} {groups : Bool} {c : Collection} {met : List Meeting} {a b : NodeName}

theorem Trace.cycle_of_names (h : Trace s groups c met) (hw : s.Walkable)
    (hcycle : OnCycle c.edges a) : TransGen (NameUses s) a a :=
  TransGen.mono (fun _ _ => h.nameUses hw) _ _ hcycle

theorem sortedDependencies_cases (es : List (Edge NodeName)) :
    (∃ d, sortedDependencies true es = .error d ∧ OnCycle es d) ∨
      ∃ order, sortedDependencies true es = .ok order := by
  unfold sortedDependencies
  rcases sort_cases true es with ⟨d, hd, -, hcycle⟩ | ⟨order, hok, -⟩
  · rw [hd]
    exact .inl ⟨d, rfl, hcycle⟩
  · rw [hok]
    exact .inr ⟨order.reverse, rfl⟩

/-- A name at which a strict order fails uses itself over the uses of other names, so there is a
strict order if no name does. -/
theorem reported_cycle_of_names (h : s.Loaded) (groups : Bool) :
    ∃ edges, ofSchemaSet s groups = .ok edges ∧
      (∀ d, sortedDependencies true edges = .error d → TransGen (NameUses s) d d) ∧
      ((∀ a, ¬ TransGen (NameUses s) a a) → ∃ order, sortedDependencies true edges = .ok order) := by
  have hw := h.isLinked.walkable
  obtain ⟨c, met, hok, htrace⟩ := ofSchemaSet_trace hw groups
  refine ⟨c.edges, hok, fun d hd => ?_, fun hacyclic => ?_⟩
  · rcases sortedDependencies_cases c.edges with ⟨d', hd', hcycle⟩ | ⟨order, horder⟩
    · rw [hd] at hd'
      cases hd'
      exact htrace.cycle_of_names hw hcycle
    · rw [hd] at horder
      cases horder
  · rcases sortedDependencies_cases c.edges with ⟨d, -, hcycle⟩ | horder
    · exact absurd (htrace.cycle_of_names hw hcycle) (hacyclic d)
    · exact horder

/-- The one element and its type have different names. -/
def pairText : String :=
  "<s:schema xmlns:s=\"" ++ xsSpace ++ "\"><s:element name=\"a\" type=\"t\"/>" ++
    "<s:complexType name=\"t\"/></s:schema>"

def pair : SchemaSet := .ofText pairText

theorem pair_facts : (Loader.ofText pairText).2 = .ok () ∧ Bare pair ∧
    ∀ e < pair.declared.elements.size, ∀ t ∈ (pair.declared.element e).type,
      (pair.declared.element e).name = some "a" ∧ pair.declared.typeName t = some "t" := by
  rw [pair, SchemaSet.ofText_eq, Loader.ofText_eq]
  decide +kernel

theorem pair_loaded : pair.Loaded := SchemaSet.loaded_ofText pair_facts.1

theorem pair_order : pair.Loaded ∧ (∀ a, ¬ TransGen (NameUses pair) a a) ∧
    ∃ edges order, ofSchemaSet pair false = .ok edges ∧
      sortedDependencies true edges = .ok order := by
  obtain ⟨-, hbare, hnames⟩ := pair_facts
  have hacyclic := hbare.acyclic_names (by decide) hnames
  obtain ⟨edges, hedges, -, hsorts⟩ := reported_cycle_of_names pair_loaded false
  obtain ⟨order, horder⟩ := hsorts hacyclic
  exact ⟨pair_loaded, hacyclic, edges, order, hedges, horder⟩

/-- An element and its type have the same name. -/
def twinsText : String :=
  "<s:schema xmlns:s=\"" ++ xsSpace ++ "\"><s:element name=\"a\" type=\"a\"/>" ++
    "<s:complexType name=\"a\"/></s:schema>"

def twins : SchemaSet := .ofText twinsText

theorem twins_facts : (Loader.ofText twinsText).2 = .ok () ∧ Bare twins ∧
    ∀ groups, (ofSchemaSet twins groups).toOption = some [⟨some "a", some "a"⟩] := by
  rw [twins, SchemaSet.ofText_eq, Loader.ofText_eq]
  decide +kernel

theorem twins_loaded : twins.Loaded := SchemaSet.loaded_ofText twins_facts.1

/-- No item uses itself, but the names of the only edge are the same, and a strict order fails. -/
theorem twins_cycle : twins.Loaded ∧
    (∀ x, ¬ TransGen (Uses twins (ContentOf twins)) x x) ∧
    ∀ groups, (ofSchemaSet twins groups).toOption = some [⟨some "a", some "a"⟩] ∧
      sortedDependencies true [⟨some "a", some "a"⟩] = .error (some "a") := by
  obtain ⟨-, hbare, hedges⟩ := twins_facts
  exact ⟨twins_loaded, hbare.acyclic, fun groups => ⟨hedges groups, by decide⟩⟩

end Cycles
end Dependencies
end Graph
end SchemaPaths
