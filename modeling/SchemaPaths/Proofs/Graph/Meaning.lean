/-
What the edges stand for.

An edge has only names at its ends.  Behind them are an element, a type or a group that uses another
one: as the head of its substitution group, as its type or base, or in its content.  What is in the
content of a type counts for the type, or for the element whose type it is if the type has no name.
Main statement: there is such a use behind every edge, if the content of a base with an empty name
counts for the type that derives from it, which need not have that content itself.
-/
import SchemaPaths.Proofs.Graph.Tracing

namespace SchemaPaths
namespace Graph
namespace Dependencies

open Schema Walk

/-- What can stand behind the ends of an edge. -/
inductive Item where
  | element (e : ElementId)
  | type (t : TypeRef)
  | group (g : GroupId)
deriving DecidableEq

def Item.name (d : Declarations) : Item → NodeName
  | .element e => (d.element e).name
  | .type t => d.typeName t
  | .group g => (d.group g).name

/-- An element or a group that is found under a name, or a type at the top of a document. -/
inductive Item.IsGlobal (s : SchemaSet) : Item → Prop
  | element {q : QName} {e : ElementId} (found : s.element? q = some e) : IsGlobal s (.element e)
  | type {doc : Document} {t : TypeRef} (read : doc ∈ s.documents) (top : t ∈ doc.types)
      (declared : s.declared.isBuiltin t = false) : IsGlobal s (.type t)
  | group {q : QName} {g : GroupId} (found : s.group? q = some g) : IsGlobal s (.group g)

/-- The content of an item itself, as declared and as linked.  An element has the content of a type
without a name. -/
inductive ContentOf (s : SchemaSet) : Item → Node → Prop
  | type {i : ComplexId} {n : Node} (holds : InType s.declared i n) :
      ContentOf s (.type (.complex (.declared i))) n
  | element {e : ElementId} {i : ComplexId} {n : Node} (noRef : (s.declared.element e).ref = none)
      (type : (s.declared.element e).inline.or (s.declared.element e).type =
        some (.complex (.declared i)))
      (nameless : ¬ isNamed (s.declared.complexType i).name) (holds : InType s.declared i n) :
      ContentOf s (.element e) n
  | group {doc : Document} {g : GroupId} {n : Node} (read : doc ∈ s.documents)
      (top : g ∈ doc.groups) (particle : (s.declared.group g).particle = some n) :
      ContentOf s (.group g) n

/-- The content that counts for an item: its own and, for a type with a name, that of a base without
one. -/
inductive Owns (s : SchemaSet) : Item → Node → Prop
  | own {x : Item} {n : Node} (content : ContentOf s x n) : Owns s x n
  | base {i j : ComplexId} {n : Node} (named : isNamed (s.declared.complexType i).name)
      (base : (s.declared.complexType i).base = some (.complex (.declared j)))
      (nameless : ¬ isNamed (s.declared.complexType j).name) (holds : InType s.declared j n) :
      Owns s (.type (.complex (.declared i))) n

/-- How one item uses another directly, for a view of what content items have. -/
inductive Uses (s : SchemaSet) (content : Item → Node → Prop) : Item → Item → Prop
  | head {e h : ElementId} {q : QName} (noRef : (s.declared.element e).ref = none)
      (named : (s.declared.element e).substitution = some q) (found : s.element? q = some h) :
      Uses s content (.element e) (.element h)
  | type {e : ElementId} {t : TypeRef} (noRef : (s.declared.element e).ref = none)
      (noInline : (s.declared.element e).inline = none)
      (type : (s.declared.element e).type = some t) (declared : s.declared.isBuiltin t = false)
      (named : isNamed (s.declared.typeName t)) : Uses s content (.element e) (.type t)
  | base {i j : ComplexId}
      (base : (s.declared.complexType i).base = some (.complex (.declared j))) :
      Uses s content (.type (.complex (.declared i))) (.type (.complex (.declared j)))
  | reference {x : Item} {n : Node} {f r : ElementId} {q : QName} (holds : content x n)
      (leaf : f ∈ n.leaves) (ref : (s.declared.element f).ref = some q)
      (found : s.element? q = some r) : Uses s content x (.element r)
  | group {x : Item} {n : Node} {q : QName} {g : GroupId} (holds : content x n)
      (mention : q ∈ n.groupNames) (found : s.group? q = some g) : Uses s content x (.group g)

/-- What a name uses: what an item of this name uses, except that a type and a base of the same name
are one, and the groups that its content mentions, found or not. -/
inductive NameUses (s : SchemaSet) : NodeName → NodeName → Prop
  | item {x y : Item} (uses : Uses s (Owns s) x y)
      (other : ∀ t u, x = .type t → y = .type u → x.name s.declared ≠ y.name s.declared) :
      NameUses s (x.name s.declared) (y.name s.declared)
  | mention {x : Item} {n : Node} {q : QName} (holds : Owns s x n) (mention : q ∈ n.groupNames) :
      NameUses s (x.name s.declared) q.name

/-! ## Accounts -/

/-- On whose account a type is walked through: its own, that of a type derived from it, or that of an
element if it has no name. -/
inductive Accounts (s : SchemaSet) : NodeName → TypeRef → Prop
  | own {t : TypeRef} (named : isNamed (s.declared.typeName t)) :
      Accounts s (s.declared.typeName t) t
  | derived {i : ComplexId} {t : TypeRef} (named : isNamed (s.declared.complexType i).name)
      (base : (s.declared.complexType i).base = some t) :
      Accounts s (s.declared.complexType i).name t
  | element {e : ElementId} {t : TypeRef} (noRef : (s.declared.element e).ref = none)
      (type : (s.declared.element e).inline.or (s.declared.element e).type = some t)
      (nameless : ¬ isNamed (s.declared.typeName t)) : Accounts s (s.declared.element e).name t

section Accounts

variable {s : SchemaSet} {user : NodeName}

/-- The content of a type counts for an item of the name that it is walked through on account of. -/
theorem Accounts.owner {i : ComplexId} {n : Node} (h : Accounts s user (.complex (.declared i)))
    (holds : InType s.declared i n) : ∃ x, Owns s x n ∧
      x.name s.declared = account (s.declared.complexType i) user ∧ ∀ g, x ≠ .group g := by
  unfold account
  by_cases hnamed : isNamed (s.declared.complexType i).name
  · rw [if_pos hnamed]
    exact ⟨.type (.complex (.declared i)), .own (.type holds), rfl, nofun⟩
  · rw [if_neg hnamed]
    cases h with
    | own named => exact absurd named hnamed
    | @derived j _ named base =>
      exact ⟨.type (.complex (.declared j)), .base named base hnamed holds, rfl, nofun⟩
    | @element e _ noRef type nameless =>
      exact ⟨.element e, .own (.element noRef type hnamed holds), rfl, nofun⟩

/-- The edges that a type gives rise to. -/
theorem TypeStep.nameUses {t : TypeRef} {x : Step} (h : TypeStep s.declared user t x) :
    Accounts s user t → ∀ a b, x = .edge a b → NameUses s a b := by
  induction h with
  | @content user i n a x holds atom step =>
    rintro hacc a b rfl
    obtain ⟨q, hq, -, rfl, rfl⟩ := mem_atomSteps_edge.1 step
    obtain ⟨x, howns, hname, -⟩ := hacc.owner holds
    rw [← hname]
    exact .mention howns (List.mem_filterMap.2 ⟨_, atom, hq⟩)
  | @edge user i named used other =>
    rintro hacc a b hx
    cases hx
    cases hacc with
    | own => exact absurd rfl other
    | @derived j _ _ base =>
      refine .item (x := .type (.complex (.declared j))) (y := .type (.complex (.declared i)))
        (.base base) fun _ _ _ _ => other
    | element _ _ nameless => exact absurd named nameless
  | base named base _ ih => exact fun _ => ih (.derived named base)

/-- The elements that a type leads to stand in content that counts for their account. -/
theorem TypeStep.expand_owned {t : TypeRef} {x : Step} (h : TypeStep s.declared user t x) :
    Accounts s user t → ∀ e user', x = .expand e user' →
      ∃ x n, Owns s x n ∧ e ∈ n.leaves ∧ x.name s.declared = user' ∧ ∀ g, x ≠ .group g := by
  induction h with
  | @content user i n a x holds atom step =>
    rintro hacc e user' rfl
    obtain ⟨helement, rfl⟩ := mem_atomSteps_expand.1 step
    obtain ⟨x, howns, hname, hno⟩ := hacc.owner holds
    exact ⟨x, n, howns, List.mem_filterMap.2 ⟨_, atom, helement⟩, hname, hno⟩
  | edge => exact fun _ => nofun
  | base named base _ ih => exact fun _ => ih (.derived named base)

end Accounts

/-! ## Whole runs -/

section Runs

variable {s : SchemaSet} {groups : Bool} {c : Collection} {met : List Meeting}

theorem mem_startSteps {x : Step} : x ∈ startSteps s groups ↔ ∃ doc ∈ s.documents,
    (groups = true ∧ ∃ g ∈ doc.groups, x ∈ steps s.declared [] none (.group g)) ∨
      ∃ e ∈ doc.elements, x = .expand e none := by
  unfold startSteps documentSteps
  cases groups <;> simp [steps_element]

/-- The content of the groups is walked through when a run starts with them. -/
theorem group_step (hw : s.Walkable) {x : Step} {doc : Document} {g : GroupId}
    (hdoc : doc ∈ s.documents) (hg : g ∈ doc.groups)
    (hx : x ∈ steps s.declared [] none (.group g)) : ∃ n, Owns s (.group g) n ∧
      ∃ a ∈ n.atoms, x ∈ atomSteps (s.declared.group g).name a := by
  obtain ⟨n, hn, hsteps⟩ := (mem_steps_group hw.closed.declared none g).1 hx
  exact ⟨n, .own (.group hdoc hg hn), hsteps⟩

/-- An element is met at the top of a document, on nobody's account, or in content that counts for
its account. -/
theorem Trace.met_owned (h : Trace s groups c met) (hw : s.Walkable) {e : ElementId}
    {user : NodeName} (hx : (e, user) ∈ met) :
    (user = none ∧ e ∈ s.documents.flatMap (·.elements)) ∨
      ∃ x n, Owns s x n ∧ e ∈ n.leaves ∧ x.name s.declared = user ∧
        (groups = false → ∀ g, x ≠ .group g) := by
  rcases h.origin_cases hw hx with hstart | ⟨f, user', step⟩
  · obtain ⟨doc, hdoc, ⟨hgroups, g, hg, hstep⟩ | ⟨f, hf, hstep⟩⟩ := mem_startSteps.1 hstart
    · obtain ⟨n, howns, a, ha, hstep⟩ := group_step hw hdoc hg hstep
      obtain ⟨helement, rfl⟩ := mem_atomSteps_expand.1 hstep
      have hleaf : e ∈ n.leaves := List.mem_filterMap.2 ⟨a, ha, helement⟩
      exact .inr ⟨.group g, n, howns, hleaf, rfl, fun hno => by simp [hno] at hgroups⟩
    · cases hstep
      exact .inl ⟨rfl, List.mem_flatMap.2 ⟨doc, hdoc, hf⟩⟩
  · have howned : ∀ {account : NodeName} {t : TypeRef}, Accounts s account t →
        TypeStep s.declared account t (.expand e user) → ∃ x n, Owns s x n ∧ e ∈ n.leaves ∧
          x.name s.declared = user ∧ (groups = false → ∀ g, x ≠ .group g) := by
      intro account t hacc step
      obtain ⟨x, n, howns, hleaf, hname, hno⟩ := step.expand_owned hacc e user rfl
      exact ⟨x, n, howns, hleaf, hname, fun _ => hno⟩
    cases step with
    | target ref found => exact .inl ⟨rfl, (top_of_element? hw found).1⟩
    | head noRef named found => exact .inl ⟨rfl, (top_of_element? hw found).1⟩
    | named noRef noInline type named step => exact .inr (howned (.own named) step)
    | nameless noRef type nameless step => exact .inr (howned (.element noRef type nameless) step)

/-- Edges stand for uses, as far as their names say. -/
theorem Trace.nameUses (h : Trace s groups c met) (hw : s.Walkable) {a b : NodeName}
    (hedge : ⟨a, b⟩ ∈ c.edges) : NameUses s a b := by
  rcases h.mem_edges.1 hedge with hstart | ⟨⟨e, user⟩, hx, hstep⟩
  · obtain ⟨doc, hdoc, ⟨-, g, hg, hstep⟩ | ⟨f, -, hstep⟩⟩ := mem_startSteps.1 hstart
    · obtain ⟨n, howns, atom, hatom, hstep⟩ := group_step hw hdoc hg hstep
      obtain ⟨q, hq, -, rfl, rfl⟩ := mem_atomSteps_edge.1 hstep
      exact .mention howns (List.mem_filterMap.2 ⟨atom, hatom, hq⟩)
    · cases hstep
  · cases elementStep_of_mem hw hstep with
    | use ref found used =>
      rcases h.met_owned hw hx with ⟨rfl, -⟩ | ⟨x, n, howns, hleaf, rfl, -⟩
      · cases used
      · exact .item (.reference howns hleaf ref found) fun _ _ _ => nofun
    | headEdge noRef named found => exact .item (.head noRef named found) nofun
    | typeEdge noRef noInline type own named => exact .item (.type noRef noInline type own named) nofun
    | named noRef noInline type named step => exact step.nameUses (.own named) _ _ rfl
    | nameless noRef type nameless step =>
      exact step.nameUses (.element noRef type nameless) _ _ rfl

/-! ## What is behind the names -/

/-- No two groups of a document or of two have the same name. -/
def UniqueGroups (s : SchemaSet) : Prop :=
  ∀ doc ∈ s.documents, ∀ g ∈ doc.groups, ∀ doc' ∈ s.documents, ∀ g' ∈ doc'.groups,
    doc.space = doc'.space → (s.declared.group g).name = (s.declared.group g').name → g = g'

instance (s : SchemaSet) : Decidable (UniqueGroups s) := inferInstanceAs (Decidable (∀ _ ∈ _, _))

/-- So each group can be found. -/
theorem UniqueGroups.found (hu : UniqueGroups s) (hw : s.Walkable) {doc : Document} {g : GroupId}
    (hdoc : doc ∈ s.documents) (hg : g ∈ doc.groups) :
    s.group? ⟨doc.space, (s.declared.group g).name⟩ = some g := by
  obtain ⟨g', hg'⟩ := Option.isSome_iff_exists.1 (hw.closed.filed.registered doc hdoc g hg)
  obtain ⟨doc', hdoc', htop, hq⟩ := hw.closed.filed.groups _ (Table.mem_of_find? hg')
  obtain ⟨hspace, hname⟩ : doc.space = doc'.space ∧
    (s.declared.group g).name = (s.declared.group g').name := by simpa using hq
  rw [hg', hu doc hdoc g hg doc' hdoc' g' htop hspace hname]

/-- The groups that content refers to can be found. -/
theorem Owns.found_group (hw : s.Walkable) (hu : UniqueGroups s) {x : Item} {n : Node} {q : QName}
    (h : Owns s x n) (mention : q ∈ n.groupNames) : ∃ g, s.group? q = some g := by
  have htype : ∀ {i : ComplexId}, InType s.declared i n → ∃ g, s.group? q = some g := by
    rintro i (hown | hlinked)
    · exact Option.isSome_iff_exists.1 (hw.ownGroups i n hown q mention)
    · obtain ⟨a, ha, hq⟩ := List.mem_filterMap.1 mention
      rw [hw.plain i n hlinked a ha] at hq
      cases hq
  cases h with
  | base _ _ _ holds => exact htype holds
  | own content =>
    cases content with
    | type holds => exact htype holds
    | element _ _ _ holds => exact htype holds
    | group read top particle =>
      have hfound := Table.mem_of_find? (hu.found hw read top)
      exact Option.isSome_iff_exists.1 (hw.innerGroups _ hfound n particle q mention)

theorem isDeclared_of_not_builtin {d : Declarations} {t : TypeRef} (h : d.isBuiltin t = false) :
    t.IsDeclared := by
  match t, h with
  | .simple (.declared _), _ => trivial
  | .complex (.declared _), _ => trivial

/-- What is used stands at the top. -/
theorem Uses.isGlobal (hw : s.Walkable) {content : Item → Node → Prop} {x y : Item}
    (h : Uses s content x y) : y.IsGlobal s := by
  cases h with
  | head _ _ found => exact .element found
  | @type e t _ _ type declared named =>
    have htop : s.IsTop t := by
      rcases hw.closed.given e t type with hnone | htop
      · simp [hnone, isNamed] at named
      · exact htop
    obtain ⟨doc, hdoc, hmem⟩ := htop (isDeclared_of_not_builtin declared)
    exact .type hdoc hmem declared
  | @base i j base =>
    obtain ⟨doc, hdoc, hmem⟩ := hw.base_top base
    exact .type hdoc hmem rfl
  | reference _ _ _ found => exact .element found
  | group _ _ found => exact .group found

theorem not_inType {d : Declarations} {i : ComplexId}
    (hown : (Linking.ownParticle (d.complexType i)).isNone)
    (hcontent : (d.complexType i).content.isNone) (n : Node) : ¬ InType d i n := by
  rintro (hn | hn)
  · simp [hn] at hown
  · simp [hn] at hcontent

/-- A type that has no content itself uses nothing that is no base. -/
theorem Uses.name_ne {a b : NodeName} (ha : a ≠ none) (hb : b ≠ none)
    (helements : ∀ e < s.declared.elements.size, (s.declared.element e).name ≠ a)
    (htypes : ∀ i < s.declared.complexTypes.size, (s.declared.complexType i).name ≠ b ∧
      ((s.declared.complexType i).name = a →
        (Linking.ownParticle (s.declared.complexType i)).isNone ∧
          (s.declared.complexType i).content.isNone))
    (hgroups : s.documents.flatMap (·.groups) = []) {x y : Item}
    (h : Uses s (ContentOf s) x y) (hx : x.name s.declared = a) :
    y.name s.declared ≠ b := by
  have helement : ∀ e, (s.declared.element e).name ≠ a := by
    intro e he
    rcases element_cases s.declared e with hlt | hnone
    · exact helements e hlt he
    · exact ha (by rw [← he, hnone])
  have hother : ∀ i, (s.declared.complexType i).name ≠ b := by
    intro i hname
    rcases complexType_cases s.declared i with hlt | hnone
    · exact (htypes i hlt).1 hname
    · exact hb (by rw [← hname, hnone])
  have htype : ∀ i, (s.declared.complexType i).name = a → ∀ n, ¬ InType s.declared i n := by
    intro i hname
    rcases complexType_cases s.declared i with hlt | hnone
    · obtain ⟨hown, hcontent⟩ := (htypes i hlt).2 hname
      exact not_inType hown hcontent
    · exact absurd (by rw [← hname, hnone]) ha
  have hcontent : ∀ n, ¬ ContentOf s x n := by
    intro n h
    cases h with
    | type holds => exact htype _ hx _ holds
    | element => exact helement _ hx
    | group read top =>
      have hmem := List.mem_flatMap.2 ⟨_, read, top⟩
      simp [hgroups] at hmem
  cases h with
  | head => exact absurd hx (helement _)
  | type => exact absurd hx (helement _)
  | base => exact hother _
  | reference holds => exact absurd holds (hcontent _)
  | group holds => exact absurd holds (hcontent _)

/-- Behind the names of an edge there is an item that uses a global one directly, where the content of
a base with an empty name counts for the type that derives from it. -/
theorem edges_are_uses (h : s.Loaded) (hu : UniqueGroups s) (groups : Bool) :
    ∃ edges, ofSchemaSet s groups = .ok edges ∧ ∀ a b, ⟨a, b⟩ ∈ edges →
      ∃ x y, Uses s (Owns s) x y ∧ y.IsGlobal s ∧ x.name s.declared = a ∧ y.name s.declared = b := by
  have hw := h.isLinked.walkable
  obtain ⟨c, met, hok, htrace⟩ := ofSchemaSet_trace hw groups
  refine ⟨c.edges, hok, fun a b hedge => ?_⟩
  cases htrace.nameUses hw hedge with
  | item uses _ => exact ⟨_, _, uses, uses.isGlobal hw, rfl, rfl⟩
  | @mention x n q holds mention =>
    obtain ⟨g, hg⟩ := holds.found_group hw hu mention
    have huses : Uses s (Owns s) x (.group g) := .group holds mention hg
    exact ⟨x, .group g, huses, huses.isGlobal hw, rfl, name_of_group? hw hg⟩

/-- The type `u` restricts a type with an empty name to nothing. -/
def hollowText : String :=
  "<s:schema xmlns:s=\"" ++ xsSpace ++ "\" xmlns:t=\"urn:t\" targetNamespace=\"urn:t\">" ++
    "<s:element name=\"a\" type=\"s:string\"/><s:complexType name=\"\"><s:sequence>" ++
    "<s:element ref=\"t:a\"/></s:sequence></s:complexType>" ++
    "<s:complexType name=\"u\"><s:complexContent><s:restriction base=\"t:\"/>" ++
    "</s:complexContent></s:complexType><s:element name=\"b\" type=\"t:u\"/></s:schema>"

def hollow : SchemaSet := .ofText hollowText

theorem hollow_facts : (Loader.ofText hollowText).2 = .ok () ∧ UniqueGroups hollow ∧
    (ofSchemaSet hollow false).toOption =
      some [⟨some "b", some "u"⟩, ⟨some "u", some "a"⟩] ∧
    (∀ e < hollow.declared.elements.size, (hollow.declared.element e).name ≠ some "u") ∧
    (∀ i < hollow.declared.complexTypes.size, (hollow.declared.complexType i).name ≠ some "a" ∧
      ((hollow.declared.complexType i).name = some "u" →
        (Linking.ownParticle (hollow.declared.complexType i)).isNone ∧
          (hollow.declared.complexType i).content.isNone)) ∧
    hollow.documents.flatMap (·.groups) = [] := by
  rw [hollow, SchemaSet.ofText_eq, Loader.ofText_eq]
  decide +kernel

theorem hollow_loaded : hollow.Loaded := SchemaSet.loaded_ofText hollow_facts.1

/-- With the content of the base it does. -/
theorem hollow_edges_are_uses : hollow.Loaded ∧ UniqueGroups hollow ∧
    ∃ edges, ofSchemaSet hollow false = .ok edges ∧ ∀ a b, ⟨a, b⟩ ∈ edges →
      ∃ x y, Uses hollow (Owns hollow) x y ∧ y.IsGlobal hollow ∧
        x.name hollow.declared = a ∧ y.name hollow.declared = b :=
  ⟨hollow_loaded, hollow_facts.2.1, edges_are_uses hollow_loaded hollow_facts.2.1 false⟩

/-- The edge from `u` to `a` stands for no use in the content of `u` itself. -/
theorem hollow_edge_unjustified : hollow.Loaded ∧ UniqueGroups hollow ∧
    (ofSchemaSet hollow false).toOption =
      some [⟨some "b", some "u"⟩, ⟨some "u", some "a"⟩] ∧
    ¬ ∃ x y, Uses hollow (ContentOf hollow) x y ∧ y.IsGlobal hollow ∧
      x.name hollow.declared = some "u" ∧ y.name hollow.declared = some "a" := by
  obtain ⟨-, hunique, hedges, helements, htypes, hgroups⟩ := hollow_facts
  refine ⟨hollow_loaded, hunique, hedges, ?_⟩
  rintro ⟨x, y, huses, -, hx, hy⟩
  have hu : some "u" ≠ none := Option.some_ne_none _
  have ha : some "a" ≠ none := Option.some_ne_none _
  exact huses.name_ne hu ha helements htypes hgroups hx hy

end Runs
end Dependencies
end Graph
end SchemaPaths
