/-
The steps of a walk that collects dependencies.

A walk that watches nothing is told here by rules, without fuel and without the order of its steps:
`TypeStep` has the steps that a type gives rise to on somebody's account, and `ElementStep` those of
an element.  Both are exact on sets that walks can go through.
-/
import SchemaPaths.Graph.Dependencies
import SchemaPaths.Proofs.Walk.Walkable

namespace SchemaPaths
namespace Graph
namespace Dependencies

open Schema Walk

/-! ## Content -/

/-- The steps for what content is made of. -/
def atomSteps (user : NodeName) : Node → List Step
  | .element e => [.expand e user]
  | .groupRef q _ => use user q.name
  | _ => []

theorem mem_use {x : Step} {user target : NodeName} :
    x ∈ use user target ↔ isNamed user ∧ x = .edge user target := by
  unfold use
  by_cases h : isNamed user <;> simp [h]

theorem mem_atomSteps_edge {n : Node} {user a b : NodeName} :
    .edge a b ∈ atomSteps user n ↔
      ∃ q, n.groupName? = some q ∧ isNamed user ∧ a = user ∧ b = q.name := by
  cases n with
  | groupRef q o => simp [atomSteps, Node.groupName?, mem_use]
  | _ => simp [atomSteps, Node.groupName?]

section Content

variable {d : Declarations} {opened : NodeName → Node → List Step} {user : NodeName}

mutual

theorem nodeSteps_eq_atoms : ∀ n : Node, (∀ a ∈ n.atoms, d.extent.HasAtom a) →
    nodeSteps d [] opened user n = n.atoms.flatMap (atomSteps user)
  | .sequence _ _ _ items, h => by
    rw [nodeSteps, sighting?_nil, notedOr, Node.atoms]
    exact listSteps_eq_atoms items h
  | .choice _ _ items, h => by
    rw [nodeSteps, sighting?_nil, notedOr, Node.atoms]
    exact listSteps_eq_atoms items h
  | .element e, _ => by simp [nodeSteps, sighting?_nil, notedOr, Node.atoms, atomSteps]
  | .any .., _ => by simp [nodeSteps, sighting?_nil, notedOr, Node.atoms, atomSteps]
  | .groupRef q _, _ => by simp [nodeSteps, sighting?_nil, notedOr, Node.atoms, atomSteps]
  | .attr _, h => (h _ (List.mem_singleton_self _)).elim
  | .type _, h => (h _ (List.mem_singleton_self _)).elim
  | .content .., h => (h _ (List.mem_singleton_self _)).elim
  | .derivation .., h => (h _ (List.mem_singleton_self _)).elim
  | .group _, h => (h _ (List.mem_singleton_self _)).elim
  | .unknown .., h => (h _ (List.mem_singleton_self _)).elim

theorem listSteps_eq_atoms : ∀ ns : List Node, (∀ a ∈ Node.atomsOf ns, d.extent.HasAtom a) →
    listSteps d [] opened user ns = (Node.atomsOf ns).flatMap (atomSteps user)
  | [], _ => rfl
  | n :: ns, h => by
    rw [Node.atomsOf, List.forall_mem_append] at h
    rw [listSteps, nodeSteps_eq_atoms n h.1, listSteps_eq_atoms ns h.2, Node.atomsOf,
      List.flatMap_append]

end

end Content

/-! ## Types -/

/-- The particles of a complex type, as declared and as linked. -/
def InType (d : Declarations) (i : ComplexId) (n : Node) : Prop :=
  Linking.ownParticle (d.complexType i) = some n ∨ (d.complexType i).content = some n

/-- On whose account the content of a complex type is walked through: on its own if it has a name. -/
def account (c : ComplexType) (user : NodeName) : NodeName := if isNamed c.name then c.name else user

/-- The steps from a type on, on account of a user. -/
inductive TypeStep (d : Declarations) : NodeName → TypeRef → Step → Prop
  | content {user : NodeName} {i : ComplexId} {n a : Node} {x : Step} (holds : InType d i n)
      (atom : a ∈ n.atoms) (step : x ∈ atomSteps (account (d.complexType i) user) a) :
      TypeStep d user (.complex (.declared i)) x
  | edge {user : NodeName} {i : ComplexId} (named : isNamed (d.complexType i).name)
      (used : isNamed user) (other : user ≠ (d.complexType i).name) :
      TypeStep d user (.complex (.declared i)) (.edge user (d.complexType i).name)
  | base {user : NodeName} {i : ComplexId} {b : TypeRef} {x : Step}
      (named : isNamed (d.complexType i).name) (base : (d.complexType i).base = some b)
      (step : TypeStep d (d.complexType i).name b x) :
      TypeStep d user (.complex (.declared i)) x

section Types

variable {d : Declarations} {user : NodeName} {fuel : Nat} {x : Step}

theorem InType.hasContent (hd : d.Closed) {i : ComplexId} {n : Node} (h : InType d i n) :
    d.extent.HasContent n := by
  rcases h with h | h
  · exact ((hd.complexType i).own n h).2
  · exact (hd.complexType i).content n h

theorem stepsFrom_content {n : Node} (hn : d.extent.HasContent n) (hfuel : 0 < fuel) :
    stepsFrom d [] fuel user n = n.atoms.flatMap (atomSteps user) := by
  obtain ⟨fuel, rfl⟩ := Nat.exists_eq_add_one.2 hfuel
  exact nodeSteps_eq_atoms n hn.atoms

/-- A type that is not a declared complex one gives rise to no steps. -/
theorem mem_steps_undeclared {t : TypeRef} (ht : ∀ i, t ≠ .complex (.declared i))
    (hfuel : 0 < fuel) :
    x ∈ stepsFrom d [] fuel user (.type t) ↔ TypeStep d user t x := by
  obtain ⟨fuel, rfl⟩ := Nat.exists_eq_add_one.2 hfuel
  have hrule : ¬ TypeStep d user t x := by
    intro h
    cases h <;> exact ht _ rfl
  have hnone : stepsFrom d [] (fuel + 1) user (.type t) = [] := by
    match t with
    | .simple _ => simp [stepsFrom, nodeSteps, sighting?_nil, notedOr]
    | .complex .anyType =>
      simp [stepsFrom, nodeSteps, sighting?_nil, notedOr, typeSteps, Declarations.complex,
        Declarations.ofAnyType]
    | .complex (.declared i) => exact absurd rfl (ht i)
  rw [hnone]
  exact iff_of_false List.not_mem_nil hrule

/-- The content that a type declares is opened with its model around it, if it has one. -/
theorem mem_declaredSteps (hd : d.Closed) (i : ComplexId) (hfuel : 1 < fuel) :
    x ∈ (match (d.complexType i).model with
      | some m => stepsFrom d [] fuel user (.content m.simple m.particle)
      | none => (d.complexType i).particle.toList.flatMap (stepsFrom d [] fuel user)) ↔
    ∃ n, Linking.ownParticle (d.complexType i) = some n ∧
      x ∈ n.atoms.flatMap (atomSteps user) := by
  have hown := (hd.complexType i).own
  unfold Linking.ownParticle at hown ⊢
  rcases hmodel : (d.complexType i).model with _ | m
  · simp only [hmodel] at hown ⊢
    rcases hparticle : (d.complexType i).particle with _ | n
    · simp
    · simp [stepsFrom_content (hown n hparticle).2 (Nat.zero_lt_of_lt hfuel)]
  · simp only [hmodel] at hown ⊢
    obtain ⟨fuel, rfl⟩ := Nat.exists_eq_add_one.2 (Nat.zero_lt_of_lt hfuel)
    rw [stepsFrom, nodeSteps, sighting?_nil, notedOr]
    rcases hparticle : m.particle with _ | n
    · simp [optionSteps]
    · simp [optionSteps, nodeSteps_eq_atoms n (hown n hparticle).2.atoms]

theorem mem_linkedSteps (hd : d.Closed) (i : ComplexId) (hfuel : 0 < fuel)
    (hlisted : (d.complexType i).content.isSome → (d.complexType i).contentType.hasElements) :
    (x ∈ if (d.complexType i).contentType.hasElements then
      (d.complexType i).content.toList.flatMap (stepsFrom d [] fuel user) else []) ↔
    ∃ n, (d.complexType i).content = some n ∧ x ∈ n.atoms.flatMap (atomSteps user) := by
  rcases hcontent : (d.complexType i).content with _ | n
  · simp
  · have hn := (hd.complexType i).content n hcontent
    have hlists := hlisted (by rw [hcontent]; rfl)
    simp [hlists, stepsFrom_content hn hfuel]

/-- A named type leads to itself and to its base first; then comes its content. -/
theorem mem_typeSteps (hd : d.Closed) {i : ComplexId} {b : TypeRef} (hfuel : 1 < fuel)
    (hb : (d.complexType i).base = some b)
    (hlisted : (d.complexType i).content.isSome → (d.complexType i).contentType.hasElements) :
    x ∈ typeSteps (d.complexType i) (stepsFrom d [] fuel) user ↔
      (isNamed (d.complexType i).name ∧
        ((user ≠ (d.complexType i).name ∧ x ∈ use user (d.complexType i).name) ∨
          x ∈ stepsFrom d [] fuel (d.complexType i).name (.type b))) ∨
      ∃ n, InType d i n ∧ x ∈ n.atoms.flatMap (atomSteps (account (d.complexType i) user)) := by
  have hcontent : (∃ n, InType d i n ∧
      x ∈ n.atoms.flatMap (atomSteps (account (d.complexType i) user))) ↔
      (∃ n, Linking.ownParticle (d.complexType i) = some n ∧
        x ∈ n.atoms.flatMap (atomSteps (account (d.complexType i) user))) ∨
      ∃ n, (d.complexType i).content = some n ∧
        x ∈ n.atoms.flatMap (atomSteps (account (d.complexType i) user)) := by
    simp only [InType, or_and_right, exists_or]
  have hfirst : x ∈ (if isNamed (d.complexType i).name then
      (if user != (d.complexType i).name then use user (d.complexType i).name else []) ++
        stepsFrom d [] fuel (account (d.complexType i) user) (.type b) else []) ↔
      isNamed (d.complexType i).name ∧
        ((user ≠ (d.complexType i).name ∧ x ∈ use user (d.complexType i).name) ∨
          x ∈ stepsFrom d [] fuel (d.complexType i).name (.type b)) := by
    by_cases hnamed : isNamed (d.complexType i).name
    · by_cases hsame : user = (d.complexType i).name <;> simp [account, hnamed, hsame]
    · simp [hnamed]
  rw [hcontent, ← hfirst, ← mem_declaredSteps hd i hfuel,
    ← mem_linkedSteps hd i (Nat.zero_lt_of_lt hfuel) hlisted, ← or_assoc]
  unfold typeSteps
  simp only [hb, Option.isSome_some, Bool.true_and, Option.map_some, Option.toList_some,
    List.flatMap_singleton]
  rw [List.mem_append, List.mem_append]
  rfl

end Types

section Walks

variable {s : SchemaSet} {x : Step}

/-- A walk with room for a type and all its bases takes the steps that the rules give. -/
theorem mem_steps_complex (hw : s.Walkable) (fuel : Nat) : ∀ (i : ComplexId) (user : NodeName),
    i < s.declared.complexTypes.size →
    rank (ComplexLink s.declared) s.declared.complexTypes.size i + 2 < fuel →
    (x ∈ stepsFrom s.declared [] fuel user (.type (.complex (.declared i))) ↔
      TypeStep s.declared user (.complex (.declared i)) x) := by
  induction fuel with
  | zero =>
    intro i user _ hfuel
    omega
  | succ fuel ih =>
    intro i user hi hfuel
    obtain ⟨b, hb, -⟩ := hw.base i hi
    have hbase : ∀ user, (x ∈ stepsFrom s.declared [] fuel user (.type b) ↔
        TypeStep s.declared user b x) := by
      intro user
      match b, hb with
      | .simple r, _ => exact mem_steps_undeclared nofun (by omega)
      | .complex .anyType, _ => exact mem_steps_undeclared nofun (by omega)
      | .complex (.declared j), hb =>
        have hj : j < s.declared.complexTypes.size := (hw.closed.declared.complexType i).base _ hb
        have hlink : ComplexLink s.declared i j := hb
        -- the chain of bases is shorter from `j`, so the fuel that is left is enough
        have hnearer := rank_lt_rank (hw.derives i) hlink hj
        exact ih j user hj (by omega)
    rw [stepsFrom, nodeSteps, sighting?_nil]
    show x ∈ typeSteps (s.declared.complexType i) _ user ↔ _
    rw [mem_typeSteps hw.closed.declared (by omega) hb (hw.listed i), hbase]
    constructor
    · rintro (⟨hnamed, ⟨hother, hx⟩ | hx⟩ | ⟨n, hn, hx⟩)
      · obtain ⟨huser, rfl⟩ := mem_use.1 hx
        exact .edge hnamed huser hother
      · exact .base hnamed hb hx
      · obtain ⟨a, ha, hx⟩ := List.mem_flatMap.1 hx
        exact .content hn ha hx
    · intro h
      cases h with
      | content holds atom step => exact .inr ⟨_, holds, List.mem_flatMap.2 ⟨_, atom, step⟩⟩
      | edge named user other => exact .inl ⟨named, .inl ⟨other, mem_use.2 ⟨user, rfl⟩⟩⟩
      | base named base step =>
        rw [hb] at base
        cases base
        exact .inl ⟨named, .inr step⟩

theorem mem_steps_type (hw : s.Walkable) {t : TypeRef} (ht : s.declared.extent.HasType t)
    (user : NodeName) :
    x ∈ steps s.declared [] user (.type t) ↔ TypeStep s.declared user t x := by
  unfold steps openingBound
  match t, ht with
  | .simple r, _ => exact mem_steps_undeclared nofun (by omega)
  | .complex .anyType, _ => exact mem_steps_undeclared nofun (by omega)
  | .complex (.declared i), hi =>
    have hi : i < s.declared.complexTypes.size := hi
    have hrank := rank_lt (hw.derives i) hi
    exact mem_steps_complex hw _ i user hi (by omega)

/-! ## Elements and groups -/

theorem steps_element (d : Declarations) (user : NodeName) (e : ElementId) :
    steps d [] user (.element e) = [.expand e user] := by
  have hbound : 2 * openingBound d = 2 * (d.complexTypes.size + d.groups.size) + 3 + 1 := by
    unfold openingBound
    omega
  rw [steps, hbound, stepsFrom, nodeSteps, sighting?_nil, notedOr]

/-- The content of a group is walked through on its own account. -/
theorem mem_steps_group (hd : s.declared.Closed) (user : NodeName) (g : GroupId) :
    x ∈ steps s.declared [] user (.group g) ↔ ∃ n, (s.declared.group g).particle = some n ∧
      ∃ a ∈ n.atoms, x ∈ atomSteps (s.declared.group g).name a := by
  have hbound : 2 * openingBound s.declared =
      2 * (s.declared.complexTypes.size + s.declared.groups.size) + 3 + 1 := by
    unfold openingBound
    omega
  rw [steps, hbound, stepsFrom, nodeSteps, sighting?_nil, notedOr]
  rcases hparticle : (s.declared.group g).particle with _ | n
  · simp
  · have hn := (hd.group g n hparticle).2
    simp [stepsFrom_content hn]

/-- The steps from an element that was met on account of a user.  What a reference and the head of a
substitution group lead to is met on nobody's account. -/
inductive ElementStep (s : SchemaSet) (user : NodeName) (e : ElementId) : Step → Prop
  | use {q : QName} {r : ElementId} (ref : (s.declared.element e).ref = some q)
      (found : s.element? q = some r) (used : isNamed user) :
      ElementStep s user e (.edge user (s.declared.element r).name)
  | target {q : QName} {r : ElementId} (ref : (s.declared.element e).ref = some q)
      (found : s.element? q = some r) : ElementStep s user e (.expand r none)
  | headEdge {q : QName} {h : ElementId} (noRef : (s.declared.element e).ref = none)
      (named : (s.declared.element e).substitution = some q) (found : s.element? q = some h) :
      ElementStep s user e (.edge (s.declared.element e).name (s.declared.element h).name)
  | head {q : QName} {h : ElementId} (noRef : (s.declared.element e).ref = none)
      (named : (s.declared.element e).substitution = some q) (found : s.element? q = some h) :
      ElementStep s user e (.expand h none)
  | typeEdge {t : TypeRef} (noRef : (s.declared.element e).ref = none)
      (noInline : (s.declared.element e).inline = none)
      (type : (s.declared.element e).type = some t) (own : s.declared.isBuiltin t = false)
      (named : isNamed (s.declared.typeName t)) :
      ElementStep s user e (.edge (s.declared.element e).name (s.declared.typeName t))
  | named {t : TypeRef} {x : Step} (noRef : (s.declared.element e).ref = none)
      (noInline : (s.declared.element e).inline = none)
      (type : (s.declared.element e).type = some t) (named : isNamed (s.declared.typeName t))
      (step : TypeStep s.declared (s.declared.typeName t) t x) : ElementStep s user e x
  | nameless {t : TypeRef} {x : Step} (noRef : (s.declared.element e).ref = none)
      (type : (s.declared.element e).inline.or (s.declared.element e).type = some t)
      (nameless : ¬ isNamed (s.declared.typeName t))
      (step : TypeStep s.declared (s.declared.element e).name t x) : ElementStep s user e x

theorem TypeStep.not_builtin {d : Declarations} {user : NodeName} {t : TypeRef}
    (h : TypeStep d user t x) : d.isBuiltin t = false := by
  cases h <;> rfl

/-- What elements name is found, whether or not they are declared. -/
theorem found_reference (hw : s.Walkable) {e : ElementId} {q : QName}
    (href : (s.declared.element e).ref = some q) : ∃ r, s.element? q = some r := by
  rcases element_cases s.declared e with he | hnone
  · exact Option.isSome_iff_exists.1 (hw.ref e he q href)
  · simp [hnone] at href

theorem found_head (hw : s.Walkable) {e : ElementId} {q : QName}
    (noRef : (s.declared.element e).ref = none)
    (hsub : (s.declared.element e).substitution = some q) : ∃ h, s.element? q = some h := by
  rcases element_cases s.declared e with he | hnone
  · exact Option.isSome_iff_exists.1 (hw.head e he noRef q hsub)
  · simp [hnone] at hsub

/-- What is found under a name stands at the top of a document, and has that name. -/
theorem top_of_element? (hw : s.Walkable) {q : QName} {r : ElementId} (hr : s.element? q = some r) :
    r ∈ s.documents.flatMap (·.elements) ∧ (s.declared.element r).name = q.name := by
  obtain ⟨doc, hdoc, hr', hq⟩ := hw.closed.filed.elements _ (Table.mem_of_find? hr)
  refine ⟨List.mem_flatMap.2 ⟨doc, hdoc, hr'⟩, ?_⟩
  rw [show q = _ from hq]

theorem name_of_group? (hw : s.Walkable) {q : QName} {g : GroupId} (hg : s.group? q = some g) :
    (s.declared.group g).name = q.name := by
  obtain ⟨doc, -, -, hq⟩ := hw.closed.filed.groups _ (Table.mem_of_find? hg)
  rw [show q = _ from hq]

theorem referenceSteps_found {q : QName} {r : ElementId} (hr : s.element? q = some r)
    (user : NodeName) : referenceSteps s [] user q =
      use user (s.declared.element r).name ++ [.expand r none] := by
  simp [referenceSteps, hr, steps_element]

theorem headSteps_found {q : QName} {h : ElementId} (hh : s.element? q = some h)
    (name : NodeName) : headSteps s [] name q =
      [.edge name (s.declared.element h).name, .expand h none] := by
  simp [headSteps, hh, steps_element]

/-- The type of an element that is no reference: the one written in it, or else the one linking has
found. -/
theorem ElementStep.of_type (hw : s.Walkable) {e : ElementId} {user : NodeName}
    (noRef : (s.declared.element e).ref = none)
    (h : x ∈ elementTypeSteps s.declared [] (s.declared.element e)) : ElementStep s user e x := by
  have hclosed := hw.closed.declared.element e
  have hnested := hw.closed.nested.element e
  unfold elementTypeSteps at h
  split at h
  · rename_i t hinline
    obtain ⟨htype, hname⟩ := hnested.inline t hinline
    have hnameless : ¬ isNamed (s.declared.typeName t) := by simp [hname, isNamed]
    have hor : (s.declared.element e).inline.or (s.declared.element e).type = some t := by
      simp [hinline]
    exact .nameless noRef hor hnameless ((mem_steps_type hw htype _).1 h)
  · cases h
  · rename_i t hinline htype
    have hrule : ∀ user, x ∈ steps s.declared [] user (.type t) → TypeStep s.declared user t x :=
      fun user => (mem_steps_type hw (hclosed.type t htype) user).1
    by_cases hnamed : isNamed (s.declared.typeName t)
    · by_cases hown : s.declared.isBuiltin t
      · simp only [hown, Bool.not_true, Bool.false_and, Bool.false_eq_true, if_false] at h
        have hdeclared := (hrule _ h).not_builtin
        simp [hown] at hdeclared
      · simp only [hown, hnamed, Bool.not_false, Bool.true_and, if_true, List.mem_cons] at h
        rcases h with rfl | h
        · exact .typeEdge noRef hinline htype (by simpa using hown) hnamed
        · exact .named noRef hinline htype hnamed (hrule _ h)
    · simp only [hnamed, Bool.and_false, Bool.false_eq_true, if_false] at h
      have hor : (s.declared.element e).inline.or (s.declared.element e).type = some t := by
        simp [hinline, htype]
      exact .nameless noRef hor hnamed (hrule _ h)

/-- Every step from an element is one by the rules. -/
theorem elementStep_of_mem (hw : s.Walkable) {user : NodeName} {e : ElementId}
    (h : x ∈ elementSteps s [] user (s.declared.element e)) : ElementStep s user e x := by
  unfold elementSteps at h
  rcases href : (s.declared.element e).ref with _ | q
  · simp only [href, List.mem_append, List.mem_flatMap, Option.mem_toList] at h
    rcases h with ⟨q, hq, h⟩ | h
    · obtain ⟨k, hk⟩ := found_head hw href hq
      rw [headSteps_found hk, List.mem_cons, List.mem_singleton] at h
      rcases h with rfl | rfl
      · exact .headEdge href hq hk
      · exact .head href hq hk
    · exact .of_type hw href h
  · obtain ⟨r, hr⟩ := found_reference hw href
    simp only [href, referenceSteps_found hr, List.mem_append, mem_use, List.mem_singleton] at h
    rcases h with ⟨hused, rfl⟩ | rfl
    · exact .use href hr hused
    · exact .target href hr

theorem ElementStep.mem (hw : s.Walkable) {user : NodeName} {e : ElementId}
    (h : ElementStep s user e x) : x ∈ elementSteps s [] user (s.declared.element e) := by
  have hclosed := hw.closed.declared.element e
  have hnested := hw.closed.nested.element e
  unfold elementSteps
  cases h with
  | use ref found used =>
    simp only [ref, referenceSteps_found found, List.mem_append, mem_use]
    exact .inl ⟨used, trivial⟩
  | target ref found =>
    simp [ref, referenceSteps_found found]
  | headEdge noRef named found =>
    simp [noRef, named, headSteps_found found]
  | head noRef named found =>
    simp [noRef, named, headSteps_found found]
  | typeEdge noRef noInline type own named =>
    simp [noRef, elementTypeSteps, noInline, type, own, named]
  | named noRef noInline type named step =>
    have hx := (mem_steps_type hw (hclosed.type _ type) _).2 step
    simp [noRef, elementTypeSteps, noInline, type, step.not_builtin, named, hx]
  | @nameless t x noRef type nameless step =>
    rcases hinline : (s.declared.element e).inline with _ | t'
    · have htype : (s.declared.element e).type = some t := by simpa [hinline] using type
      have hx := (mem_steps_type hw (hclosed.type _ htype) _).2 step
      simp [noRef, elementTypeSteps, hinline, htype, nameless, hx]
    · obtain rfl : t' = t := by simpa [hinline] using type
      have hx := (mem_steps_type hw (hclosed.inline _ hinline) _).2 step
      simp [noRef, elementTypeSteps, hinline, hx]

/-- The type of an element that is no reference is walked through, on one account or another. -/
theorem exists_account (hw : s.Walkable) {e : ElementId} {t : TypeRef}
    (noRef : (s.declared.element e).ref = none)
    (type : (s.declared.element e).inline.or (s.declared.element e).type = some t) :
    ∃ account, ∀ user x, TypeStep s.declared account t x → ElementStep s user e x := by
  by_cases hnamed : isNamed (s.declared.typeName t)
  · refine ⟨s.declared.typeName t, fun user x step => ?_⟩
    rcases hinline : (s.declared.element e).inline with _ | t'
    · have htype : (s.declared.element e).type = some t := by simpa [hinline] using type
      exact .named noRef hinline htype hnamed step
    · obtain rfl : t' = t := by simpa [hinline] using type
      have hname := ((hw.closed.nested.element e).inline t' hinline).2
      simp [hname, isNamed] at hnamed
  · exact ⟨(s.declared.element e).name, fun user x step => .nameless noRef type hnamed step⟩

end Walks
end Dependencies
end Graph
end SchemaPaths
