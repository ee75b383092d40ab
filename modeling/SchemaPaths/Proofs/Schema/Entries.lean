/-
What declarations hold, and where that stands.

A declaration is entered when it has been read to its end, behind all that is written in it, and it
holds what was entered for that.  `Forest x d log free` says how the declarations that were entered
since `x` hang together: each is held by one of the others, at one place, or it is `free`.  When a
declaration is entered that takes up some of the free ones, it is free in their stead.  So each has
one path that leads to it, through what holds it, and it stands before all that encloses it.
-/
import Mathlib.Data.Fintype.EquivFin
import Mathlib.Data.Fintype.Card
import Mathlib.Logic.Relation
import SchemaPaths.Proofs.Schema.Renaming

namespace SchemaPaths
namespace Schema

open Relation

/-- A declaration, known by its place among those of its family. -/
structure Entry where
  family : Family
  place : Nat
deriving DecidableEq, Repr

theorem Entry.mk_eq_mk {k : Family} {i j : Nat} : Entry.mk k i = Entry.mk k j ↔ i = j := by simp

def Entry.IsType (a : Entry) : Prop := a.family = .simple ∨ a.family = .complex

/-- The place was free when the declarations were `d` and is taken in `e`. -/
def Entry.EnteredSince (d e : Declarations) (a : Entry) : Prop :=
  d.extent.count a.family ≤ a.place ∧ a.place < e.extent.count a.family

/-! ## What is held -/

def SimpleRef.entry? : SimpleRef → Option Entry
  | .builtin _ => none
  | .declared i => some ⟨.simple, i⟩

def TypeRef.entry? : TypeRef → Option Entry
  | .simple r => r.entry?
  | .complex .anyType => none
  | .complex (.declared i) => some ⟨.complex, i⟩

/-- The type written in an element, if there is one. -/
def inlineEntries (r : Option TypeRef) : List Entry := r.toList.filterMap TypeRef.entry?

def Identity.entry? : Identity → Option Entry
  | .declared i => some ⟨.particle, i⟩
  | _ => none

def Node.entry? : Node → Option Entry
  | .element e => some ⟨.element, e⟩
  | .any i _ => i.entry?
  | _ => none

/-- The elements and wildcards of a particle, and the sequences and choices that they stand in. -/
def Node.entries (n : Node) : List Entry :=
  n.atoms.filterMap Node.entry? ++ n.compositors.filterMap Identity.entry?

theorem Node.perm_entriesOf (ns : List Node) :
    (ns.flatMap Node.entries).Perm
      ((Node.atomsOf ns).filterMap Node.entry? ++
        (Node.compositorsOf ns).filterMap Identity.entry?) := by
  induction ns with
  | nil => exact .refl _
  | cons n ns ih =>
    rw [List.flatMap_cons, Node.atomsOf, Node.compositorsOf, List.filterMap_append,
      List.filterMap_append, Node.entries, List.append_assoc, List.append_assoc]
    refine .append_left _ ?_
    exact (ih.append_left _).trans (List.perm_append_comm_assoc ..)

/-- A sequence or a choice holds what its items do, and is held itself. -/
theorem Node.Composes.perm_entries {make : Identity → Occurs → List Node → Node}
    (h : Node.Composes make) (i : ParticleId) (o : Occurs) (ns : List Node) :
    ((make (.declared i) o ns).entries).Perm (⟨.particle, i⟩ :: ns.flatMap Node.entries) := by
  rw [Node.entries, h.atoms, h.compositors, List.filterMap_append, ← List.append_assoc]
  exact (List.perm_append_singleton _ _).trans ((Node.perm_entriesOf ns).symm.cons _)

def particleEntries (p : Option Node) : List Entry := p.toList.flatMap Node.entries

def Element.parts (e : Element) : List Entry := inlineEntries e.inline

def Attribute.parts (a : Attribute) : List Entry := a.inline.toList.map (Entry.mk .simple)

def SimpleType.parts (t : SimpleType) : List Entry := t.base.toList.filterMap SimpleRef.entry?

def Derived.parts (m : Derived) : List Entry :=
  m.attributes.map (Entry.mk .attr) ++ particleEntries m.particle

def ComplexType.parts (t : ComplexType) : List Entry :=
  t.model.toList.flatMap Derived.parts ++ particleEntries t.particle ++
    t.attributes.map (Entry.mk .attr)

def Group.parts (g : Group) : List Entry := particleEntries g.particle

def AttributeGroup.parts (g : AttributeGroup) : List Entry := g.attributes.map (Entry.mk .attr)

/-- What is written in a declaration itself, and not in another one inside it.  What stands in a
sequence or a choice is counted as written in what the whole particle belongs to. -/
def Declarations.parts (d : Declarations) : Entry → List Entry
  | ⟨.element, i⟩ => (d.element i).parts
  | ⟨.attr, i⟩ => (d.attr i).parts
  | ⟨.simple, i⟩ => (d.simpleType i).parts
  | ⟨.complex, i⟩ => (d.complexType i).parts
  | ⟨.group, i⟩ => (d.group i).parts
  | ⟨.attributeGroup, i⟩ => (d.attributeGroup i).parts
  | ⟨.particle, _⟩ => []

/-- What stands at the top of a document. -/
def Document.entries (doc : Document) : List Entry :=
  doc.elements.map (Entry.mk .element) ++ doc.types.filterMap TypeRef.entry? ++
    doc.groups.map (Entry.mk .group) ++ doc.attributes.map (Entry.mk .attr) ++
    doc.attributeGroups.map (Entry.mk .attributeGroup)

theorem Document.count_entries (doc : Document) (a : Entry) :
    doc.entries.count a =
      (doc.elements.map (Entry.mk .element)).count a +
        (doc.types.filterMap TypeRef.entry?).count a +
        (doc.groups.map (Entry.mk .group)).count a +
        (doc.attributes.map (Entry.mk .attr)).count a +
        (doc.attributeGroups.map (Entry.mk .attributeGroup)).count a := by
  simp only [entries, List.count_append]

theorem TypeRef.entries_snoc {t : TypeRef} {a : Entry} (ts : List TypeRef)
    (h : t.entry? = some a) :
    (ts ++ [t]).filterMap TypeRef.entry? = ts.filterMap TypeRef.entry? ++ [a] := by
  rw [List.filterMap_append, List.filterMap_cons_some h, List.filterMap_nil]

namespace Declarations

/-- A path from the roots to a declaration: which of its holder's parts it is, which of the parts of
that one's holder this is, and so on up to one of the roots. -/
inductive At (d : Declarations) (roots : List Entry) : List Nat → Entry → Prop
  | root {k : Nat} {a : Entry} (found : roots[k]? = some a) : At d roots [k] a
  | part {k : Nat} {p : List Nat} {a b : Entry} (outer : At d roots p b)
      (found : (d.parts b)[k]? = some a) : At d roots (k :: p) a

/-- The second stands inside the first, at whatever depth. -/
def Encloses (d : Declarations) : Entry → Entry → Prop := TransGen fun a b => b ∈ d.parts a

theorem At.append {d : Declarations} {roots : List Entry} {p : List Nat} {a : Entry}
    (h : d.At roots p a) (more : List Entry) : d.At (roots ++ more) p a := by
  induction h with
  | root found =>
    obtain ⟨hk, -⟩ := List.getElem?_eq_some_iff.1 found
    exact .root ((List.getElem?_append_left hk).trans found)
  | part _ found ih => exact .part ih found

/-- Nothing is held anew by what is on the list, so neither is it at any depth. -/
theorem encloses_of_parts {d e : Declarations} {log : List Entry}
    (h : ∀ a ∈ log, ∀ b ∈ e.parts a, b ∈ log ∧ b ∈ d.parts a) {a b : Entry} (ha : a ∈ log)
    (hab : e.Encloses a b) : b ∈ log ∧ d.Encloses a b := by
  induction hab with
  | single hb => exact ⟨(h a ha _ hb).1, .single (h a ha _ hb).2⟩
  | @tail b c _ hc ih => exact ⟨(h b ih.1 c hc).1, ih.2.tail (h b ih.1 c hc).2⟩

/-! ## Entering -/

/-- The declarations `e` are those of `d` and one more, which holds the given ones. -/
structure Adds (d e : Declarations) (a : Entry) (held : List Entry) : Prop where
  place : a.place = d.extent.count a.family
  count : ∀ k, e.extent.count k = d.extent.count k + if k = a.family then 1 else 0
  parts : ∀ b, e.parts b = if b = a then held else d.parts b

section Additions

variable (d : Declarations)

theorem adds_addElement (e : Element) :
    Adds d (d.addElement e).2 ⟨.element, (d.addElement e).1⟩ e.parts where
  place := rfl
  count k := by cases k <;> simp [extent, Extent.count, addElement]
  parts := by
    rintro ⟨_ | _ | _ | _ | _ | _ | _, i⟩
    case element =>
      rw [Declarations.parts, element_addElement, apply_ite Element.parts]
      exact if_congr Entry.mk_eq_mk.symm rfl rfl
    all_goals rfl

theorem adds_addAttribute (a : Attribute) :
    Adds d (d.addAttribute a).2 ⟨.attr, (d.addAttribute a).1⟩ a.parts where
  place := rfl
  count k := by cases k <;> simp [extent, Extent.count, addAttribute]
  parts := by
    rintro ⟨_ | _ | _ | _ | _ | _ | _, i⟩
    case attr =>
      rw [Declarations.parts, attr_addAttribute, apply_ite Attribute.parts]
      exact if_congr Entry.mk_eq_mk.symm rfl rfl
    all_goals rfl

theorem adds_addSimpleType (t : SimpleType) :
    Adds d (d.addSimpleType t).2 ⟨.simple, (d.addSimpleType t).1⟩ t.parts where
  place := rfl
  count k := by cases k <;> simp [extent, Extent.count, addSimpleType]
  parts := by
    rintro ⟨_ | _ | _ | _ | _ | _ | _, i⟩
    case simple =>
      rw [Declarations.parts, simpleType_addSimpleType, apply_ite SimpleType.parts]
      exact if_congr Entry.mk_eq_mk.symm rfl rfl
    all_goals rfl

theorem adds_addComplexType (t : ComplexType) :
    Adds d (d.addComplexType t).2 ⟨.complex, (d.addComplexType t).1⟩ t.parts where
  place := rfl
  count k := by cases k <;> simp [extent, Extent.count, addComplexType]
  parts := by
    rintro ⟨_ | _ | _ | _ | _ | _ | _, i⟩
    case complex =>
      rw [Declarations.parts, complexType_addComplexType, apply_ite ComplexType.parts]
      exact if_congr Entry.mk_eq_mk.symm rfl rfl
    all_goals rfl

theorem adds_addGroup (g : Group) :
    Adds d (d.addGroup g).2 ⟨.group, (d.addGroup g).1⟩ g.parts where
  place := rfl
  count k := by cases k <;> simp [extent, Extent.count, addGroup]
  parts := by
    rintro ⟨_ | _ | _ | _ | _ | _ | _, i⟩
    case group =>
      rw [Declarations.parts, group_addGroup, apply_ite Group.parts]
      exact if_congr Entry.mk_eq_mk.symm rfl rfl
    all_goals rfl

theorem adds_addAttributeGroup (g : AttributeGroup) :
    Adds d (d.addAttributeGroup g).2 ⟨.attributeGroup, (d.addAttributeGroup g).1⟩ g.parts where
  place := rfl
  count k := by cases k <;> simp [extent, Extent.count, addAttributeGroup]
  parts := by
    rintro ⟨_ | _ | _ | _ | _ | _ | _, i⟩
    case attributeGroup =>
      rw [Declarations.parts, attributeGroup_addAttributeGroup, apply_ite AttributeGroup.parts]
      exact if_congr Entry.mk_eq_mk.symm rfl rfl
    all_goals rfl

theorem adds_addParticle : Adds d d.addParticle.2 ⟨.particle, d.addParticle.1⟩ [] where
  place := rfl
  count k := by cases k <;> simp [extent, Extent.count, addParticle]
  parts := by
    rintro ⟨_ | _ | _ | _ | _ | _ | _, i⟩
    case particle => exact (ite_self _).symm
    all_goals rfl

end Additions

theorem Adds.kept {d e : Declarations} {a : Entry} {held : List Entry} (h : Adds d e a held)
    {b : Entry} (hb : b.place < d.extent.count b.family) : e.parts b = d.parts b := by
  rw [h.parts, if_neg]
  rintro rfl
  exact Nat.ne_of_lt hb h.place

theorem Adds.held {d e : Declarations} {a : Entry} {held : List Entry} (h : Adds d e a held) :
    e.parts a = held := (h.parts a).trans (if_pos rfl)

end Declarations

/-! ## Forests -/

/-- The declarations on the `log` were entered since there were those of `x`.  Each of them is held
by one of the others or is free, and whatever it encloses stands before it. -/
structure Forest (x d : Declarations) (log free : List Entry) : Prop where
  le : ∀ k, x.extent.count k ≤ d.extent.count k
  nodup : log.Nodup
  mem_log : ∀ a, a ∈ log ↔ a.EnteredSince x d
  once : (free ++ log.flatMap d.parts).Perm log
  before : ∀ a ∈ log, ∀ b, d.Encloses a b → b.family = a.family → b.place < a.place

namespace Forest

variable {x d e : Declarations} {log free held : List Entry} {a b : Entry} {p q : List Nat}

theorem start (d : Declarations) : Forest d d [] [] where
  le _ := Nat.le_refl _
  nodup := .nil
  mem_log a := by
    refine ⟨nofun, fun ha => ?_⟩
    exact absurd ha.2 (Nat.not_lt.2 ha.1)
  once := .nil
  before := nofun

theorem perm (h : Forest x d log free) {free' : List Entry} (hp : free.Perm free') :
    Forest x d log free' :=
  { h with once := (hp.symm.append_right _).trans h.once }

theorem mem_of_free (h : Forest x d log free) (ha : a ∈ free) : a ∈ log :=
  h.once.subset (List.mem_append_left _ ha)

theorem mem_of_parts (h : Forest x d log free) (hb : b ∈ log) (ha : a ∈ d.parts b) : a ∈ log :=
  h.once.subset (List.mem_append_right _ (List.mem_flatMap_of_mem hb ha))

/-- A declaration that takes up some of the free ones is free in their stead. -/
theorem enter (h : Forest x d log (held ++ free)) (hadds : d.Adds e a held) :
    Forest x e (a :: log) (a :: free) := by
  have hkept : ∀ b ∈ log, e.parts b = d.parts b := fun b hb =>
    hadds.kept ((h.mem_log b).1 hb).2
  have hheld : ∀ b ∈ held, b ∈ log := fun b hb => h.mem_of_free (List.mem_append_left _ hb)
  have hinside : ∀ c ∈ log, ∀ b ∈ e.parts c, b ∈ log ∧ b ∈ d.parts c := fun c hc b hb => by
    rw [hkept c hc] at hb
    exact ⟨h.mem_of_parts hc hb, hb⟩
  have hnew : a ∉ log := fun ha =>
    Nat.lt_irrefl a.place (hadds.place ▸ ((h.mem_log a).1 ha).2)
  refine ⟨fun k => ?_, List.nodup_cons.2 ⟨hnew, h.nodup⟩, fun b => ?_, ?_, ?_⟩
  · rw [hadds.count]
    exact Nat.le_add_right_of_le (h.le k)
  · rw [List.mem_cons, h.mem_log, Entry.EnteredSince, Entry.EnteredSince, hadds.count]
    have hle := h.le a.family
    rw [← hadds.place] at hle
    constructor
    · rintro (rfl | ⟨hge, hlt⟩)
      · exact ⟨hle, by rw [← hadds.place, if_pos rfl]; exact Nat.lt_succ_self _⟩
      · exact ⟨hge, Nat.lt_add_right _ hlt⟩
    · rintro ⟨hge, hlt⟩
      by_cases hlast : b = a
      · exact .inl hlast
      refine .inr ⟨hge, ?_⟩
      split at hlt
      · rename_i hfamily
        have hne : b.place ≠ a.place := fun heq => hlast (by cases a; cases b; simp_all)
        rw [hfamily, ← hadds.place] at hlt ⊢
        omega
      · exact hlt
  · have hlog : log.flatMap e.parts = log.flatMap d.parts := List.flatMap_congr hkept
    rw [List.flatMap_cons, hadds.held, hlog, List.cons_append, ← List.append_assoc]
    exact ((List.perm_append_comm.append_right _).trans h.once).cons a
  · intro c hc b hcb hfamily
    rcases List.mem_cons.1 hc with rfl | hc
    · -- what is inside the new one was there before it
      have hb : b ∈ log := by
        obtain ⟨b', hb', hrest⟩ := TransGen.head'_iff.1 hcb
        have hb'log := hheld b' (hadds.held ▸ hb')
        rcases (reflTransGen_iff_eq_or_transGen.1 hrest) with rfl | hrest
        · exact hb'log
        · exact (Declarations.encloses_of_parts hinside hb'log hrest).1
      have hplace := ((h.mem_log b).1 hb).2
      rwa [hfamily, ← hadds.place] at hplace
    · exact h.before c hc b (Declarations.encloses_of_parts hinside hc hcb).2 hfamily

/-! ### Paths -/

theorem mem_of_at (h : Forest x d log free) (ha : d.At free p a) : a ∈ log := by
  induction ha with
  | root found => exact h.mem_of_free (List.mem_of_getElem? found)
  | part _ found ih => exact h.mem_of_parts ih (List.mem_of_getElem? found)

/-- Only one path leads to a declaration, since nothing else holds it, and this only once. -/
theorem at_unique (h : Forest x d log free) (hp : d.At free p a) (hq : d.At free q a) : p = q := by
  have hnodup := h.once.nodup_iff.2 h.nodup
  obtain ⟨hfree, hparts, hapart⟩ := List.nodup_append.1 hnodup
  obtain ⟨heach, hamong⟩ := List.nodup_flatMap.1 hparts
  have index {l : List Entry} (hl : l.Nodup) {j k : Nat} {a : Entry} (hj : l[j]? = some a)
      (hk : l[k]? = some a) : j = k :=
    (List.getElem?_inj (List.getElem?_eq_some_iff.1 hj).1 hl).1 (hj.trans hk.symm)
  have rootless {b : Entry} {k j : Nat} {a : Entry} (hb : b ∈ log) (hk : free[k]? = some a)
      (hj : (d.parts b)[j]? = some a) : False :=
    hapart a (List.mem_of_getElem? hk) a (List.mem_flatMap_of_mem hb (List.mem_of_getElem? hj)) rfl
  induction hp generalizing q with
  | root found =>
    cases hq with
    | root found' => rw [index hfree found found']
    | part outer found' => exact (rootless (h.mem_of_at outer) found found').elim
  | @part k p a b outer found ih =>
    cases hq with
    | root found' => exact (rootless (h.mem_of_at outer) found' found).elim
    | @part j q _ c outer' found' =>
      obtain rfl : b = c := by
        have : Std.Symm (Function.onFun List.Disjoint d.parts) := ⟨fun _ _ hd => hd.symm⟩
        by_contra hne
        exact hamong.forall (h.mem_of_at outer) (h.mem_of_at outer') hne
          (List.mem_of_getElem? found) (List.mem_of_getElem? found')
      rw [index (heach b (h.mem_of_at outer)) found found', ih outer']

/-- A path leads to each declaration. -/
theorem exists_at (h : Forest x d log free) (ha : a ∈ log) : ∃ p, d.At free p a := by
  have hwf : WellFounded fun b c : { b // b ∈ log } => d.Encloses b c := by
    have : Finite { b // b ∈ log } := @Finite.of_fintype _ (List.Subtype.fintype log)
    have : IsTrans { b // b ∈ log } fun b c => d.Encloses b c := ⟨fun _ _ _ => TransGen.trans⟩
    have : Std.Irrefl fun b c : { b // b ∈ log } => d.Encloses b c :=
      ⟨fun b hb => Nat.lt_irrefl _ (h.before b b.2 b hb rfl)⟩
    exact Finite.wellFounded_of_trans_of_irrefl _
  revert a
  suffices ∀ b : { b // b ∈ log }, ∃ p, d.At free p b from fun a ha => this ⟨a, ha⟩
  refine hwf.fix fun b ih => ?_
  rcases List.mem_append.1 (h.once.symm.subset b.2) with hb | hb
  · obtain ⟨k, hk⟩ := List.getElem?_of_mem hb
    exact ⟨[k], .root hk⟩
  · obtain ⟨c, hc, hbc⟩ := List.mem_flatMap.1 hb
    obtain ⟨p, hp⟩ := ih ⟨c, hc⟩ (.single hbc)
    obtain ⟨k, hk⟩ := List.getElem?_of_mem hbc
    exact ⟨k :: p, hp.part hk⟩

end Forest
end Schema
end SchemaPaths
