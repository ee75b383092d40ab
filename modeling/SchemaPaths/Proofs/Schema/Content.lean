/-
What particles are made of, and what they are with every reference to a group written out.

Sequences and choices only hold other particles.  What remains of a particle when they are taken
away are its atoms: the elements, wildcards and references to groups in it, from left to right.
-/
import SchemaPaths.Proofs.Descent
import SchemaPaths.Schema.Linking

namespace SchemaPaths
namespace Schema

namespace Node

mutual

def atoms : Node → List Node
  | .sequence _ _ _ items => atomsOf items
  | .choice _ _ items => atomsOf items
  | n => [n]

def atomsOf : List Node → List Node
  | [] => []
  | n :: ns => atoms n ++ atomsOf ns

end

theorem atomsOf_append (a b : List Node) : atomsOf (a ++ b) = atomsOf a ++ atomsOf b := by
  induction a with
  | nil => rfl
  | cons n ns ih => rw [List.cons_append, atomsOf, atomsOf, ih, List.append_assoc]

theorem atomsOf_toList (n : Option Node) : atomsOf n.toList = n.toList.flatMap atoms := by
  cases n with
  | none => rfl
  | some n => simp [atomsOf]

theorem atomsOf_some (n : Node) : atomsOf (some n).toList = n.atoms := List.append_nil _

mutual

/-- The sequences and choices of a particle, each behind all that is in it. -/
def compositors : Node → List Identity
  | .sequence i _ _ items => compositorsOf items ++ [i]
  | .choice i _ items => compositorsOf items ++ [i]
  | _ => []

def compositorsOf : List Node → List Identity
  | [] => []
  | n :: ns => compositors n ++ compositorsOf ns

end

theorem mem_atomsOf {a : Node} {ns : List Node} : a ∈ atomsOf ns ↔ ∃ n ∈ ns, a ∈ n.atoms := by
  induction ns with
  | nil => simp [atomsOf]
  | cons n ns ih => simp [atomsOf, ih]

theorem mem_compositorsOf {i : Identity} {ns : List Node} :
    i ∈ compositorsOf ns ↔ ∃ n ∈ ns, i ∈ n.compositors := by
  induction ns with
  | nil => simp [compositorsOf]
  | cons n ns ih => simp [compositorsOf, ih]

def element? : Node → Option ElementId
  | .element e => some e
  | _ => none

def groupName? : Node → Option QName
  | .groupRef q _ => some q
  | _ => none

/-- The groups that a particle refers to, outside its elements. -/
def groupNames (n : Node) : List QName := n.atoms.filterMap groupName?

/-- The elements of a particle, from left to right. -/
def leaves (n : Node) : List ElementId := n.atoms.filterMap element?

/-- A particle without references to groups, at any depth. -/
def IsPlain (n : Node) : Prop := ∀ a ∈ n.atoms, a.groupName? = none

/-- What stands for itself in content. -/
def IsAtom : Node → Prop
  | .sequence .. => False
  | .choice .. => False
  | _ => True

/-- What a walk for paths takes as it stands: an element, or a wildcard, which it passes over. -/
def IsLeaf : Node → Prop
  | .element _ => True
  | .any .. => True
  | _ => False

/-- What the content of a type or a group is declared by. -/
def IsModel : Node → Prop
  | .sequence .. => True
  | .choice .. => True
  | .groupRef .. => True
  | _ => False

/-- What makes a sequence or a choice of its items. -/
structure Composes (make : Identity → Occurs → List Node → Node) : Prop where
  isModel : ∀ i o ns, (make i o ns).IsModel
  atoms : ∀ i o ns, (make i o ns).atoms = atomsOf ns
  compositors : ∀ i o ns, (make i o ns).compositors = compositorsOf ns ++ [i]

theorem composes_sequence (c : Compositor) : Composes (.sequence · c) :=
  ⟨fun _ _ _ => trivial, fun _ _ _ => rfl, fun _ _ _ => rfl⟩

theorem composes_choice : Composes .choice :=
  ⟨fun _ _ _ => trivial, fun _ _ _ => rfl, fun _ _ _ => rfl⟩

/-- What a particle is made of is good, each atom and each sequence and choice. -/
structure MadeOf (atom : Node → Prop) (compositor : Identity → Prop) (n : Node) : Prop where
  atoms : ∀ a ∈ n.atoms, atom a
  compositors : ∀ i ∈ n.compositors, compositor i

theorem atoms_of_isAtom {n : Node} (h : n.IsAtom) : n.atoms = [n] := by
  cases n <;> first | rfl | exact h.elim

theorem compositors_of_isAtom {n : Node} (h : n.IsAtom) : n.compositors = [] := by
  cases n <;> first | rfl | exact h.elim

namespace MadeOf

variable {atom atom' : Node → Prop} {compositor compositor' : Identity → Prop} {n : Node}
  {make : Identity → Occurs → List Node → Node} {i : Identity} {o : Occurs} {ns : List Node}

theorem mono (h : n.MadeOf atom compositor) (hatom : ∀ a, atom a → atom' a)
    (hcompositor : ∀ i, compositor i → compositor' i) : n.MadeOf atom' compositor' where
  atoms a ha := hatom a (h.atoms a ha)
  compositors i hi := hcompositor i (h.compositors i hi)

theorem of_isAtom (hn : n.IsAtom) (h : atom n) : n.MadeOf atom compositor where
  atoms a ha := by
    rw [atoms_of_isAtom hn, List.mem_singleton] at ha
    exact ha ▸ h
  compositors i hi := by
    rw [compositors_of_isAtom hn] at hi
    cases hi

theorem compose (hmake : Composes make) (hi : compositor i)
    (h : ∀ n ∈ ns, n.MadeOf atom compositor) : (make i o ns).MadeOf atom compositor where
  atoms a ha := by
    rw [hmake.atoms] at ha
    obtain ⟨n, hn, ha⟩ := mem_atomsOf.1 ha
    exact (h n hn).atoms a ha
  compositors j hj := by
    rw [hmake.compositors, List.mem_append, List.mem_singleton] at hj
    rcases hj with hj | rfl
    · obtain ⟨n, hn, hj⟩ := mem_compositorsOf.1 hj
      exact (h n hn).compositors j hj
    · exact hi

theorem items (hmake : Composes make) (h : (make i o ns).MadeOf atom compositor) :
    compositor i ∧ ∀ n ∈ ns, n.MadeOf atom compositor := by
  obtain ⟨hatoms, hcompositors⟩ := h
  rw [hmake.atoms] at hatoms
  rw [hmake.compositors] at hcompositors
  refine ⟨hcompositors i (List.mem_append_right _ (List.mem_singleton_self i)), fun n hn => ?_⟩
  refine ⟨fun a ha => hatoms a (mem_atomsOf.2 ⟨n, hn, ha⟩), fun j hj => ?_⟩
  exact hcompositors j (List.mem_append_left _ (mem_compositorsOf.2 ⟨n, hn, hj⟩))

end MadeOf

end Node

/-! ## Groups written out -/

/-- What becomes of a sequence or a choice when the groups in its items are written out: where they
refer to none, it is still the same. -/
def Identity.writtenOut (i : Identity) (items : List Node) : Identity :=
  if (Node.atomsOf items).all (·.groupName?.isNone) then i else .copy i

section Identity

variable {i : Identity} {items : List Node}

theorem Identity.writtenOut_of_plain (h : ∀ a ∈ Node.atomsOf items, a.groupName? = none) :
    i.writtenOut items = i := by
  refine if_pos (List.all_eq_true.2 fun a ha => ?_)
  rw [h a ha]
  rfl

theorem Identity.writtenOut_of_not_plain (h : ¬ ∀ a ∈ Node.atomsOf items, a.groupName? = none) :
    i.writtenOut items = .copy i := by
  refine if_neg fun hall => h fun a ha => ?_
  exact Option.isNone_iff_eq_none.1 (List.all_eq_true.1 hall a ha)

theorem Identity.writtenOut_good {good : Identity → Prop} (hcopy : ∀ i, good i → good (.copy i))
    (hi : good i) : good (i.writtenOut items) := by
  unfold Identity.writtenOut
  split
  · exact hi
  · exact hcopy i hi

theorem Identity.copy_ne (i : Identity) : Identity.copy i ≠ i := by
  induction i with
  | copy i ih => exact fun h => ih (Identity.copy.inj h)
  | declared k => exact nofun
  | joined t => exact nofun

theorem Identity.plain_of_writtenOut_eq (h : i.writtenOut items = i) :
    ∀ a ∈ Node.atomsOf items, a.groupName? = none := by
  by_contra hplain
  rw [Identity.writtenOut_of_not_plain hplain] at h
  exact i.copy_ne h

end Identity

mutual

/-- What a particle is with the groups in it written out, if anything is left of it. -/
inductive WrittenOut (s : SchemaSet) : Node → Option Node → Prop
  | group {q : QName} {o : Occurs} {g : GroupId} {out : Option Node} (found : s.group? q = some g)
      (content : GroupContent s g out) : WrittenOut s (.groupRef q o) out
  | sequence {i : Identity} {c : Compositor} {o : Occurs} {items outs : List Node}
      (each : AllWrittenOut s items outs) :
      WrittenOut s (.sequence i c o items) (some (.sequence (i.writtenOut items) c o outs))
  | choice {i : Identity} {o : Occurs} {items outs : List Node}
      (each : AllWrittenOut s items outs) :
      WrittenOut s (.choice i o items) (some (.choice (i.writtenOut items) o outs))
  | atom {n : Node} (isAtom : n.IsAtom) (plain : n.groupName? = none) : WrittenOut s n (some n)

/-- The content of a group, written out. -/
inductive GroupContent (s : SchemaSet) : GroupId → Option Node → Prop
  | none {g : GroupId} (empty : (s.declared.group g).particle = none) : GroupContent s g none
  | some {g : GroupId} {n : Node} {out : Option Node}
      (particle : (s.declared.group g).particle = some n) (written : WrittenOut s n out) :
      GroupContent s g out

inductive AllWrittenOut (s : SchemaSet) : List Node → List Node → Prop
  | nil : AllWrittenOut s [] []
  | cons {n : Node} {ns outs : List Node} {out : Option Node} (first : WrittenOut s n out)
      (rest : AllWrittenOut s ns outs) : AllWrittenOut s (n :: ns) (out.toList ++ outs)

end

/-- A declared particle, if there is one, and what it is with the groups in it written out. -/
def OptionWrittenOut (s : SchemaSet) : Option Node → Option Node → Prop
  | none, out => out = none
  | some n, out => WrittenOut s n out

variable {s : SchemaSet}

theorem groupContent_iff {g : GroupId} {out : Option Node} :
    GroupContent s g out ↔ OptionWrittenOut s (s.declared.group g).particle out := by
  constructor
  · rintro (h | ⟨h, hw⟩) <;> rw [h]
    · rfl
    · exact hw
  · intro h
    cases hp : (s.declared.group g).particle with
    | none =>
      rw [hp] at h
      cases h
      exact .none hp
    | some n =>
      rw [hp] at h
      exact .some hp h

mutual

theorem WrittenOut.isPlain {n : Node} {out : Option Node} :
    WrittenOut s n out → ∀ m ∈ out, m.IsPlain
  | .group _ content => content.isPlain
  | .sequence each => by
    rintro m ⟨⟩ a ha
    exact each.isPlain a ha
  | .choice each => by
    rintro m ⟨⟩ a ha
    exact each.isPlain a ha
  | .atom isAtom plain => by
    rintro m ⟨⟩ a ha
    rw [Node.atoms_of_isAtom isAtom, List.mem_singleton] at ha
    exact ha ▸ plain

theorem GroupContent.isPlain {g : GroupId} {out : Option Node} :
    GroupContent s g out → ∀ m ∈ out, m.IsPlain
  | .none _ => by rintro m ⟨⟩
  | .some _ written => written.isPlain

theorem AllWrittenOut.isPlain {ns outs : List Node} :
    AllWrittenOut s ns outs → ∀ a ∈ Node.atomsOf outs, a.groupName? = none
  | .nil => by rintro a ⟨⟩
  | .cons first rest => by
    intro a ha
    rw [Node.atomsOf_append, Node.atomsOf_toList, List.mem_append, List.mem_flatMap] at ha
    rcases ha with ⟨m, hm, ha⟩ | ha
    · exact first.isPlain m (Option.mem_toList.1 hm) a ha
    · exact rest.isPlain a ha

end

/-! ### What stays the same -/

mutual

/-- What refers to no group is itself when it is written out. -/
theorem WrittenOut.eq_of_isPlain {n : Node} {out : Option Node} :
    WrittenOut s n out → n.IsPlain → out = some n
  | @WrittenOut.group _ q o .., hn => nomatch hn (.groupRef q o) (List.mem_singleton_self _)
  | .sequence each, hn => by rw [Identity.writtenOut_of_plain hn, each.eq_of_plain hn]
  | .choice each, hn => by rw [Identity.writtenOut_of_plain hn, each.eq_of_plain hn]
  | .atom .., _ => rfl

theorem AllWrittenOut.eq_of_plain {ns outs : List Node} :
    AllWrittenOut s ns outs → (∀ a ∈ Node.atomsOf ns, a.groupName? = none) → outs = ns
  | .nil, _ => rfl
  | .cons first rest, hns => by
    obtain ⟨hn, hrest⟩ := List.forall_mem_append.1 hns
    rw [first.eq_of_isPlain hn, rest.eq_of_plain hrest]
    rfl

end

theorem WrittenOut.isPlain_of_is {n m : Node} (h : WrittenOut s n (some m))
    (hm : m.is n = true) : n.IsPlain := by
  generalize hout : some m = out at h
  cases h with
  | group => cases m <;> cases hm
  | sequence each =>
    cases hout
    exact Identity.plain_of_writtenOut_eq (beq_iff_eq.1 hm)
  | choice each =>
    cases hout
    exact Identity.plain_of_writtenOut_eq (beq_iff_eq.1 hm)
  | atom isAtom plain =>
    intro a ha
    rw [Node.atoms_of_isAtom isAtom, List.mem_singleton] at ha
    exact ha ▸ plain

theorem AllWrittenOut.length_le {ns outs : List Node} (h : AllWrittenOut s ns outs) :
    outs.length ≤ ns.length := by
  induction ns generalizing outs with
  | nil =>
    cases h
    exact Nat.le_refl _
  | cons n ns ih =>
    cases h with
    | @cons _ _ outs out first rest =>
      have hrest := ih rest
      have hfirst : out.toList.length ≤ 1 := Option.length_toList_le
      rw [List.length_append, List.length_cons]
      omega

/-- Among items that refer to groups there is always one that does not stay the same. -/
theorem AllWrittenOut.plain_of_unchanged {ns outs : List Node} (h : AllWrittenOut s ns outs)
    (hsame : Linking.unchanged ns outs = true) : ∀ a ∈ Node.atomsOf ns, a.groupName? = none := by
  induction ns generalizing outs with
  | nil => exact nofun
  | cons n ns ih =>
    cases h with
    | @cons _ _ outs out first rest =>
      have hle := rest.length_le
      rw [Linking.unchanged, Bool.and_eq_true, beq_iff_eq] at hsame
      cases out with
      | none =>
        have hlength : outs.length = ns.length + 1 := hsame.1
        omega
      | some m =>
        obtain ⟨hlength, hall⟩ := hsame
        obtain ⟨hm, hrest⟩ := Bool.and_eq_true_iff.1 hall
        have htail : Linking.unchanged ns outs = true :=
          Bool.and_eq_true_iff.2 ⟨beq_iff_eq.2 (Nat.succ.inj hlength), hrest⟩
        exact List.forall_mem_append.2 ⟨first.isPlain_of_is hm, ih rest htail⟩

/-- A particle is itself, unless it is made of what particles are not made of. -/
theorem Node.IsPlain.is_self {n : Node} (hn : n.IsPlain)
    (hself : ∀ a ∈ n.atoms, a.groupName? = none → a.is a = true) : n.is n = true := by
  cases n with
  | sequence i c o items => exact beq_self_eq_true i
  | choice i o items => exact beq_self_eq_true i
  | _ => exact hself _ (List.mem_singleton_self _) (hn _ (List.mem_singleton_self _))

theorem unchanged_self {ns : List Node} (h : ∀ a ∈ Node.atomsOf ns, a.groupName? = none)
    (hself : ∀ a ∈ Node.atomsOf ns, a.groupName? = none → a.is a = true) :
    Linking.unchanged ns ns = true := by
  induction ns with
  | nil => rfl
  | cons n ns ih =>
    obtain ⟨hn, hns⟩ := List.forall_mem_append.1 h
    obtain ⟨hnself, hnsself⟩ := List.forall_mem_append.1 hself
    have htail := ih hns hnsself
    rw [Linking.unchanged, Bool.and_eq_true, beq_iff_eq] at htail ⊢
    refine ⟨rfl, ?_⟩
    rw [List.zip_cons_cons, List.all_cons, Node.IsPlain.is_self hn hnself, htail.2]
    rfl

/-- Items stay the same if and only if they refer to no group. -/
theorem AllWrittenOut.unchanged_iff {ns outs : List Node} (h : AllWrittenOut s ns outs)
    (hself : ∀ a ∈ Node.atomsOf ns, a.groupName? = none → a.is a = true) :
    Linking.unchanged ns outs = true ↔ ∀ a ∈ Node.atomsOf ns, a.groupName? = none := by
  refine ⟨h.plain_of_unchanged, fun hplain => ?_⟩
  rw [h.eq_of_plain hplain]
  exact unchanged_self hplain hself

/-- A group refers to another in its particle, outside the elements of that. -/
def GroupUse (s : SchemaSet) (g h : GroupId) : Prop :=
  ∃ n q, (s.declared.group g).particle = some n ∧ q ∈ n.groupNames ∧ s.group? q = some h

mutual

/-- Writing out is a finite affair, so no group that was written out comes back to itself. -/
theorem WrittenOut.ends {n : Node} {out : Option Node} :
    WrittenOut s n out → ∀ q ∈ n.groupNames, ∃ g, s.group? q = some g ∧ Ends (GroupUse s) g
  | .group found content => by
    intro q hq
    simp only [Node.groupNames, Node.atoms, List.filterMap_cons, Node.groupName?,
      List.filterMap_nil, List.mem_singleton] at hq
    exact ⟨_, hq ▸ found, content.ends⟩
  | .sequence each => each.ends
  | .choice each => each.ends
  | .atom isAtom plain => by
    intro q hq
    simp [Node.groupNames, Node.atoms_of_isAtom isAtom, plain] at hq

theorem GroupContent.ends {g : GroupId} {out : Option Node} :
    GroupContent s g out → Ends (GroupUse s) g
  | .none empty => Ends.intro fun h ⟨n, q, hn, _, _⟩ => by
    rw [empty] at hn
    cases hn
  | .some particle written => Ends.intro fun h ⟨n, q, hn, hq, hh⟩ => by
    rw [particle] at hn
    cases hn
    obtain ⟨g', hg', hends⟩ := written.ends q hq
    rw [hh] at hg'
    cases hg'
    exact hends

theorem AllWrittenOut.ends {ns outs : List Node} :
    AllWrittenOut s ns outs →
      ∀ q ∈ (Node.atomsOf ns).filterMap Node.groupName?,
        ∃ g, s.group? q = some g ∧ Ends (GroupUse s) g
  | .nil => by rintro q ⟨⟩
  | .cons first rest => by
    intro q hq
    rw [Node.atomsOf, List.filterMap_append, List.mem_append] at hq
    exact hq.elim (first.ends q) (rest.ends q)

end
end Schema
end SchemaPaths
