/-
The types of elements.

Elements are linked in the order in which they were read, and each links its head first, so an
element may be linked before or at its own turn.  None of this shows in the end: a type is written
in an element, named by it or taken over from the head of its substitution group, and heads come to
an end.
-/
import SchemaPaths.Proofs.Linking.Relinking

namespace SchemaPaths
namespace Schema

/-! ## Types along the heads -/

/-- The type that an element has in a linked set: the one written in it, or else the one it names,
or else that of its head, or else any type. -/
inductive TypeAlong (s : SchemaSet) : ElementId → TypeRef → Prop
  | written {i : ElementId} {t : TypeRef} (written : (s.declared.element i).inline = some t) :
      TypeAlong s i t
  | named {i : ElementId} {q : QName} {t : TypeRef}
      (unwritten : (s.declared.element i).inline = none)
      (named : (s.declared.element i).typeName = some q) (found : s.type? q = some t) :
      TypeAlong s i t
  | taken {i h : ElementId} {t : TypeRef} (unwritten : (s.declared.element i).inline = none)
      (unnamed : (s.declared.element i).typeName = none) (head : Head s i h)
      (along : TypeAlong s h t) : TypeAlong s i t
  | any {i : ElementId} (unwritten : (s.declared.element i).inline = none)
      (unnamed : (s.declared.element i).typeName = none)
      (headless : (s.declared.element i).substitution = none) : TypeAlong s i anyType

/-- An element has its type, and one that takes it over has that of its head. -/
structure HasType (s : SchemaSet) (i : ElementId) (t : TypeRef) : Prop where
  type : (s.declared.element i).type = some t
  along : TypeAlong s i t
  fromHead : (s.declared.element i).inline = none → (s.declared.element i).typeName = none →
    ∀ q ∈ (s.declared.element i).substitution,
      ∃ h, s.element? q = some h ∧ (s.declared.element h).type = some t

/-- No element at the top of a document is a reference. -/
def SchemaSet.PlainTops (s : SchemaSet) : Prop :=
  ∀ i < s.declared.elements.size, (s.declared.element i).isGlobal = true →
    (s.declared.element i).ref = none

instance (s : SchemaSet) : Decidable s.PlainTops := inferInstanceAs (Decidable (∀ i < _, _))

/-- The elements that stand anywhere in the documents: at their top, in a type or in a group. -/
inductive SchemaSet.Holds (s : SchemaSet) : ElementId → Prop
  | top {doc : Document} {i : ElementId} (document : doc ∈ s.documents) (top : i ∈ doc.elements) :
      Holds s i
  | content {c : ComplexId} {n : Node} {i : ElementId}
      (particle : Linking.ownParticle (s.declared.complexType c) = some n) (inside : i ∈ n.leaves) :
      Holds s i
  | group {g : GroupId} {n : Node} {i : ElementId}
      (particle : (s.declared.group g).particle = some n) (inside : i ∈ n.leaves) : Holds s i

section Typed

variable {s : SchemaSet} {d : Declarations} {i : ElementId}

theorem Extent.HasContent.leaf {x : Extent} {n : Node} (h : x.HasContent n) (hi : i ∈ n.leaves) :
    i < x.elements := by
  obtain ⟨a, ha, hleaf⟩ := List.mem_filterMap.1 hi
  cases a with
  | element e =>
    cases hleaf
    exact h.atoms _ ha
  | _ => cases hleaf

/-- Whatever stands in the documents was registered. -/
theorem SchemaSet.Holds.lt (h : s.Holds i) (hs : s.Closed) : i < s.declared.elements.size := by
  cases h with
  | top document top => exact (hs.documents _ document).elements _ top
  | @content c _ _ particle inside =>
    exact ((hs.declared.complexType c).own _ particle).2.leaf inside
  | @group g _ _ particle inside => exact (hs.declared.group g _ particle).2.leaf inside

/-- A head stands at the top of a document. -/
theorem Head.isGlobal {h : ElementId} (hih : Head s i h) (hs : s.Closed) :
    h < s.declared.elements.size ∧ (s.declared.element h).isGlobal = true := by
  obtain ⟨q, -, hq⟩ := hih
  have hmem := Table.mem_of_find? hq
  obtain ⟨doc, hdoc, htop, -⟩ := hs.filed.elements _ hmem
  exact ⟨hs.elements _ hmem, (hs.documents doc hdoc).isGlobal h htop⟩

/-- Linking leaves alone what an element is declared with. -/
theorem Frame.declaredWith {α : Type} (h : Frame s d) (f : Element → α)
    (hf : ∀ e : Element, f e.asDeclared = f e) (i : ElementId) :
    f (d.element i) = f (s.declared.element i) := by
  rw [← hf, h.element, hf]

theorem TypeAlong.framed {t : TypeRef} (h : Frame s d) (ht : TypeAlong s i t) :
    TypeAlong { s with declared := d } i t := by
  have hinline := h.declaredWith Element.inline fun _ => rfl
  have hname := h.declaredWith Element.typeName fun _ => rfl
  have hhead := h.declaredWith Element.substitution fun _ => rfl
  induction ht with
  | written written => exact .written ((hinline _).trans written)
  | named unwritten named found =>
    exact .named ((hinline _).trans unwritten) ((hname _).trans named) found
  | taken unwritten unnamed head _ ih =>
    obtain ⟨q, hq, hfound⟩ := head
    exact .taken ((hinline _).trans unwritten) ((hname _).trans unnamed)
      ⟨q, (hhead _).trans hq, hfound⟩ ih
  | any unwritten unnamed headless =>
    exact .any ((hinline _).trans unwritten) ((hname _).trans unnamed) ((hhead _).trans headless)

/-- By induction along the heads, which are no references themselves. -/
theorem ElementType.typeAlong (hs : s.Closed) (hnew : ∀ i, (s.declared.element i).type = none)
    (hplain : s.PlainTops) {o : Option TypeRef} (h : ElementType s i o)
    (href : (s.declared.element i).ref = none) : ∃ t, o = some t ∧ TypeAlong s i t := by
  induction h with
  | kept before =>
    rw [hnew] at before
    cases before
  | reference _ ref =>
    rw [href] at ref
    cases ref
  | written _ _ written => exact ⟨_, rfl, .written written⟩
  | named _ _ unwritten named found => exact ⟨_, rfl, .named unwritten named found⟩
  | taken _ _ unwritten unnamed head _ ih =>
    obtain ⟨hlt, hglobal⟩ := head.isGlobal hs
    obtain ⟨t, ho, halong⟩ := ih (hplain _ hlt hglobal)
    exact ⟨t, ho, .taken unwritten unnamed head halong⟩
  | any _ _ unwritten unnamed headless => exact ⟨_, rfl, .any unwritten unnamed headless⟩

/-- What an element takes over is what its head has in the end. -/
theorem Linked.type_of_head (hl : Linked s d) (hs : s.Closed)
    (hnew : ∀ i, (s.declared.element i).type = none) (hi : i < s.declared.elements.size)
    (href : (s.declared.element i).ref = none) (unwritten : (s.declared.element i).inline = none)
    (unnamed : (s.declared.element i).typeName = none) {q : QName}
    (hq : (s.declared.element i).substitution = some q) :
    ∃ h, s.element? q = some h ∧ (d.element h).type = (d.element i).type := by
  have htype := hl.elementType i hi
  generalize (d.element i).type = o at htype
  cases htype with
  | kept before =>
    rw [hnew] at before
    cases before
  | reference _ ref =>
    rw [href] at ref
    cases ref
  | written _ _ written =>
    rw [unwritten] at written
    cases written
  | named _ _ _ named =>
    rw [unnamed] at named
    cases named
  | taken _ _ _ _ head type =>
    obtain ⟨hlt, -⟩ := head.isGlobal hs
    obtain ⟨r, hr, hfound⟩ := head
    rw [hq] at hr
    cases hr
    exact ⟨_, hfound, type.unique (hl.elementType _ hlt)⟩
  | any _ _ _ _ headless =>
    rw [hq] at headless
    cases headless

theorem Linked.hasType (hl : Linked s d) (hs : s.Closed)
    (hnew : ∀ i, (s.declared.element i).type = none)
    (hplain : ({ s with declared := d } : SchemaSet).PlainTops) (hi : i < s.declared.elements.size)
    (href : (d.element i).ref = none) : ∃ t, HasType { s with declared := d } i t := by
  have hsame {α : Type} := hl.frame.declaredWith (α := α)
  have hplain₀ : s.PlainTops := by
    intro j hj hglobal
    rw [← hsame Element.ref fun _ => rfl]
    refine hplain j (hl.frame.elements_size.symm ▸ hj) ?_
    rwa [← hsame Element.isGlobal fun _ => rfl] at hglobal
  have href₀ : (s.declared.element i).ref = none := by
    rwa [← hsame Element.ref fun _ => rfl]
  obtain ⟨t, htype, halong⟩ := (hl.elementType i hi).typeAlong hs hnew hplain₀ href₀
  refine ⟨t, htype, halong.framed hl.frame, fun unwritten unnamed q hq => ?_⟩
  have unwritten₀ := (hsame Element.inline (fun _ => rfl) i).symm.trans unwritten
  have unnamed₀ := (hsame Element.typeName (fun _ => rfl) i).symm.trans unnamed
  have hq₀ := (hsame Element.substitution (fun _ => rfl) i).symm.trans hq
  obtain ⟨h, hfound, hhead⟩ := hl.type_of_head hs hnew hi href₀ unwritten₀ unnamed₀ hq₀
  exact ⟨h, hfound, hhead.trans htype⟩

end Typed

/-! ## Any order -/

section Orders

variable {s s' : SchemaSet} {ρ σ : Renaming}

/-- In whichever order the elements are linked, each comes out the same. -/
theorem SchemaSet.Parsed.linkInOrder (hs : s.Parsed) (hok : s.link.2 = .ok ())
    {order : List ElementId} (horder : order.Perm (Linking.places s.declared.elements)) :
    (s.linkInOrder order).2 = .ok () ∧
      ∀ i, (s.linkInOrder order).1.declared.element i = s.link.1.declared.element i := by
  have hl := Linked.of_link hs.closed hok
  rcases linkInOrder_cases hs.closed fun i => horder.mem_iff.trans List.mem_range with
    ⟨hok', hl'⟩ | ⟨f, -, hfault, -⟩
  · exact ⟨hok', hl.element_unique hl'⟩
  · exact (hl.no_fault hs.closed hs.unlinked hfault.fault).elim

/-- So it does wherever the declarations stand. -/
theorem SchemaSet.Rearranged.link_elements (h : s.Rearranged ρ σ s') (hs : s.Parsed)
    (hs' : s'.Parsed) (hok : s.link.2 = .ok ()) :
    s'.link.2 = .ok () ∧
      ∀ i, s'.link.1.declared.element (ρ .element i) = (s.link.1.declared.element i).rename ρ := by
  have hok' := (h.link_succeeds_iff hs hs').2 hok
  have hl := Linked.of_link hs.closed hok
  exact ⟨hok', Linked.element_rearranged h hl (Linked.of_link hs'.closed hok')⟩

end Orders

/-! ## After a load -/

namespace Loader

theorem steps_parsed : Steps fun l l' => l.set.Parsed → l'.set.Parsed where
  refl _ := id
  trans h h' hl := h' (h hl)
  say _ _ := id
  enter _ setting content _ hl := hl.read setting content

/-- The set of a new loader when it has read the documents, before they are linked. -/
def readSet (source : Source) (primary : String) : SchemaSet :=
  ((readAll primary).run.run { source }).2.set

theorem parsed_readSet (source : Source) (primary : String) : (readSet source primary).Parsed := by
  have hrun := leads_readAll steps_parsed primary { source }
  unfold Ensures at hrun
  unfold readSet
  split at hrun
  · rename_i heq
    rw [heq]
    exact hrun .empty
  · rename_i heq
    rw [heq]
    exact hrun .empty

/-- The set of a loader when it has read the documents, before they are linked. -/
def gathered (l : Loader) (primary : String) : SchemaSet := ((readAll primary).run.run l).2.set

theorem closed_gathered {l : Loader} (hl : l.set.Closed) (primary : String) :
    (l.gathered primary).Closed := by
  have hrun := leads_readAll steps_closed primary l
  unfold Ensures at hrun
  unfold gathered
  split at hrun
  · rename_i heq
    rw [heq]
    exact hrun hl
  · rename_i heq
    rw [heq]
    exact hrun hl

/-- A loader that succeeds has linked what it read. -/
theorem gathered_link {l : Loader} {primary : String} (h : (l.load primary).2 = .ok ()) :
    (l.gathered primary).link = (l.left primary, .ok ()) := by
  have hrun : Ensures (loadAll primary) l
      (fun _ l' => (l.gathered primary).link = (l'.set, .ok ())) fun _ _ => True := by
    unfold loadAll
    refine ensures_bind.2 ?_
    unfold Ensures gathered
    split
    · rename_i l' heq
      rw [heq]
      exact (ensures_linkAll_set l').mono (fun _ l'' hl'' => Prod.ext hl''.1.symm hl''.2)
        fun _ _ _ => trivial
    · trivial
  exact load_ok hrun h

theorem readSet_link {source : Source} {primary : String}
    (h : (({ source } : Loader).load primary).2 = .ok ()) :
    (readSet source primary).link = (({ source } : Loader).left primary, .ok ()) := gathered_link h

end Loader

open Loader in
/-- After a load of a new loader every element has its type, and it has it in whatever order the
elements are linked or declared. -/
theorem elements_typed (source : Source) (primary : String)
    (hok : (({ source } : Loader).load primary).2 = .ok ())
    (hplain : (({ source } : Loader).left primary).PlainTops) :
    let read := readSet source primary
    let linked := ({ source } : Loader).left primary
    (∀ i, linked.Holds i → i < linked.declared.elements.size) ∧
      (∀ i < linked.declared.elements.size, (linked.declared.element i).ref = none →
        ∃ t, HasType linked i t) ∧
      read.link = (linked, .ok ()) ∧
      (∀ order : List ElementId, order.Perm (Linking.places read.declared.elements) →
        (read.linkInOrder order).2 = .ok () ∧
          ∀ i, (read.linkInOrder order).1.declared.element i = linked.declared.element i) ∧
      ∀ ρ σ read', read'.Parsed → read.Rearranged ρ σ read' → read'.link.2 = .ok () ∧
        ∀ i, read'.link.1.declared.element (ρ .element i) =
          (linked.declared.element i).rename ρ := by
  intro read linked
  have hparsed := parsed_readSet source primary
  have hlink : read.link = (linked, .ok ()) := readSet_link hok
  have hlinked : read.link.1 = linked := congrArg Prod.fst hlink
  have hread : read.link.2 = .ok () := congrArg Prod.snd hlink
  have hl := Linked.of_link hparsed.closed hread
  have hset : linked = { read with declared := linked.declared } := hlinked ▸ rfl
  rw [hlinked] at hl
  refine ⟨fun i hi => hi.lt (hlinked ▸ hparsed.closed.link), fun i hi href => ?_, hlink,
    fun order horder => ?_, fun ρ σ read' hparsed' hsets => ?_⟩
  · rw [hset]
    exact hl.hasType hparsed.closed hparsed.unlinked (hset ▸ hplain)
      (hl.frame.elements_size ▸ hi) href
  · rw [← hlinked]
    exact hparsed.linkInOrder hread horder
  · rw [← hlinked]
    exact hsets.link_elements hparsed hparsed' hread

/-- The element `a` takes its type over from `b`, and `b` from `c`, which comes last.  Another `a`
stands in a type and has any type. -/
def chainedText : String :=
  "<s:schema xmlns:s=\"" ++ xsSpace ++ "\"><s:element name=\"a\" substitutionGroup=\"b\"/>" ++
    "<s:element name=\"b\" substitutionGroup=\"c\"/><s:element name=\"c\" type=\"s:int\"/>" ++
    "<s:complexType name=\"t\"><s:sequence><s:element name=\"a\"/></s:sequence></s:complexType>" ++
    "</s:schema>"

def chained : SchemaSet := .ofText chainedText

theorem chained_elements_typed : (Loader.ofText chainedText).2 = .ok () ∧ chained.PlainTops ∧
    chained.declared.elements.size = 4 ∧
    ((chained.declared.element 0).type.map chained.declared.typeName = some (some "int") ∧
      (chained.declared.element 3).type = some anyType) ∧
    ∀ i < chained.declared.elements.size, (chained.declared.element i).ref = none →
      ∃ t, HasType chained i t := by
  have hfacts : (Loader.ofText chainedText).2 = .ok () ∧ chained.PlainTops ∧
      chained.declared.elements.size = 4 ∧
      (chained.declared.element 0).type.map chained.declared.typeName = some (some "int") ∧
      (chained.declared.element 3).type = some anyType := by
    rw [chained, SchemaSet.ofText_eq, Loader.ofText_eq]
    decide +kernel
  obtain ⟨hload, hplain, hsize, htypes⟩ := hfacts
  have hleft : chained = Loader.left
      { source := .upload [("a.xsd", chainedText.toUTF8.toList)] } "a.xsd" :=
    SchemaSet.ofText_left chainedText
  refine ⟨hload, hplain, hsize, htypes, ?_⟩
  rw [hleft] at hplain ⊢
  exact (elements_typed _ _ hload hplain).2.1

end Schema
end SchemaPaths
