/-
What reading a document leaves behind.

Whatever is read, and wherever reading stops, the declarations stay closed and those that were there
stay as they are.  `Reads d m good` says this of a reading `m` that starts from `d` or from anything
that `d` has grown to, with `good` for what it returns.
-/
import SchemaPaths.Proofs.Ensures
import SchemaPaths.Proofs.Schema.Closed
import SchemaPaths.Schema.Declaring

namespace SchemaPaths
namespace Schema

open Declarations

def Reads {α : Type} (d : Declarations) (m : Declare α) (good : Declarations → α → Prop) : Prop :=
  ∀ e, d.Grows e → e.Closed →
    Ensures m e (fun a f => f.Closed ∧ e.Grows f ∧ good f a) fun _ f => f.Closed ∧ e.Grows f

namespace Reads

variable {α β : Type} {d : Declarations} {good good' : Declarations → α → Prop}

theorem pure {a : α} (h : ∀ e, d.Grows e → good e a) : Reads d (Pure.pure a) good :=
  fun e he hc => ensures_pure.2 ⟨hc, .refl e, h e he⟩

theorem fail {e : Failure} : Reads d (throw e : Declare α) good :=
  fun e _ hc => ensures_throw.2 ⟨hc, .refl e⟩

theorem bind {m : Declare α} {f : α → Declare β} {good' : Declarations → β → Prop}
    (h : Reads d m good) (hf : ∀ a e, d.Grows e → good e a → Reads e (f a) good') :
    Reads d (m >>= f) good' := by
  intro e he hc
  refine Ensures.bind (h e he hc) fun a f' hf' => ?_
  obtain ⟨hc', hgrow, hgood⟩ := hf'
  refine (hf a f' (he.trans hgrow) hgood f' (.refl f') hc').mono ?_ ?_
  · exact fun b g hg => ⟨hg.1, hgrow.trans hg.2.1, hg.2.2⟩
  · exact fun x g hg => ⟨hg.1, hgrow.trans hg.2⟩

theorem mono {m : Declare α} (h : Reads d m good) (hg : ∀ e a, d.Grows e → good e a → good' e a) :
    Reads d m good' :=
  fun e he hc => (h e he hc).mono
    (fun a f hf => ⟨hf.1, hf.2.1, hg f a (he.trans hf.2.1) hf.2.2⟩) fun _ _ hf => hf

theorem map {m : Declare α} {f : α → β} {good' : Declarations → β → Prop}
    (h : Reads d m fun e a => good' e (f a)) : Reads d (f <$> m) good' :=
  fun e he hc => ensures_map.2 (h e he hc)

/-- A reading from `d` is one from all that `d` grows to. -/
theorem grown {m : Declare α} {e : Declarations} (h : Reads d m good) (he : d.Grows e) :
    Reads e m good :=
  fun f hf hc => h f (he.trans hf) hc

end Reads

/-! ## Entering declarations -/

section Entering

variable {d : Declarations}

theorem reads_enterElement {e : Element} (h : d.extent.HasElement e) (hn : d.NestedElement e)
    (hu : e.type = none) :
    Reads d (Declaring.enterElement e) fun f i => i < f.elements.size ∧ f.element i = e := by
  intro f hf hc
  refine ensures_modifyGet.2 ⟨hc.addElement (h.mono hf.extent),
    grows_addElement hu (hn.kept hf.toKept), ?_, ?_⟩
  · simp [addElement]
  · rw [element_addElement]
    exact if_pos rfl

theorem reads_enterAttribute {a : Attribute} (h : d.extent.HasAttribute a) :
    Reads d (Declaring.enterAttribute a) fun f i => i < f.attributes.size := by
  intro f hf hc
  refine ensures_modifyGet.2 ⟨hc.addAttribute (h.mono hf.extent), grows_addAttribute a, ?_⟩
  simp [addAttribute]

theorem reads_enterSimpleType {t : SimpleType} (h : d.extent.HasSimpleType t) :
    Reads d (Declaring.enterSimpleType t) fun f i =>
      i < f.simpleTypes.size ∧ (f.simpleType i).name = t.name := by
  intro f hf hc
  refine ensures_modifyGet.2
    ⟨hc.addSimpleType (h.mono hf.extent), grows_addSimpleType t, ?_, ?_⟩
  · simp [addSimpleType]
  · rw [simpleType_addSimpleType]
    exact congrArg SimpleType.name (if_pos rfl)

theorem reads_enterParticle :
    Reads d Declaring.enterParticle fun f i => f.extent.HasIdentity (.declared i) :=
  fun _ _ hc => ensures_modifyGet.2
    ⟨hc.addParticle, grows_addParticle, Nat.lt_succ_self _⟩

/-- What may be declared as the content of a type or a group. -/
def GoodModel (d : Declarations) (n : Node) : Prop := n.IsModel ∧ d.LocalContent n

theorem GoodModel.grown {d e : Declarations} {n : Node} (h : GoodModel d n) (he : d.Grows e) :
    GoodModel e n :=
  ⟨h.1, h.2.kept he.toKept⟩

theorem reads_enterComplexType {t : ComplexType} (h : d.extent.HasComplexType t)
    (ht : ∀ n ∈ Linking.ownParticle t, GoodModel d n) :
    Reads d (Declaring.enterComplexType t) fun f i =>
      i < f.complexTypes.size ∧ (f.complexType i).name = t.name := by
  intro f hf hc
  refine ensures_modifyGet.2 ⟨hc.addComplexType (h.mono hf.extent),
    grows_addComplexType fun n hn => ((ht n hn).grown hf).2, ?_, ?_⟩
  · simp [addComplexType]
  · rw [complexType_addComplexType]
    exact congrArg ComplexType.name (if_pos rfl)

theorem reads_enterGroup {g : Group} (h : ∀ n ∈ g.particle, GoodModel d n) :
    Reads d (Declaring.enterGroup g) fun f i => i < f.groups.size := by
  intro f hf hc
  have hg : f.extent.HasGroup g := fun n hn => ⟨(h n hn).1, ((h n hn).grown hf).2.hasContent⟩
  refine ensures_modifyGet.2
    ⟨hc.addGroup hg, grows_addGroup fun n hn => ((h n hn).grown hf).2, ?_⟩
  simp [addGroup]

theorem reads_enterAttributeGroup {g : AttributeGroup} (h : d.extent.HasAttributeGroup g) :
    Reads d (Declaring.enterAttributeGroup g) fun f i =>
      i < f.attributeGroups.size ∧ (f.attributeGroup i).space = g.space := by
  intro f hf hc
  refine ensures_modifyGet.2
    ⟨hc.addAttributeGroup (h.mono hf.extent), grows_addAttributeGroup g, ?_, ?_⟩
  · simp [addAttributeGroup]
  · rw [attributeGroup_addAttributeGroup]
    exact congrArg AttributeGroup.space (if_pos rfl)

end Entering

/-! ## Values -/

section Values

variable {d : Declarations} {s : Setting}

theorem reads_qname {v : Option String} : Reads d (Declaring.qname s v) fun _ _ => True := by
  unfold Declaring.qname Declaring.refuse
  split
  · exact .pure fun _ _ => trivial
  · split
    · exact .pure fun _ _ => trivial
    · dsimp only
      split
      · split
        · exact .pure fun _ _ => trivial
        · exact .fail
      · exact .pure fun _ _ => trivial

theorem reads_integer {v : String} : Reads d (Declaring.integer v) fun _ _ => True := by
  unfold Declaring.integer
  split
  · exact .pure fun _ _ => trivial
  · exact .fail

theorem reads_occurs {as : Attributes} : Reads d (Declaring.occurs as) fun _ _ => True := by
  unfold Declaring.occurs
  refine reads_integer.bind fun min e _ _ => ?_
  dsimp only
  split
  · exact .pure fun _ _ => trivial
  · exact reads_integer.bind fun _ _ _ _ => .pure fun _ _ => trivial

theorem reads_elementOccurs {isGlobal : Bool} {as : Attributes} :
    Reads d (Declaring.elementOccurs isGlobal as) fun _ _ => True := by
  unfold Declaring.elementOccurs
  split
  · exact .pure fun _ _ => trivial
  · exact reads_occurs

theorem reads_wildcard {as : Attributes} :
    Reads d (Declaring.wildcard as) fun e n => e.LocalContent n := by
  refine reads_occurs.bind fun o e _ _ =>
    reads_enterParticle.bind fun i f _ hi => .pure fun g hg => ?_
  exact Node.MadeOf.of_isAtom trivial (LocalAtom.kept ⟨hi, nofun⟩ hg.toKept)

theorem reads_groupRef {as : Attributes} :
    Reads d (Declaring.groupRef? s as) fun e r => ∀ n ∈ r, GoodModel e n := by
  unfold Declaring.groupRef?
  split
  · exact .pure fun _ _ => nofun
  · refine reads_occurs.bind fun o e _ _ => reads_qname.bind fun q f _ _ => .pure ?_
    rintro g _ n hn
    obtain ⟨q, -, rfl⟩ := Option.map_eq_some_iff.1 hn
    exact ⟨trivial, Node.MadeOf.of_isAtom trivial ⟨trivial, nofun⟩⟩

end Values

/-! ## Simple types and attributes -/

section Simple

open Declaring

variable {s : Setting}

mutual

theorem reads_simplePart :
    ∀ (part : Markup.Tree) {d : Declarations} {t : SimpleType}, d.extent.HasSimpleType t →
      Reads d (simplePart s part t) fun e u => e.extent.HasSimpleType u ∧ u.name = t.name
  | .text _, d, t, ht => by
    rw [simplePart]
    exact .pure fun e he => ⟨ht.mono he.extent, rfl⟩
  | .element n as content, d, t, ht => by
    have same : Reads d (pure t : Declare SimpleType) fun e u =>
        e.extent.HasSimpleType u ∧ u.name = t.name :=
      .pure fun e he => ⟨ht.mono he.extent, rfl⟩
    rw [simplePart]
    split
    · refine reads_qname.bind fun baseName e he _ => ?_
      refine (reads_firstSimple content).bind fun found f hf hfound => .pure fun g hg => ⟨⟨?_⟩, rfl⟩
      have ht' := ht.mono (he.trans (hf.trans hg)).extent
      cases found with
      | none => exact ht'.base
      | some i =>
        rintro r ⟨⟩
        exact Extent.HasSimple.mono (r := .declared i) hg.extent (hfound i rfl)
    · refine reads_qname.bind fun itemName e he _ => .pure fun f hf => ⟨⟨?_⟩, rfl⟩
      exact (ht.mono (he.trans hf).extent).base
    · exact .pure fun e he => ⟨⟨(ht.mono he.extent).base⟩, rfl⟩
    · exact same

theorem reads_simpleParts :
    ∀ (parts : List Markup.Tree) {d : Declarations} {t : SimpleType}, d.extent.HasSimpleType t →
      Reads d (simpleParts s parts t) fun e u => e.extent.HasSimpleType u ∧ u.name = t.name
  | [], d, t, ht => by
    rw [simpleParts]
    exact .pure fun e he => ⟨ht.mono he.extent, rfl⟩
  | part :: parts, d, t, ht => by
    rw [simpleParts]
    refine (reads_simplePart part ht).bind fun u e _ hu => ?_
    exact (reads_simpleParts parts hu.1).mono fun _ _ _ hv => ⟨hv.1, hv.2.trans hu.2⟩

theorem reads_simple? :
    ∀ (t : Markup.Tree) {d : Declarations},
      Reads d (simple? s t) fun e r => ∀ i ∈ r, i < e.simpleTypes.size
  | .text _, d => by
    rw [simple?]
    exact .pure fun _ _ => nofun
  | .element n _ content, d => by
    rw [simple?]
    split
    · refine .map ?_
      rw [simpleTypeOf]
      have new : d.extent.HasSimpleType
          { space := declaredSpace s none, notes := notesOf content } := ⟨nofun⟩
      refine (reads_simpleParts content new).bind fun t e _ ht => ?_
      refine (reads_enterSimpleType ht.1).mono fun f i _ hi => ?_
      rintro j ⟨⟩
      exact hi.1
    · exact .pure fun _ _ => nofun

theorem reads_firstSimple :
    ∀ (ts : List Markup.Tree) {d : Declarations},
      Reads d (firstSimple s ts) fun e r => ∀ i ∈ r, i < e.simpleTypes.size
  | [], d => by
    rw [firstSimple]
    exact .pure fun _ _ => nofun
  | t :: ts, d => by
    rw [firstSimple]
    refine (reads_simple? t).bind fun found e _ hfound => ?_
    cases found with
    | none => exact reads_firstSimple ts
    | some i =>
      refine .pure fun f hf => ?_
      rintro j ⟨⟩
      exact Nat.lt_of_lt_of_le (hfound i rfl) hf.extent.simpleTypes

end

variable {d : Declarations}

theorem reads_simpleType {name : Option String} {content : List Markup.Tree} :
    Reads d (simpleType s name content) fun e i =>
      i < e.simpleTypes.size ∧ (e.simpleType i).name = name := by
  have new : d.extent.HasSimpleType
      { name, space := declaredSpace s name, notes := notesOf content } := ⟨nofun⟩
  refine (reads_simpleParts content new).bind fun t _ _ ht => ?_
  exact (reads_enterSimpleType ht.1).mono fun _ _ _ hi => ⟨hi.1, hi.2.trans ht.2⟩

theorem reads_attr {isGlobal : Bool} {as : Attributes} {content : List Markup.Tree} :
    Reads d (attr s isGlobal as content) fun e i => i < e.attributes.size := by
  refine (reads_firstSimple content).bind fun inline e _ hinline => ?_
  refine reads_qname.bind fun ref f hf _ => reads_qname.bind fun typeName g hg _ => ?_
  have hext := (hf.trans hg).extent
  exact reads_enterAttribute ⟨fun i hi => Nat.lt_of_lt_of_le (hinline i hi) hext.simpleTypes, nofun⟩

theorem reads_attributeUses (content : List Markup.Tree) :
    Reads d (attributeUses s content) fun e r => ∀ a ∈ r.1, a < e.attributes.size := by
  induction content generalizing d with
  | nil => exact .pure fun _ _ => nofun
  | cons t ts ih =>
    cases t with
    | text => exact ih
    | element n as content =>
      rw [attributeUses]
      split
      · refine reads_attr.bind fun a e _ ha => ih.bind fun r f hf hr => .pure fun g hg => ?_
        rintro b (_ | ⟨_, hb⟩)
        · exact Nat.lt_of_lt_of_le ha (hf.trans hg).extent.attributes
        · exact Nat.lt_of_lt_of_le (hr b hb) hg.extent.attributes
      · refine reads_qname.bind fun q e _ _ => ih.bind fun r f _ hr => .pure fun g hg => ?_
        exact fun b hb => Nat.lt_of_lt_of_le (hr b hb) hg.extent.attributes
      · exact ih

end Simple

/-! ## Elements, complex types and their content -/

section Complex

open Declaring

structure GoodDerived (d : Declarations) (m : Derived) : Prop where
  particle : ∀ n ∈ m.particle, GoodModel d n
  attributes : ∀ a ∈ m.attributes, a < d.attributes.size

theorem GoodDerived.grown {d e : Declarations} {m : Derived} (h : GoodDerived d m)
    (he : d.Grows e) : GoodDerived e m :=
  ⟨fun n hn => (h.particle n hn).grown he,
    fun a ha => Nat.lt_of_lt_of_le (h.attributes a ha) he.extent.attributes⟩

variable {s : Setting} {d : Declarations}

/-- A type as it is written in an element: declared, and without a name. -/
def GoodInline (d : Declarations) (r : Option TypeRef) : Prop :=
  ∀ t ∈ r, d.extent.HasType t ∧ d.typeName t = none

theorem GoodInline.none : GoodInline d none := by rintro t ⟨⟩

theorem GoodInline.grown {d e : Declarations} {r : Option TypeRef} (h : GoodInline d r)
    (he : d.Grows e) : GoodInline e r := by
  intro t ht
  obtain ⟨htype, hname⟩ := h t ht
  exact ⟨htype.mono he.extent, (he.typeName t htype).trans hname⟩

theorem identity_ref {isGlobal : Bool} {form : String} {as : Attributes} {ref : Option QName}
    (q : QName) (hq : q ∈ ref) : (identity s isGlobal form as ref).2 = q.name := by
  cases hq
  rfl

theorem reads_elementOf {isGlobal : Bool} {as : Attributes} {content : List Markup.Tree}
    {inline : Declare (Option TypeRef)} (h : Reads d inline GoodInline) :
    Reads d (elementOf s isGlobal as content inline) fun e i =>
      i < e.elements.size ∧ (e.element i).isGlobal = isGlobal := by
  refine reads_elementOccurs.bind fun o e he _ => (h.grown he).bind fun r f _ hr => ?_
  refine reads_qname.bind fun ref g hg _ => reads_qname.bind fun typeName g' hg' _ =>
    reads_qname.bind fun sub g'' hg'' _ => ?_
  have hr := hr.grown (hg.trans (hg'.trans hg''))
  refine (reads_enterElement ?_ ?_ rfl).mono fun k i _ hi => ⟨hi.1, ?_⟩
  · exact ⟨fun t ht => (hr t ht).1, nofun⟩
  · exact ⟨hr, identity_ref⟩
  · rw [hi.2]

theorem hasComplexType_derived {m : Derived} (hm : GoodDerived d m) (name : Option String)
    (space : String) (mixed : Bool) (notes : List String) :
    d.extent.HasComplexType { name, space, mixed, model := some m, notes } where
  particle _ := rfl
  unlisted _ := rfl
  own n hn := ⟨(hm.particle n hn).1, (hm.particle n hn).2.hasContent⟩
  attributes := hm.attributes
  base := nofun
  content := nofun
  uses := nofun

theorem hasComplexType_plain {p : Option Node} {as : List AttributeId}
    (hp : ∀ n ∈ p, GoodModel d n) (ha : ∀ a ∈ as, a < d.attributes.size) (name : Option String)
    (space : String) (mixed : Bool) (groups : List QName) (notes : List String) :
    d.extent.HasComplexType {
      name, space, mixed, particle := p, attributes := as, attributeGroups := groups, notes } where
  particle := nofun
  unlisted := nofun
  own n hn := ⟨(hp n hn).1, (hp n hn).2.hasContent⟩
  attributes := ha
  base := nofun
  content := nofun
  uses := nofun

theorem reads_complexTypeOf {name : Option String} {as : Attributes} {content : List Markup.Tree}
    {model : Declare (Option Derived)} {particle : Declare (Option Node)}
    (hm : Reads d model fun e r => ∀ m ∈ r, GoodDerived e m)
    (hp : Reads d particle fun e r => ∀ n ∈ r, GoodModel e n) :
    Reads d (complexTypeOf s name as content model particle) fun e i =>
      i < e.complexTypes.size ∧ (e.complexType i).name = name := by
  refine hm.bind fun r e he hr => ?_
  cases r with
  | some m =>
    exact reads_enterComplexType (hasComplexType_derived (hr m rfl) ..) (hr m rfl).particle
  | none =>
    refine (hp.grown he).bind fun p f _ hpf => (reads_attributeUses content).bind fun u g hg hu => ?_
    have hp' := fun n hn => (hpf n hn).grown hg
    exact reads_enterComplexType (hasComplexType_plain hp' hu ..) hp'

theorem reads_derivedOf {simple mixed : Bool} {derivation : Derivation} {as : Attributes}
    {content : List Markup.Tree} {particle : Declare (Option Node)}
    (hp : Reads d particle fun e r => ∀ n ∈ r, GoodModel e n) :
    Reads d (derivedOf s simple mixed derivation as content particle) fun e m =>
      GoodDerived e m := by
  refine (reads_attributeUses content).bind fun u e he hu => reads_qname.bind fun q f hf _ => ?_
  refine (hp.grown (he.trans hf)).bind fun p g hg hpg => .pure fun g' hg' => ⟨?_, ?_⟩
  · exact fun n hn => (hpg n hn).grown hg'
  · exact fun a ha => Nat.lt_of_lt_of_le (hu a ha) (hf.trans (hg.trans hg')).extent.attributes

/-- A sequence or a choice of good items is good. -/
theorem reads_compositorOf {as : Attributes} {items : Declare (List Node)}
    {make : Identity → Occurs → List Node → Node} (hmake : Node.Composes make)
    (h : Reads d items fun e ns => ∀ n ∈ ns, e.LocalContent n) :
    Reads d (compositorOf make as items) fun e r => ∀ n ∈ r, GoodModel e n := by
  refine reads_occurs.bind fun o e he _ => (h.grown he).bind fun ns f _ hns => ?_
  refine reads_enterParticle.bind fun i g hg hi => .pure ?_
  rintro g' hg' n ⟨⟩
  refine ⟨hmake.isModel _ o ns, Node.MadeOf.compose hmake (hi.mono hg'.extent) fun m hm => ?_⟩
  exact (hns m hm).kept (hg.trans hg').toKept

/-- The first of several readings that finds something. -/
theorem reads_first {α : Type} {first rest : Declare (Option α)}
    {next : Option α → Declare (Option α)} {good : Declarations → α → Prop}
    (hnone : next none = rest) (hsome : ∀ a, next (some a) = pure (some a))
    (hgood : ∀ e f a, e.Grows f → good e a → good f a)
    (h : Reads d first fun e r => ∀ a ∈ r, good e a)
    (h' : Reads d rest fun e r => ∀ a ∈ r, good e a) :
    Reads d (first >>= next) fun e r => ∀ a ∈ r, good e a := by
  refine h.bind fun r e he hr => ?_
  cases r with
  | none => exact hnone ▸ h'.grown he
  | some a =>
    rw [hsome]
    refine .pure fun f hf => ?_
    rintro b ⟨⟩
    exact hgood e f a hf (hr a rfl)

mutual

theorem reads_inline? :
    ∀ (t : Markup.Tree) {d : Declarations}, Reads d (inline? s t) GoodInline
  | .text _, d => by
    rw [inline?]
    exact .pure fun _ _ => .none
  | .element n as content, d => by
    rw [inline?]
    split
    · refine (reads_complexTypeOf (reads_model none content) (reads_particle content)).bind
        fun i e _ hi => .pure fun f hf => ?_
      refine GoodInline.grown ?_ hf
      rintro t ⟨⟩
      exact hi
    · refine reads_simpleType.bind fun i e _ hi => .pure fun f hf => ?_
      refine GoodInline.grown ?_ hf
      rintro t ⟨⟩
      exact hi
    · exact .pure fun _ _ => .none

theorem reads_lastInline :
    ∀ (ts : List Markup.Tree) {d : Declarations} {last : Option TypeRef},
      GoodInline d last → Reads d (lastInline s ts last) GoodInline
  | [], d, last, h => by
    rw [lastInline]
    exact .pure fun e he => h.grown he
  | t :: ts, d, last, h => by
    rw [lastInline]
    refine (reads_inline? t).bind fun r e he hr => reads_lastInline ts fun u hu => ?_
    rcases Option.or_eq_some_iff.1 hu with hu | ⟨-, hu⟩
    · exact hr u hu
    · exact h.grown he u hu

theorem reads_particle? :
    ∀ (t : Markup.Tree) {d : Declarations},
      Reads d (particle? s t) fun e r => ∀ n ∈ r, GoodModel e n
  | .text _, d => by
    rw [particle?]
    exact .pure fun _ _ => nofun
  | .element n as content, d => by
    rw [particle?]
    split
    · exact reads_compositorOf (Node.composes_sequence _) (reads_items content)
    · exact reads_compositorOf (Node.composes_sequence _) (reads_items content)
    · exact reads_compositorOf Node.composes_choice (reads_items content)
    · exact reads_groupRef
    · exact .pure fun _ _ => nofun

theorem reads_particle :
    ∀ (ts : List Markup.Tree) {d : Declarations},
      Reads d (particle s ts) fun e r => ∀ n ∈ r, GoodModel e n
  | [], d => by
    rw [particle]
    exact .pure fun _ _ => nofun
  | t :: ts, d => by
    rw [particle]
    exact reads_first rfl (fun _ => rfl) (fun _ _ _ he hn => hn.grown he) (reads_particle? t)
      (reads_particle ts)

theorem reads_item? :
    ∀ (t : Markup.Tree) {d : Declarations},
      Reads d (item? s t) fun e r => ∀ n ∈ r, e.LocalContent n
  | .text _, d => by
    rw [item?]
    exact .pure fun _ _ => nofun
  | .element n as content, d => by
    have model {m : Declare (Option Node)} (h : Reads d m fun e r => ∀ n ∈ r, GoodModel e n) :
        Reads d m fun e r => ∀ n ∈ r, e.LocalContent n :=
      h.mono fun _ _ _ h n hn => (h n hn).2
    rw [item?]
    split
    · refine (reads_elementOf (reads_lastInline content .none)).bind fun i e _ hi =>
        .pure fun f hf => ?_
      rintro n ⟨⟩
      refine Node.MadeOf.of_isAtom trivial (Declarations.LocalAtom.kept ⟨hi.1, ?_⟩ hf.toKept)
      rintro j ⟨⟩
      exact hi.2
    · exact model (reads_compositorOf (Node.composes_sequence _) (reads_items content))
    · exact model (reads_compositorOf Node.composes_choice (reads_items content))
    · exact model reads_groupRef
    · refine reads_wildcard.bind fun w e _ hw => .pure fun f hf => ?_
      rintro n ⟨⟩
      exact hw.kept hf.toKept
    · exact .pure fun _ _ => nofun

theorem reads_items :
    ∀ (ts : List Markup.Tree) {d : Declarations},
      Reads d (items s ts) fun e ns => ∀ n ∈ ns, e.LocalContent n
  | [], d => by
    rw [items]
    exact .pure fun _ _ => nofun
  | t :: ts, d => by
    rw [items]
    refine (reads_item? t).bind fun first e _ hfirst =>
      (reads_items ts).bind fun rest f hf hrest => .pure fun g hg n hn => ?_
    rcases List.mem_append.1 hn with hn | hn
    · exact (hfirst n (Option.mem_toList.1 hn)).kept (hf.trans hg).toKept
    · exact (hrest n hn).kept hg.toKept

theorem reads_derived? {simple mixed : Bool} :
    ∀ (t : Markup.Tree) {d : Declarations},
      Reads d (derived? s simple mixed t) fun e r => ∀ m ∈ r, GoodDerived e m
  | .text _, d => by
    rw [derived?]
    exact .pure fun _ _ => nofun
  | .element n as content, d => by
    rw [derived?]
    split
    · refine .map ((reads_derivedOf (reads_particle content)).mono fun e m _ hm => ?_)
      rintro m' ⟨⟩
      exact hm
    · exact .pure fun _ _ => nofun

theorem reads_derived {simple mixed : Bool} {name : Option String} :
    ∀ (ts : List Markup.Tree) {d : Declarations},
      Reads d (derived s simple mixed name ts) fun e m => GoodDerived e m
  | [], d => by
    rw [derived]
    exact .fail
  | t :: ts, d => by
    rw [derived]
    refine (reads_derived? t).bind fun r e _ hr => ?_
    cases r with
    | none => exact reads_derived ts
    | some m => exact .pure fun f hf => (hr m rfl).grown hf

theorem reads_model? {name : Option String} :
    ∀ (t : Markup.Tree) {d : Declarations},
      Reads d (model? s name t) fun e r => ∀ m ∈ r, GoodDerived e m
  | .text _, d => by
    rw [model?]
    exact .pure fun _ _ => nofun
  | .element n as content, d => by
    have whole {simple mixed : Bool} :
        Reads d (some <$> derived s simple mixed name content) fun e r =>
          ∀ m ∈ r, GoodDerived e m := by
      refine .map ((reads_derived content).mono fun e m _ hm => ?_)
      rintro m' ⟨⟩
      exact hm
    rw [model?]
    split
    · exact whole
    · exact whole
    · exact .pure fun _ _ => nofun

theorem reads_model (name : Option String) :
    ∀ (ts : List Markup.Tree) {d : Declarations},
      Reads d (model s name ts) fun e r => ∀ m ∈ r, GoodDerived e m
  | [], d => by
    rw [model]
    exact .pure fun _ _ => nofun
  | t :: ts, d => by
    rw [model]
    exact reads_first rfl (fun _ => rfl) (fun _ _ _ he hm => hm.grown he) (reads_model? t)
      (reads_model name ts)

end

end Complex

/-! ## Documents -/

section Documents

open Declaring

/-- The declarations that a document lists are there, its elements are those at the top, and its
attribute groups are its own. -/
structure GoodDocument (d : Declarations) (doc : Document) : Prop where
  elements : ∀ i ∈ doc.elements, i < d.elements.size
  isGlobal : ∀ i ∈ doc.elements, (d.element i).isGlobal
  types : ∀ r ∈ doc.types, d.extent.HasType r
  groups : ∀ i ∈ doc.groups, i < d.groups.size
  attributes : ∀ i ∈ doc.attributes, i < d.attributes.size
  attributeGroups : ∀ i ∈ doc.attributeGroups,
    i < d.attributeGroups.size ∧ (d.attributeGroup i).space = doc.space

theorem GoodDocument.grown {d e : Declarations} {doc : Document} (h : GoodDocument d doc)
    (he : d.Grows e) : GoodDocument e doc where
  elements i hi := Nat.lt_of_lt_of_le (h.elements i hi) he.extent.elements
  isGlobal i hi := by
    rw [he.element i (h.elements i hi)]
    exact h.isGlobal i hi
  types r hr := (h.types r hr).mono he.extent
  groups i hi := Nat.lt_of_lt_of_le (h.groups i hi) he.extent.groups
  attributes i hi := Nat.lt_of_lt_of_le (h.attributes i hi) he.extent.attributes
  attributeGroups i hi := by
    obtain ⟨hlt, hspace⟩ := h.attributeGroups i hi
    exact ⟨Nat.lt_of_lt_of_le hlt he.extent.attributeGroups,
      by rw [he.attributeGroup i hlt, hspace]⟩

variable {s : Setting} {d : Declarations}

theorem reads_element {isGlobal : Bool} {as : Attributes} {content : List Markup.Tree} :
    Reads d (element s isGlobal as content) fun e i =>
      i < e.elements.size ∧ (e.element i).isGlobal = isGlobal :=
  reads_elementOf (reads_lastInline content .none)

theorem reads_complexType {name : Option String} {as : Attributes} {content : List Markup.Tree} :
    Reads d (complexType s name as content) fun e i => i < e.complexTypes.size :=
  (reads_complexTypeOf (reads_model name content) (reads_particle content)).mono
    fun _ _ _ hi => hi.1

theorem reads_group {as : Attributes} {content : List Markup.Tree} :
    Reads d (group s as content) fun e i => i < e.groups.size :=
  (reads_particle content).bind fun _ _ _ hp => reads_enterGroup hp

theorem reads_attributeGroup {as : Attributes} {content : List Markup.Tree} :
    Reads d (attributeGroup s as content) fun e i =>
      i < e.attributeGroups.size ∧ (e.attributeGroup i).space = s.space :=
  (reads_attributeUses content).bind fun _ _ _ hu => reads_enterAttributeGroup hu

/-- A member behind the members of a list that all have a property. -/
theorem forall_mem_snoc {α : Type} {p : α → Prop} {l : List α} {a : α} (hl : ∀ b ∈ l, p b)
    (ha : p a) : ∀ b ∈ l ++ [a], p b := by
  intro b hb
  rcases List.mem_append.1 hb with hb | hb
  · exact hl b hb
  · exact List.mem_singleton.1 hb ▸ ha

theorem reads_topLevel {n : Markup.Name} {as : Attributes} {content : List Markup.Tree}
    {doc : Document} {directives : List Directive} (h : GoodDocument d doc)
    (hspace : doc.space = s.space) :
    Reads d (topLevel s n as content doc directives) fun e r =>
      GoodDocument e r.1 ∧ r.1.space = s.space := by
  have same {directives : List Directive} :
      Reads d (pure (doc, directives) : Declare (Document × List Directive)) fun e r =>
        GoodDocument e r.1 ∧ r.1.space = s.space :=
    .pure fun e he => ⟨h.grown he, hspace⟩
  rw [topLevel]
  split
  · exact same
  · exact same
  · exact same
  · refine reads_element.bind fun i e he hi => .pure fun f hf => ⟨?_, hspace⟩
    have hi' := Nat.lt_of_lt_of_le hi.1 hf.extent.elements
    have hglobal : (f.element i).isGlobal := by
      rw [hf.element i hi.1]
      exact hi.2
    exact { h.grown (he.trans hf) with
      elements := forall_mem_snoc (h.grown (he.trans hf)).elements hi'
      isGlobal := forall_mem_snoc (h.grown (he.trans hf)).isGlobal hglobal }
  · refine reads_complexType.bind fun i e he hi => .pure fun f hf => ⟨?_, hspace⟩
    have hi' := Nat.lt_of_lt_of_le hi hf.extent.complexTypes
    exact { h.grown (he.trans hf) with
      types := forall_mem_snoc (h.grown (he.trans hf)).types hi' }
  · refine reads_simpleType.bind fun i e he hi => .pure fun f hf => ⟨?_, hspace⟩
    have hi' := Nat.lt_of_lt_of_le hi.1 hf.extent.simpleTypes
    exact { h.grown (he.trans hf) with
      types := forall_mem_snoc (h.grown (he.trans hf)).types hi' }
  · refine reads_group.bind fun i e he hi => .pure fun f hf => ⟨?_, hspace⟩
    have hi' := Nat.lt_of_lt_of_le hi hf.extent.groups
    exact { h.grown (he.trans hf) with
      groups := forall_mem_snoc (h.grown (he.trans hf)).groups hi' }
  · refine reads_attr.bind fun i e he hi => .pure fun f hf => ⟨?_, hspace⟩
    have hi' := Nat.lt_of_lt_of_le hi hf.extent.attributes
    exact { h.grown (he.trans hf) with
      attributes := forall_mem_snoc (h.grown (he.trans hf)).attributes hi' }
  · refine reads_attributeGroup.bind fun i e he hi => .pure fun f hf => ⟨?_, hspace⟩
    have hi' : i < f.attributeGroups.size ∧ (f.attributeGroup i).space = doc.space := by
      rw [hf.attributeGroup i hi.1, hspace]
      exact ⟨Nat.lt_of_lt_of_le hi.1 hf.extent.attributeGroups, hi.2⟩
    exact { h.grown (he.trans hf) with
      attributeGroups := forall_mem_snoc (h.grown (he.trans hf)).attributeGroups hi' }
  · exact same

theorem reads_topLevels (content : List Markup.Tree) {doc : Document}
    {directives : List Directive} (h : GoodDocument d doc) (hspace : doc.space = s.space) :
    Reads d (topLevels s doc directives content) fun e r => GoodDocument e r.1 := by
  induction content generalizing d doc directives with
  | nil => exact .pure fun e he => h.grown he
  | cons t ts ih =>
    cases t with
    | text => exact ih h hspace
    | element n as content =>
      exact (reads_topLevel h hspace).bind fun r e _ hr => ih hr.1 hr.2

theorem reads_document (content : List Markup.Tree) :
    Reads d (document s content) fun e r => GoodDocument e r.1 :=
  reads_topLevels content ⟨nofun, nofun, nofun, nofun, nofun, nofun⟩ rfl

end Documents
end Schema
end SchemaPaths
