/-
Why the reading of a document may stop.

A document is refused over a prefix that nobody declared, over a content model without a derivation
in it, or over a number that is none.  Nothing else stops a reading: in particular it always comes
to an end.  What was declared before does not matter, since a reading does not look at it: the
places at which it enters declarations are all that two readings of the same trees can differ in.
-/
import SchemaPaths.Proofs.Ensures
import SchemaPaths.Schema.Declaring

namespace SchemaPaths
namespace Schema

/-- The reasons to refuse the document of a location. -/
inductive Refusal (source : String) : Failure → Prop
  | undeclaredPrefix (p value : String) :
      Refusal source (.load (.undeclaredPrefix p value) (some source))
  | noDerivation (name : Option String) : Refusal source (.load (.noDerivation name) (some source))
  | badNumber : Refusal source .badNumber

/-- Two readings under a setting either both succeed, wherever they start from, or stop for the same
reason, and that is one to refuse the document.  `R` relates what they return. -/
def Alike {α : Type} (s : Setting) (R : α → α → Prop) (m m' : Declare α) : Prop :=
  ∀ d d', Ensures m d
    (fun a _ => Ensures m' d' (fun a' _ => R a a') fun _ _ => False)
    fun e _ => Refusal s.source e ∧ Ensures m' d' (fun _ _ => False) fun e' _ => e' = e

/-- For readings of which it only matters whether they succeed. -/
def Any {α : Type} (_ _ : α) : Prop := True

/-- For readings of which it also matters whether they find something. -/
def BothFind {α : Type} (a a' : Option α) : Prop := a.isSome = a'.isSome

namespace Alike

variable {α β : Type} {s : Setting} {R : α → α → Prop} {m m' : Declare α}

theorem pure {a a' : α} (h : R a a') : Alike s R (Pure.pure a) (Pure.pure a') := fun _ _ => h

theorem fail {e : Failure} (h : Refusal s.source e) :
    Alike s R (throw e : Declare α) (throw e) := fun _ _ => ⟨h, rfl⟩

theorem enter (f f' : Declarations → α × Declarations) :
    Alike s Any (modifyGet f : Declare α) (modifyGet f') := fun _ _ => trivial

theorem mono {R' : α → α → Prop} (h : Alike s R m m') (hR : ∀ a a', R a a' → R' a a') :
    Alike s R' m m' :=
  fun d d' => (h d d').mono (fun a _ ha => ha.mono (fun a' _ => hR a a') fun _ _ h => h)
    fun _ _ h => h

theorem bind {S : β → β → Prop} {f f' : α → Declare β} (h : Alike s R m m')
    (hf : ∀ a a', R a a' → Alike s S (f a) (f' a')) : Alike s S (m >>= f) (m' >>= f') := by
  intro d d'
  refine ensures_bind.2 ((h d d').mono (fun a t ha => ?_) fun e _ he => ⟨he.1, ?_⟩)
  · obtain ⟨a', t', hR, hrun⟩ := ha.exists_ok
    exact (hf a a' hR t t').mono (fun _ _ hb => ensures_bind.2 (hrun.2 hb))
      fun _ _ he => ⟨he.1, ensures_bind.2 (hrun.2 he.2)⟩
  · exact ensures_bind.2 (he.2.mono (fun _ _ h => h.elim) fun _ _ h => h)

theorem map {S : β → β → Prop} {f : α → β} (h : Alike s (fun a a' => S (f a) (f a')) m m') :
    Alike s S (f <$> m) (f <$> m') := by
  rw [map_eq_pure_bind, map_eq_pure_bind]
  exact h.bind fun _ _ h => .pure h

theorem any (h : Alike s R m m') : Alike s Any m m' := h.mono fun _ _ _ => trivial

/-- The first of several readings that finds something. -/
theorem first {first rest : Declare (Option α)} {next : Option α → Declare (Option α)}
    (hnone : next none = rest) (hsome : ∀ a, next (some a) = Pure.pure (some a))
    (h : Alike s BothFind first first) (hrest : Alike s BothFind rest rest) :
    Alike s BothFind (first >>= next) (first >>= next) := by
  refine h.bind fun found found' hfound => ?_
  cases found <;> cases found'
  · rwa [hnone]
  · cases hfound
  · cases hfound
  · rw [hsome, hsome]
    exact .pure rfl

/-- What stops a reading is a reason to refuse the document. -/
theorem refuses (h : Alike s R m m') (d : Declarations) :
    Ensures m d (fun _ _ => True) fun e _ => Refusal s.source e :=
  (h d d).mono (fun _ _ _ => trivial) fun _ _ h => h.1

end Alike

namespace Declaring

open Markup (Name Tree)

variable {s : Setting}

/-! ## Values -/

theorem alike_qname (v : Option String) : Alike s (· = ·) (qname s v) (qname s v) := by
  unfold qname refuse
  split
  · exact .pure rfl
  · split
    · exact .pure rfl
    · dsimp only
      split
      · split
        · exact .pure rfl
        · exact .fail (.undeclaredPrefix _ _)
      · exact .pure rfl

theorem alike_integer (v : String) : Alike s Any (integer v) (integer v) := by
  unfold integer
  split
  · exact .pure trivial
  · exact .fail .badNumber

theorem alike_occurs (as : Attributes) : Alike s Any (occurs as) (occurs as) := by
  unfold occurs
  refine (alike_integer _).bind fun _ _ _ => ?_
  dsimp only
  split
  · exact .pure trivial
  · exact (alike_integer _).bind fun _ _ _ => .pure trivial

theorem alike_elementOccurs (isGlobal : Bool) (as : Attributes) :
    Alike s Any (elementOccurs isGlobal as) (elementOccurs isGlobal as) := by
  unfold elementOccurs
  split
  · exact .pure trivial
  · exact alike_occurs as

theorem alike_wildcard (as : Attributes) : Alike s Any (wildcard as) (wildcard as) :=
  (alike_occurs as).bind fun _ _ _ => (Alike.enter _ _).bind fun _ _ _ => .pure trivial

theorem alike_groupRef (as : Attributes) : Alike s BothFind (groupRef? s as) (groupRef? s as) := by
  unfold groupRef?
  split
  · exact .pure rfl
  · refine (alike_occurs as).bind fun _ _ _ => (alike_qname _).bind fun q q' hq => .pure ?_
    rw [BothFind, hq, Option.isSome_map, Option.isSome_map]

/-! ## Simple types and attributes -/

mutual

theorem alike_simplePart : ∀ (part : Tree) (t t' : SimpleType),
    Alike s Any (simplePart s part t) (simplePart s part t')
  | .text _, t, t' => by
    rw [simplePart, simplePart]
    exact .pure trivial
  | .element n as content, t, t' => by
    rw [simplePart, simplePart]
    split
    · exact (alike_qname _).bind fun _ _ _ =>
        (alike_firstSimple content).bind fun _ _ _ => .pure trivial
    · exact (alike_qname _).bind fun _ _ _ => .pure trivial
    · exact .pure trivial
    · exact .pure trivial

theorem alike_simpleParts : ∀ (parts : List Tree) (t t' : SimpleType),
    Alike s Any (simpleParts s parts t) (simpleParts s parts t')
  | [], t, t' => by
    rw [simpleParts, simpleParts]
    exact .pure trivial
  | part :: parts, t, t' => by
    rw [simpleParts, simpleParts]
    exact (alike_simplePart part t t').bind fun u u' _ => alike_simpleParts parts u u'

theorem alike_simple? : ∀ t : Tree, Alike s BothFind (simple? s t) (simple? s t)
  | .text _ => by
    rw [simple?]
    exact .pure rfl
  | .element n _ content => by
    rw [simple?]
    split
    · exact .map (((alike_simpleParts content _ _).bind fun _ _ _ => .enter _ _).mono
        fun _ _ _ => rfl)
    · exact .pure rfl

theorem alike_firstSimple : ∀ ts : List Tree, Alike s BothFind (firstSimple s ts) (firstSimple s ts)
  | [] => by
    rw [firstSimple]
    exact .pure rfl
  | t :: ts => by
    rw [firstSimple]
    exact .first rfl (fun _ => rfl) (alike_simple? t) (alike_firstSimple ts)

end

theorem alike_simpleType (name : Option String) (content : List Tree) :
    Alike s Any (simpleType s name content) (simpleType s name content) :=
  (alike_simpleParts content _ _).bind fun _ _ _ => .enter _ _

theorem alike_attr (isGlobal : Bool) (as : Attributes) (content : List Tree) :
    Alike s Any (attr s isGlobal as content) (attr s isGlobal as content) :=
  (alike_firstSimple content).bind fun _ _ _ => (alike_qname _).bind fun _ _ _ =>
    (alike_qname _).bind fun _ _ _ => .enter _ _

theorem alike_attributeUses (content : List Tree) :
    Alike s Any (attributeUses s content) (attributeUses s content) := by
  induction content with
  | nil => exact .pure trivial
  | cons t ts ih =>
    cases t with
    | text => exact ih
    | element n as content =>
      rw [attributeUses]
      split
      · exact (alike_attr false as content).bind fun _ _ _ => ih.bind fun _ _ _ => .pure trivial
      · exact (alike_qname _).bind fun _ _ _ => ih.bind fun _ _ _ => .pure trivial
      · exact ih

/-! ## Elements, complex types and their content -/

theorem alike_elementOf (isGlobal : Bool) (as : Attributes) (content : List Tree)
    {inline : Declare (Option TypeRef)} (h : Alike s Any inline inline) :
    Alike s Any (elementOf s isGlobal as content inline) (elementOf s isGlobal as content inline) :=
  (alike_elementOccurs isGlobal as).bind fun _ _ _ => h.bind fun _ _ _ =>
    (alike_qname _).bind fun _ _ _ => (alike_qname _).bind fun _ _ _ =>
      (alike_qname _).bind fun _ _ _ => .enter _ _

theorem alike_complexTypeOf (name : Option String) (as : Attributes) (content : List Tree)
    {model : Declare (Option Derived)} {particle : Declare (Option Node)}
    (hm : Alike s BothFind model model) (hp : Alike s BothFind particle particle) :
    Alike s Any (complexTypeOf s name as content model particle)
      (complexTypeOf s name as content model particle) := by
  refine hm.bind fun found found' hfound => ?_
  cases found <;> cases found'
  · exact hp.bind fun _ _ _ => (alike_attributeUses content).bind fun _ _ _ => .enter _ _
  · cases hfound
  · cases hfound
  · exact .enter _ _

theorem alike_derivedOf (simple mixed : Bool) (derivation : Derivation) (as : Attributes)
    (content : List Tree) {particle : Declare (Option Node)}
    (hp : Alike s BothFind particle particle) :
    Alike s Any (derivedOf s simple mixed derivation as content particle)
      (derivedOf s simple mixed derivation as content particle) :=
  (alike_attributeUses content).bind fun _ _ _ => (alike_qname _).bind fun _ _ _ =>
    hp.bind fun _ _ _ => .pure trivial

theorem alike_compositorOf (make : Identity → Occurs → List Node → Node) (as : Attributes)
    {items : Declare (List Node)} (h : Alike s Any items items) :
    Alike s BothFind (compositorOf make as items) (compositorOf make as items) :=
  (alike_occurs as).bind fun _ _ _ => h.bind fun _ _ _ =>
    (Alike.enter _ _).bind fun _ _ _ => .pure rfl

mutual

theorem alike_inline? : ∀ t : Tree, Alike s Any (inline? s t) (inline? s t)
  | .text _ => by
    rw [inline?]
    exact .pure trivial
  | .element n as content => by
    rw [inline?]
    split
    · exact (alike_complexTypeOf none as content (alike_model none content)
        (alike_particle content)).bind fun _ _ _ => .pure trivial
    · exact (alike_simpleType none content).bind fun _ _ _ => .pure trivial
    · exact .pure trivial

theorem alike_lastInline : ∀ (ts : List Tree) (last last' : Option TypeRef),
    Alike s Any (lastInline s ts last) (lastInline s ts last')
  | [], last, last' => by
    rw [lastInline, lastInline]
    exact .pure trivial
  | t :: ts, last, last' => by
    rw [lastInline, lastInline]
    exact (alike_inline? t).bind fun _ _ _ => alike_lastInline ts _ _

theorem alike_particle? : ∀ t : Tree, Alike s BothFind (particle? s t) (particle? s t)
  | .text _ => by
    rw [particle?]
    exact .pure rfl
  | .element n as content => by
    rw [particle?]
    split
    · exact alike_compositorOf _ as (alike_items content)
    · exact alike_compositorOf _ as (alike_items content)
    · exact alike_compositorOf _ as (alike_items content)
    · exact alike_groupRef as
    · exact .pure rfl

theorem alike_particle : ∀ ts : List Tree, Alike s BothFind (particle s ts) (particle s ts)
  | [] => by
    rw [particle]
    exact .pure rfl
  | t :: ts => by
    rw [particle]
    exact .first rfl (fun _ => rfl) (alike_particle? t) (alike_particle ts)

theorem alike_item? : ∀ t : Tree, Alike s Any (item? s t) (item? s t)
  | .text _ => by
    rw [item?]
    exact .pure trivial
  | .element n as content => by
    rw [item?]
    split
    · exact (alike_elementOf false as content (alike_lastInline content none none)).bind
        fun _ _ _ => .pure trivial
    · exact (alike_compositorOf _ as (alike_items content)).any
    · exact (alike_compositorOf _ as (alike_items content)).any
    · exact (alike_groupRef as).any
    · exact (alike_wildcard as).bind fun _ _ _ => .pure trivial
    · exact .pure trivial

theorem alike_items : ∀ ts : List Tree, Alike s Any (items s ts) (items s ts)
  | [] => by
    rw [items]
    exact .pure trivial
  | t :: ts => by
    rw [items]
    exact (alike_item? t).bind fun _ _ _ => (alike_items ts).bind fun _ _ _ => .pure trivial

theorem alike_derived? (simple mixed : Bool) :
    ∀ t : Tree, Alike s BothFind (derived? s simple mixed t) (derived? s simple mixed t)
  | .text _ => by
    rw [derived?]
    exact .pure rfl
  | .element n as content => by
    rw [derived?]
    split
    · exact .map ((alike_derivedOf simple mixed _ as content (alike_particle content)).mono
        fun _ _ _ => rfl)
    · exact .pure rfl

theorem alike_derived (simple mixed : Bool) (name : Option String) :
    ∀ ts : List Tree, Alike s Any (derived s simple mixed name ts) (derived s simple mixed name ts)
  | [] => by
    rw [derived]
    exact .fail (.noDerivation name)
  | t :: ts => by
    rw [derived]
    refine (alike_derived? simple mixed t).bind fun found found' hfound => ?_
    cases found <;> cases found'
    · exact alike_derived simple mixed name ts
    · cases hfound
    · cases hfound
    · exact .pure trivial

theorem alike_model? (name : Option String) :
    ∀ t : Tree, Alike s BothFind (model? s name t) (model? s name t)
  | .text _ => by
    rw [model?]
    exact .pure rfl
  | .element n as content => by
    rw [model?]
    split
    · exact .map ((alike_derived false _ name content).mono fun _ _ _ => rfl)
    · exact .map ((alike_derived true _ name content).mono fun _ _ _ => rfl)
    · exact .pure rfl

theorem alike_model (name : Option String) :
    ∀ ts : List Tree, Alike s BothFind (model s name ts) (model s name ts)
  | [] => by
    rw [model]
    exact .pure rfl
  | t :: ts => by
    rw [model]
    exact .first rfl (fun _ => rfl) (alike_model? name t) (alike_model name ts)

end

/-! ## Documents -/

theorem alike_topLevel (n : Name) (as : Attributes) (content : List Tree)
    (r r' : Document × List Directive) :
    Alike s Any (topLevel s n as content r.1 r.2) (topLevel s n as content r'.1 r'.2) := by
  rw [topLevel, topLevel]
  split
  · exact .pure trivial
  · exact .pure trivial
  · exact .pure trivial
  · exact (alike_elementOf true as content (alike_lastInline content none none)).bind
      fun _ _ _ => .pure trivial
  · exact (alike_complexTypeOf _ as content (alike_model _ content)
      (alike_particle content)).bind fun _ _ _ => .pure trivial
  · exact (alike_simpleType _ content).bind fun _ _ _ => .pure trivial
  · exact ((alike_particle content).bind fun _ _ _ => .enter _ _).bind fun _ _ _ => .pure trivial
  · exact (alike_attr true as content).bind fun _ _ _ => .pure trivial
  · exact ((alike_attributeUses content).bind fun _ _ _ => .enter _ _).bind
      fun _ _ _ => .pure trivial
  · exact .pure trivial

theorem alike_topLevels (content : List Tree) (r r' : Document × List Directive) :
    Alike s Any (topLevels s r.1 r.2 content) (topLevels s r'.1 r'.2 content) := by
  induction content generalizing r r' with
  | nil => exact .pure trivial
  | cons t ts ih =>
    cases t with
    | text => exact ih r r'
    | element n as content => exact (alike_topLevel n as content r r').bind fun _ _ _ => ih _ _

theorem alike_document (content : List Tree) :
    Alike s Any (document s content) (document s content) :=
  alike_topLevels content (_, []) (_, [])

theorem refuses_document (content : List Tree) (d : Declarations) :
    Ensures (document s content) d (fun _ _ => True) fun e _ => Refusal s.source e :=
  (alike_document content).refuses d

end Declaring
end Schema
end SchemaPaths
