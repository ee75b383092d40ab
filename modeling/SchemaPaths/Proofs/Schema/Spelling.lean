/-
What a document spells out in its declarations.

The names in declarations come from values that were resolved, so each has a text of its own.  The
other two things depend on the document: a derivation has a base only if it names one, and a reading
stops at a number only if some number of occurrences is none.  A `Demand` says which of the two are
asked of a document.
-/
import SchemaPaths.Proofs.Ensures
import SchemaPaths.Proofs.Schema.Closed
import SchemaPaths.Schema.Declaring

namespace SchemaPaths
namespace Schema

open Markup (Name Tree)

/-! ## Places in documents -/

/-- A construct stands somewhere in the trees, with its attributes and with what is inside it. -/
inductive Within : List Tree → Construct → Attributes → List Tree → Prop
  | here {ts content : List Tree} {n : Name} {as : Attributes} {c : Construct}
      (mem : .element n as content ∈ ts) (construct : Construct.ofName? n = some c) :
      Within ts c as content
  | inside {ts outer content : List Tree} {n : Name} {as bs : Attributes} {c : Construct}
      (mem : .element n bs outer ∈ ts) (within : Within outer c as content) :
      Within ts c as content

/-- The constructs that occur a number of times. -/
def Construct.isCounted : Construct → Bool
  | .element | .sequence | .all | .choice | .group | .any => true
  | _ => false

def Construct.isContentModel : Construct → Bool
  | .complexContent | .simpleContent => true
  | _ => false

def Construct.isDerivation : Construct → Bool
  | .extension | .restriction => true
  | _ => false

/-- The numbers of occurrences are numbers. -/
structure IsCount (as : Attributes) : Prop where
  least : (Text.Integer.ofString? ((valueOf? as "minOccurs").getD "1")).isSome
  most : (valueOf? as "maxOccurs").getD "1" ≠ "unbounded" →
    (Text.Integer.ofString? ((valueOf? as "maxOccurs").getD "1")).isSome

/-- Somewhere in the trees a number of occurrences is none. -/
def Miscounted (ts : List Tree) : Prop :=
  ∃ c as content, Within ts c as content ∧ c.isCounted ∧ ¬ IsCount as

/-- The content of a content model has a derivation without a base. -/
def LacksBase (content : List Tree) : Prop :=
  ∃ n as inner, .element n as inner ∈ content ∧
    (∃ c, Construct.ofName? n = some c ∧ c.isDerivation) ∧ (valueOf? as "base").getD "" = ""

/-- Somewhere in the trees a content model has a derivation without a base. -/
def Baseless (ts : List Tree) : Prop :=
  ∃ c as content, Within ts c as content ∧ c.isContentModel ∧ LacksBase content

/-- What may be asked of documents: that numbers of occurrences are numbers, and that derivations
have bases. -/
structure Demand where
  counted : Prop
  based : Prop

structure Demand.Met (w : Demand) (ts : List Tree) : Prop where
  counted : w.counted → ¬ Miscounted ts
  based : w.based → ¬ Baseless ts

section Places

variable {ts us content : List Tree} {t : Tree} {n : Name} {as : Attributes} {c : Construct}
  {w : Demand}

theorem Within.mono (h : Within ts c as content) (hsub : ts ⊆ us) : Within us c as content := by
  cases h with
  | here mem construct => exact .here (hsub mem) construct
  | inside mem within => exact .inside (hsub mem) within

namespace Demand.Met

theorem of_within (h : w.Met us)
    (hwithin : ∀ c as content, Within ts c as content → Within us c as content) : w.Met ts where
  counted hw := by
    rintro ⟨c, as, content, hin, hbad⟩
    exact h.counted hw ⟨c, as, content, hwithin _ _ _ hin, hbad⟩
  based hw := by
    rintro ⟨c, as, content, hin, hbad⟩
    exact h.based hw ⟨c, as, content, hwithin _ _ _ hin, hbad⟩

theorem head (h : w.Met (t :: ts)) : w.Met [t] :=
  h.of_within fun _ _ _ hin => hin.mono (by simp)

theorem tail (h : w.Met (t :: ts)) : w.Met ts :=
  h.of_within fun _ _ _ hin => hin.mono (List.subset_cons_self t ts)

theorem inside (h : w.Met [.element n as content]) : w.Met content :=
  h.of_within fun _ _ _ hin => .inside (List.mem_singleton_self _) hin

theorem isCount (h : w.Met [.element n as content]) (hc : Construct.ofName? n = some c)
    (hcounted : c.isCounted = true) (hw : w.counted) : IsCount as :=
  by_contra fun hno =>
    h.counted hw ⟨c, as, content, .here (List.mem_singleton_self _) hc, hcounted, hno⟩

theorem hasBase (h : w.Met [.element n as content]) (hc : Construct.ofName? n = some c)
    (hmodel : c.isContentModel = true) (hw : w.based) : ¬ LacksBase content :=
  fun hlacks => h.based hw ⟨c, as, content, .here (List.mem_singleton_self _) hc, hmodel, hlacks⟩

end Demand.Met

end Places

/-! ## Declarations -/

/-- A name that has a text. -/
def QName.IsSpelled (q : QName) : Prop := q.name.isSome = true

structure Element.IsSpelled (e : Element) : Prop where
  ref : ∀ q ∈ e.ref, q.IsSpelled
  typeName : ∀ q ∈ e.typeName, q.IsSpelled
  substitution : ∀ q ∈ e.substitution, q.IsSpelled

structure Attribute.IsSpelled (a : Attribute) : Prop where
  ref : ∀ q ∈ a.ref, q.IsSpelled
  typeName : ∀ q ∈ a.typeName, q.IsSpelled

structure SimpleType.IsSpelled (t : SimpleType) : Prop where
  baseName : ∀ q ∈ t.baseName, q.IsSpelled
  itemName : ∀ q ∈ t.itemName, q.IsSpelled

def Node.IsSpelled (n : Node) : Prop := ∀ q ∈ n.groupNames, q.IsSpelled

def Group.IsSpelled (g : Group) : Prop := ∀ n ∈ g.particle, n.IsSpelled

def AttributeGroup.IsSpelled (g : AttributeGroup) : Prop := ∀ q ∈ g.attributeGroups, q.IsSpelled

structure Derived.IsSpelled (w : Demand) (m : Derived) : Prop where
  base : ∀ q ∈ m.base, q.IsSpelled
  based : w.based → m.base.isSome
  particle : ∀ n ∈ m.particle, n.IsSpelled
  attributeGroups : ∀ q ∈ m.attributeGroups, q.IsSpelled

structure ComplexType.IsSpelled (w : Demand) (t : ComplexType) : Prop where
  model : ∀ m ∈ t.model, m.IsSpelled w
  particle : ∀ n ∈ t.particle, n.IsSpelled
  attributeGroups : ∀ q ∈ t.attributeGroups, q.IsSpelled

/-- Before its parts are read a simple type has no names but its own. -/
theorem SimpleType.IsSpelled.new (name : Option String) (space : String) (notes : List String) :
    SimpleType.IsSpelled { name, space, notes } := ⟨nofun, nofun⟩

theorem ComplexType.IsSpelled.ownParticle {w : Demand} {t : ComplexType} (h : t.IsSpelled w) :
    ∀ n ∈ Linking.ownParticle t, n.IsSpelled := by
  unfold Linking.ownParticle
  split
  · rename_i m hm
    exact (h.model m hm).particle
  · exact h.particle

theorem ComplexType.IsSpelled.ownAttributes {w : Demand} {t : ComplexType} (h : t.IsSpelled w) :
    ∀ q ∈ (Linking.ownAttributes t).2, q.IsSpelled := by
  unfold Linking.ownAttributes
  split
  · rename_i m hm
    exact (h.model m hm).attributeGroups
  · exact h.attributeGroups

/-- Every name has a text, and derivations have bases where that is asked for. -/
structure Declarations.Spelled (w : Demand) (d : Declarations) : Prop where
  element : ∀ i, (d.element i).IsSpelled
  attr : ∀ i, (d.attr i).IsSpelled
  simpleType : ∀ i, (d.simpleType i).IsSpelled
  complexType : ∀ i, (d.complexType i).IsSpelled w
  group : ∀ i, (d.group i).IsSpelled
  attributeGroup : ∀ i, (d.attributeGroup i).IsSpelled

theorem Declarations.spelled_empty (w : Demand) : Declarations.Spelled w {} where
  element _ := ⟨nofun, nofun, nofun⟩
  attr _ := ⟨nofun, nofun⟩
  simpleType _ := ⟨nofun, nofun⟩
  complexType _ := ⟨nofun, nofun, nofun⟩
  group _ := nofun
  attributeGroup _ := nofun

/-! ## Readings -/

/-- Wherever a reading starts, what it enters is spelled out as demanded, and so is what it returns;
and it does not stop at a number if that is demanded. -/
def Spells {α : Type} (w : Demand) (m : Declare α) (good : α → Prop) : Prop :=
  ∀ d : Declarations, d.Spelled w → Ensures m d (fun a e => e.Spelled w ∧ good a)
    fun f e => e.Spelled w ∧ (w.counted → f ≠ .badNumber)

namespace Spells

variable {α β : Type} {w : Demand} {good good' : α → Prop} {m : Declare α}

theorem pure {a : α} (h : good a) : Spells w (Pure.pure a) good := fun _ hd => ⟨hd, h⟩

theorem fail {f : Failure} (h : w.counted → f ≠ .badNumber) :
    Spells w (throw f : Declare α) good := fun _ hd => ⟨hd, h⟩

theorem enter {f : Declarations → α × Declarations}
    (h : ∀ d : Declarations, d.Spelled w → (f d).2.Spelled w) :
    Spells w (modifyGet f : Declare α) fun _ => True :=
  fun d hd => ensures_modifyGet.2 ⟨h d hd, trivial⟩

theorem bind {f : α → Declare β} {good' : β → Prop} (h : Spells w m good)
    (hf : ∀ a, good a → Spells w (f a) good') : Spells w (m >>= f) good' :=
  fun d hd => (h d hd).bind fun a e he => hf a he.2 e he.1

theorem mono (h : Spells w m good) (hgood : ∀ a, good a → good' a) : Spells w m good' :=
  fun d hd => (h d hd).mono (fun a _ he => ⟨he.1, hgood a he.2⟩) fun _ _ he => he

theorem map {f : α → β} {good' : β → Prop} (h : Spells w m fun a => good' (f a)) :
    Spells w (f <$> m) good' := fun d hd => ensures_map.2 (h d hd)

/-- The first of several readings that finds something. -/
theorem first {first rest : Declare (Option α)} {next : Option α → Declare (Option α)}
    (hnone : next none = rest) (hsome : ∀ a, next (some a) = Pure.pure (some a))
    (h : Spells w first fun r => ∀ a ∈ r, good a) (hrest : Spells w rest fun r => ∀ a ∈ r, good a) :
    Spells w (first >>= next) fun r => ∀ a ∈ r, good a := by
  refine h.bind fun found hfound => ?_
  cases found with
  | none => rwa [hnone]
  | some a =>
    rw [hsome]
    exact .pure hfound

end Spells

namespace Declaring

variable {w : Demand} {s : Setting}

/-! ## Entering declarations -/

section Entering

open Declarations

theorem forall_push {α : Type} {P : α → Prop} {a : Array α} {v fill : α}
    (h : ∀ i, P (a.getD i fill)) (hv : P v) (i : Nat) : P ((a.push v).getD i fill) := by
  rw [getD_push]
  split
  · exact hv
  · exact h i

theorem spells_enterElement {e : Element} (h : e.IsSpelled) :
    Spells w (enterElement e) fun _ => True :=
  .enter fun _ hd => { hd with element := forall_push hd.element h }

theorem spells_enterAttribute {a : Attribute} (h : a.IsSpelled) :
    Spells w (enterAttribute a) fun _ => True :=
  .enter fun _ hd => { hd with attr := forall_push hd.attr h }

theorem spells_enterSimpleType {t : SimpleType} (h : t.IsSpelled) :
    Spells w (enterSimpleType t) fun _ => True :=
  .enter fun _ hd => { hd with simpleType := forall_push hd.simpleType h }

theorem spells_enterComplexType {t : ComplexType} (h : t.IsSpelled w) :
    Spells w (enterComplexType t) fun _ => True :=
  .enter fun _ hd => { hd with complexType := forall_push hd.complexType h }

theorem spells_enterGroup {g : Group} (h : g.IsSpelled) : Spells w (enterGroup g) fun _ => True :=
  .enter fun _ hd => { hd with group := forall_push hd.group h }

theorem spells_enterAttributeGroup {g : AttributeGroup} (h : g.IsSpelled) :
    Spells w (enterAttributeGroup g) fun _ => True :=
  .enter fun _ hd => { hd with attributeGroup := forall_push hd.attributeGroup h }

theorem spells_enterParticle : Spells w enterParticle fun _ => True :=
  .enter fun _ hd => { hd with }

end Entering

/-! ## Values -/

theorem spells_qname (v : Option String) : Spells w (qname s v) fun r =>
    (∀ q ∈ r, q.IsSpelled) ∧ (v.getD "" ≠ "" → r.isSome) := by
  unfold qname refuse
  split
  · exact .pure ⟨nofun, fun h => absurd rfl h⟩
  · rename_i value
    have found (q : QName) (hq : q.IsSpelled) :
        (∀ r ∈ some q, r.IsSpelled) ∧ ((some value).getD "" ≠ "" → (some q).isSome) :=
      ⟨fun r hr => Option.some.inj hr ▸ hq, fun _ => rfl⟩
    split
    · rename_i hempty
      exact .pure ⟨nofun, fun h => absurd (eq_of_beq hempty) h⟩
    · dsimp only
      split
      · split
        · exact .pure (found _ rfl)
        · exact .fail fun _ => nofun
      · exact .pure (found _ rfl)

theorem spells_integer {v : String} (h : w.counted → (Text.Integer.ofString? v).isSome) :
    Spells w (integer v) fun _ => True := by
  unfold integer
  split
  · exact .pure trivial
  · rename_i hnone
    refine .fail fun hw => ?_
    have hsome := h hw
    rw [hnone] at hsome
    cases hsome

theorem spells_occurs {as : Attributes} (h : w.counted → IsCount as) :
    Spells w (occurs as) fun _ => True := by
  unfold occurs
  refine (spells_integer fun hw => (h hw).least).bind fun _ _ => ?_
  dsimp only
  split
  · exact .pure trivial
  · rename_i hmax
    have hbounded : (valueOf? as "maxOccurs").getD "1" ≠ "unbounded" := fun heq =>
      hmax (beq_iff_eq.2 heq)
    exact (spells_integer fun hw => (h hw).most hbounded).bind fun _ _ => .pure trivial

theorem spells_elementOccurs {isGlobal : Bool} {as : Attributes}
    (h : isGlobal = false → w.counted → IsCount as) :
    Spells w (elementOccurs isGlobal as) fun _ => True := by
  unfold elementOccurs
  split
  · exact .pure trivial
  · rename_i hlocal
    exact spells_occurs (h (Bool.eq_false_iff.2 hlocal))

theorem spells_wildcard {as : Attributes} (h : w.counted → IsCount as) :
    Spells w (wildcard as) Node.IsSpelled :=
  (spells_occurs h).bind fun _ _ => spells_enterParticle.bind fun _ _ => .pure nofun

theorem spells_groupRef {as : Attributes} (h : w.counted → IsCount as) :
    Spells w (groupRef? s as) fun r => ∀ n ∈ r, n.IsSpelled := by
  unfold groupRef?
  split
  · exact .pure nofun
  · refine (spells_occurs h).bind fun o _ => (spells_qname _).bind fun q hq => .pure fun n hn => ?_
    obtain ⟨q, hq', rfl⟩ := Option.map_eq_some_iff.1 hn
    intro r hr
    cases List.mem_singleton.1 hr
    exact hq.1 _ hq'

/-! ## Simple types and attributes -/

mutual

theorem spells_simplePart : ∀ (part : Tree) {t : SimpleType}, t.IsSpelled →
    Spells w (simplePart s part t) SimpleType.IsSpelled
  | .text _, t, ht => by
    rw [simplePart]
    exact .pure ht
  | .element n as content, t, ht => by
    rw [simplePart]
    split
    · exact (spells_qname _).bind fun base hbase => (spells_firstSimple content).bind fun _ _ =>
        .pure ⟨hbase.1, ht.itemName⟩
    · exact (spells_qname _).bind fun item hitem => .pure ⟨ht.baseName, hitem.1⟩
    · exact .pure ⟨ht.baseName, ht.itemName⟩
    · exact .pure ht

theorem spells_simpleParts : ∀ (parts : List Tree) {t : SimpleType}, t.IsSpelled →
    Spells w (simpleParts s parts t) SimpleType.IsSpelled
  | [], t, ht => by
    rw [simpleParts]
    exact .pure ht
  | part :: parts, t, ht => by
    rw [simpleParts]
    exact (spells_simplePart part ht).bind fun u hu => spells_simpleParts parts hu

theorem spells_simple? : ∀ t : Tree, Spells w (simple? s t) fun _ => True
  | .text _ => by
    rw [simple?]
    exact .pure trivial
  | .element n _ content => by
    rw [simple?]
    split
    · exact .map ((spells_simpleParts content (.new ..)).bind fun t ht =>
        spells_enterSimpleType ht)
    · exact .pure trivial

theorem spells_firstSimple : ∀ ts : List Tree, Spells w (firstSimple s ts) fun _ => True
  | [] => by
    rw [firstSimple]
    exact .pure trivial
  | t :: ts => by
    rw [firstSimple]
    refine (spells_simple? t).bind fun found _ => ?_
    cases found with
    | none => exact spells_firstSimple ts
    | some i => exact .pure trivial

end

theorem spells_simpleType (name : Option String) (content : List Tree) :
    Spells w (simpleType s name content) fun _ => True :=
  (spells_simpleParts content (.new ..)).bind fun _ ht => spells_enterSimpleType ht

theorem spells_attr (isGlobal : Bool) (as : Attributes) (content : List Tree) :
    Spells w (attr s isGlobal as content) fun _ => True :=
  (spells_firstSimple content).bind fun _ _ => (spells_qname _).bind fun _ href =>
    (spells_qname _).bind fun _ htype => spells_enterAttribute ⟨href.1, htype.1⟩

theorem spells_attributeUses (content : List Tree) :
    Spells w (attributeUses s content) fun r => ∀ q ∈ r.2, q.IsSpelled := by
  induction content with
  | nil => exact .pure nofun
  | cons t ts ih =>
    cases t with
    | text => exact ih
    | element n as content =>
      rw [attributeUses]
      split
      · exact (spells_attr false as content).bind fun _ _ => ih.bind fun _ hr => .pure hr
      · refine (spells_qname _).bind fun q hq => ih.bind fun r hr => .pure fun p hp => ?_
        rcases List.mem_append.1 hp with hp | hp
        · exact hq.1 p (Option.mem_toList.1 hp)
        · exact hr p hp
      · exact ih

/-! ## Elements, complex types and their content -/

theorem spells_elementOf (isGlobal : Bool) {as : Attributes} (content : List Tree)
    {inline : Declare (Option TypeRef)} (hcount : isGlobal = false → w.counted → IsCount as)
    (h : Spells w inline fun _ => True) :
    Spells w (elementOf s isGlobal as content inline) fun _ => True :=
  (spells_elementOccurs hcount).bind fun _ _ => h.bind fun _ _ =>
    (spells_qname _).bind fun _ href => (spells_qname _).bind fun _ htype =>
      (spells_qname _).bind fun _ hhead => spells_enterElement ⟨href.1, htype.1, hhead.1⟩

theorem spells_complexTypeOf (name : Option String) (as : Attributes) (content : List Tree)
    {model : Declare (Option Derived)} {particle : Declare (Option Node)}
    (hm : Spells w model fun r => ∀ m ∈ r, m.IsSpelled w)
    (hp : Spells w particle fun r => ∀ n ∈ r, n.IsSpelled) :
    Spells w (complexTypeOf s name as content model particle) fun _ => True := by
  refine hm.bind fun r hr => ?_
  cases r with
  | some m => exact spells_enterComplexType ⟨hr, nofun, nofun⟩
  | none =>
    exact hp.bind fun _ hparticle => (spells_attributeUses content).bind fun _ huses =>
      spells_enterComplexType ⟨nofun, hparticle, huses⟩

theorem spells_derivedOf (simple mixed : Bool) (derivation : Derivation) {as : Attributes}
    (content : List Tree) {particle : Declare (Option Node)}
    (hbase : w.based → (valueOf? as "base").getD "" ≠ "")
    (hp : Spells w particle fun r => ∀ n ∈ r, n.IsSpelled) :
    Spells w (derivedOf s simple mixed derivation as content particle) (Derived.IsSpelled w) :=
  (spells_attributeUses content).bind fun _ huses => (spells_qname _).bind fun _ hname =>
    hp.bind fun _ hparticle => .pure ⟨hname.1, fun hw => hname.2 (hbase hw), hparticle, huses⟩

/-- A sequence or a choice of particles that are spelled out. -/
theorem spells_compositorOf {as : Attributes} {items : Declare (List Node)}
    {make : Identity → Occurs → List Node → Node} (hmake : Node.Composes make)
    (hcount : w.counted → IsCount as) (h : Spells w items fun ns => ∀ n ∈ ns, n.IsSpelled) :
    Spells w (compositorOf make as items) fun r => ∀ n ∈ r, n.IsSpelled := by
  refine (spells_occurs hcount).bind fun o _ => h.bind fun ns hns =>
    spells_enterParticle.bind fun i _ => .pure ?_
  rintro n ⟨⟩ q hq
  rw [Node.groupNames, hmake.atoms] at hq
  obtain ⟨a, ha, hq⟩ := List.mem_filterMap.1 hq
  obtain ⟨n, hn, ha⟩ := Node.mem_atomsOf.1 ha
  exact hns n hn q (List.mem_filterMap.2 ⟨a, ha, hq⟩)

theorem derivation_of_bind {simple : Bool} {n : Name} {d : Derivation}
    (h : (Construct.ofName? n).bind (derivation? simple) = some d) :
    ∃ c, Construct.ofName? n = some c ∧ c.isDerivation = true := by
  obtain ⟨c, hc, hd⟩ := Option.bind_eq_some_iff.1 h
  refine ⟨c, hc, ?_⟩
  cases c <;> first | rfl | cases hd

mutual

theorem spells_inline? : ∀ t : Tree, w.Met [t] → Spells w (inline? s t) fun _ => True
  | .text _, _ => by
    rw [inline?]
    exact .pure trivial
  | .element n as content, h => by
    rw [inline?]
    split
    · exact (spells_complexTypeOf none as content (spells_model none content h.inside)
        (spells_particle content h.inside)).bind fun _ _ => .pure trivial
    · exact (spells_simpleType none content).bind fun _ _ => .pure trivial
    · exact .pure trivial

theorem spells_lastInline : ∀ (ts : List Tree) (last : Option TypeRef), w.Met ts →
    Spells w (lastInline s ts last) fun _ => True
  | [], last, _ => by
    rw [lastInline]
    exact .pure trivial
  | t :: ts, last, h => by
    rw [lastInline]
    exact (spells_inline? t h.head).bind fun _ _ => spells_lastInline ts _ h.tail

theorem spells_particle? : ∀ t : Tree, w.Met [t] →
    Spells w (particle? s t) fun r => ∀ n ∈ r, n.IsSpelled
  | .text _, _ => by
    rw [particle?]
    exact .pure nofun
  | .element n as content, h => by
    rw [particle?]
    split <;> rename_i hc
    · exact spells_compositorOf (Node.composes_sequence _) (h.isCount hc rfl)
        (spells_items content h.inside)
    · exact spells_compositorOf (Node.composes_sequence _) (h.isCount hc rfl)
        (spells_items content h.inside)
    · exact spells_compositorOf Node.composes_choice (h.isCount hc rfl)
        (spells_items content h.inside)
    · exact spells_groupRef (h.isCount hc rfl)
    · exact .pure nofun

theorem spells_particle : ∀ ts : List Tree, w.Met ts →
    Spells w (particle s ts) fun r => ∀ n ∈ r, n.IsSpelled
  | [], _ => by
    rw [particle]
    exact .pure nofun
  | t :: ts, h => by
    rw [particle]
    exact .first rfl (fun _ => rfl) (spells_particle? t h.head) (spells_particle ts h.tail)

theorem spells_item? : ∀ t : Tree, w.Met [t] →
    Spells w (item? s t) fun r => ∀ n ∈ r, n.IsSpelled
  | .text _, _ => by
    rw [item?]
    exact .pure nofun
  | .element n as content, h => by
    rw [item?]
    split <;> rename_i hc
    · refine (spells_elementOf false content (fun _ => h.isCount hc rfl)
        (spells_lastInline content none h.inside)).bind fun i _ => .pure ?_
      rintro n ⟨⟩
      nofun
    · exact spells_compositorOf (Node.composes_sequence _) (h.isCount hc rfl)
        (spells_items content h.inside)
    · exact spells_compositorOf Node.composes_choice (h.isCount hc rfl)
        (spells_items content h.inside)
    · exact spells_groupRef (h.isCount hc rfl)
    · refine (spells_wildcard (h.isCount hc rfl)).bind fun x hx => .pure ?_
      rintro n ⟨⟩
      exact hx
    · exact .pure nofun

theorem spells_items : ∀ ts : List Tree, w.Met ts →
    Spells w (items s ts) fun ns => ∀ n ∈ ns, n.IsSpelled
  | [], _ => by
    rw [items]
    exact .pure nofun
  | t :: ts, h => by
    rw [items]
    refine (spells_item? t h.head).bind fun first hfirst =>
      (spells_items ts h.tail).bind fun rest hrest => .pure fun n hn => ?_
    rcases List.mem_append.1 hn with hn | hn
    · exact hfirst n (Option.mem_toList.1 hn)
    · exact hrest n hn

theorem spells_derived? (simple mixed : Bool) : ∀ t : Tree, w.Met [t] →
    (w.based → ¬ LacksBase [t]) →
    Spells w (derived? s simple mixed t) fun r => ∀ m ∈ r, m.IsSpelled w
  | .text _, _, _ => by
    rw [derived?]
    exact .pure nofun
  | .element n as content, h, hbase => by
    rw [derived?]
    split
    · rename_i d hd
      refine .map ((spells_derivedOf simple mixed d content (fun hw hempty => hbase hw
        ⟨n, as, content, List.mem_singleton_self _, derivation_of_bind hd, hempty⟩)
        (spells_particle content h.inside)).mono fun m hm => ?_)
      rintro m' ⟨⟩
      exact hm
    · exact .pure nofun

theorem spells_derived (simple mixed : Bool) (name : Option String) : ∀ ts : List Tree,
    w.Met ts → (w.based → ¬ LacksBase ts) →
    Spells w (derived s simple mixed name ts) (Derived.IsSpelled w)
  | [], _, _ => by
    rw [derived]
    exact .fail fun _ => nofun
  | t :: ts, h, hbase => by
    rw [derived]
    have hlacks {us : List Tree} (hsub : us ⊆ t :: ts) (hw : w.based) : ¬ LacksBase us := by
      rintro ⟨n, as, inner, hmem, hrest⟩
      exact hbase hw ⟨n, as, inner, hsub hmem, hrest⟩
    refine (spells_derived? simple mixed t h.head (hlacks (by simp))).bind fun found hfound => ?_
    cases found with
    | none => exact spells_derived simple mixed name ts h.tail (hlacks (List.subset_cons_self t ts))
    | some m => exact .pure (hfound m rfl)

theorem spells_model? (name : Option String) : ∀ t : Tree, w.Met [t] →
    Spells w (model? s name t) fun r => ∀ m ∈ r, m.IsSpelled w
  | .text _, _ => by
    rw [model?]
    exact .pure nofun
  | .element n as content, h => by
    have whole {simple mixed : Bool} {c : Construct} (hc : Construct.ofName? n = some c)
        (hmodel : c.isContentModel = true) :
        Spells w (some <$> derived s simple mixed name content) fun r =>
          ∀ m ∈ r, m.IsSpelled w := by
      refine .map ((spells_derived simple mixed name content h.inside
        (h.hasBase hc hmodel)).mono fun m hm => ?_)
      rintro m' ⟨⟩
      exact hm
    rw [model?]
    split <;> rename_i hc
    · exact whole hc rfl
    · exact whole hc rfl
    · exact .pure nofun

theorem spells_model (name : Option String) : ∀ ts : List Tree, w.Met ts →
    Spells w (model s name ts) fun r => ∀ m ∈ r, m.IsSpelled w
  | [], _ => by
    rw [model]
    exact .pure nofun
  | t :: ts, h => by
    rw [model]
    exact .first rfl (fun _ => rfl) (spells_model? name t h.head) (spells_model name ts h.tail)

end

/-! ## Documents -/

theorem spells_group (as : Attributes) (content : List Tree) (h : w.Met content) :
    Spells w (group s as content) fun _ => True :=
  (spells_particle content h).bind fun _ hp => spells_enterGroup hp

theorem spells_attributeGroup (as : Attributes) (content : List Tree) :
    Spells w (attributeGroup s as content) fun _ => True :=
  (spells_attributeUses content).bind fun _ hu => spells_enterAttributeGroup hu

theorem spells_topLevel (n : Name) (as : Attributes) (content : List Tree) (doc : Document)
    (directives : List Directive) (h : w.Met content) :
    Spells w (topLevel s n as content doc directives) fun _ => True := by
  rw [topLevel]
  split
  · exact .pure trivial
  · exact .pure trivial
  · exact .pure trivial
  · exact (spells_elementOf true content nofun (spells_lastInline content none h)).bind
      fun _ _ => .pure trivial
  · exact (spells_complexTypeOf _ as content (spells_model _ content h)
      (spells_particle content h)).bind fun _ _ => .pure trivial
  · exact (spells_simpleType _ content).bind fun _ _ => .pure trivial
  · exact (spells_group as content h).bind fun _ _ => .pure trivial
  · exact (spells_attr true as content).bind fun _ _ => .pure trivial
  · exact (spells_attributeGroup as content).bind fun _ _ => .pure trivial
  · exact .pure trivial

theorem spells_topLevels (content : List Tree) (h : w.Met content) (r : Document × List Directive) :
    Spells w (topLevels s r.1 r.2 content) fun _ => True := by
  induction content generalizing r with
  | nil => exact .pure trivial
  | cons t ts ih =>
    cases t with
    | text => exact ih h.tail r
    | element n as content =>
      exact (spells_topLevel n as content r.1 r.2 h.head.inside).bind fun r' _ => ih h.tail r'

theorem spells_document (content : List Tree) (h : w.Met content) :
    Spells w (document s content) fun _ => True :=
  spells_topLevels content h (_, [])

end Declaring
end Schema
end SchemaPaths
