/-
The start tags that elements are declared by.

An element enters the declarations when it has been read to its end, so it comes after the elements
inside it.  Not every element that stands in a document is declared: a type is read for its first
content model or particle, and a content model for its first derivation.  `elementTags` says of the
trees alone which start tags count and in what order; reading a document enters an element for each
of them, and this keeps what it is told of attributes of other namespaces.
-/
import SchemaPaths.Proofs.Ensures
import SchemaPaths.Schema.Declaring

namespace SchemaPaths
namespace Schema

open Markup (Name Tree)

namespace Declaring

/-! ## Start tags -/

mutual

/-- The start tags of the elements that are declared inside a tree which stands in an element. -/
def inlineTags : Tree → List Attributes
  | .text _ => []
  | .element n _ content =>
    match Construct.ofName? n with
    | some .complexType => (modelTags content).getD (particleTags content)
    | _ => []

def inlineTagsList : List Tree → List Attributes
  | [] => []
  | t :: ts => inlineTags t ++ inlineTagsList ts

/-- Those for a tree in a sequence or a choice, which may be an element itself. -/
def itemTags : Tree → List Attributes
  | .text _ => []
  | .element n as content =>
    match Construct.ofName? n with
    | some .element => inlineTagsList content ++ [as]
    | some .sequence => itemTagsList content
    | some .choice => itemTagsList content
    | _ => []

def itemTagsList : List Tree → List Attributes
  | [] => []
  | t :: ts => itemTags t ++ itemTagsList ts

/-- Those in a particle, if the tree is one. -/
def particleTags? : Tree → Option (List Attributes)
  | .text _ => none
  | .element n as content =>
    match Construct.ofName? n with
    | some .sequence => some (itemTagsList content)
    | some .all => some (itemTagsList content)
    | some .choice => some (itemTagsList content)
    | some .group => if (valueOf? as "ref").getD "" == "" then none else some []
    | _ => none

/-- Those in the first particle. -/
def particleTags : List Tree → List Attributes
  | [] => []
  | t :: ts => (particleTags? t).getD (particleTags ts)

/-- Those in a derivation, if the tree is one. -/
def derivedTags? : Tree → Option (List Attributes)
  | .text _ => none
  | .element n _ content =>
    match Construct.ofName? n with
    | some .extension => some (particleTags content)
    | some .restriction => some (particleTags content)
    | _ => none

/-- Those in the first derivation. -/
def derivedTags : List Tree → List Attributes
  | [] => []
  | t :: ts => (derivedTags? t).getD (derivedTags ts)

/-- Those in a content model, if the tree is one. -/
def modelTags? : Tree → Option (List Attributes)
  | .text _ => none
  | .element n _ content =>
    match Construct.ofName? n with
    | some .complexContent => some (derivedTags content)
    | some .simpleContent => some (derivedTags content)
    | _ => none

/-- Those in the first content model, if there is one. -/
def modelTags : List Tree → Option (List Attributes)
  | [] => none
  | t :: ts => (modelTags? t).or (modelTags ts)

end

/-- Those for a tree at the top of a document. -/
def topTags : Tree → List Attributes
  | .text _ => []
  | .element n as content =>
    match Construct.ofName? n with
    | some .element => inlineTagsList content ++ [as]
    | some .complexType => (modelTags content).getD (particleTags content)
    | some .group => particleTags content
    | _ => []

/-- The start tags of all elements that a document declares, in the order of their declarations. -/
def elementTags (content : List Tree) : List Attributes := content.flatMap topTags

end Declaring

/-! ## Readings -/

/-- What the elements keep of attributes of other namespaces. -/
def Declarations.extras (d : Declarations) : List (List (String × String)) :=
  d.elements.toList.map (·.extra)

theorem Declarations.length_extras (d : Declarations) : d.extras.length = d.elements.size := by
  simp [Declarations.extras]

/-- Wherever a reading starts, if it succeeds it has entered an element for each of the start tags
and none besides. -/
def Enters (s : Setting) (tags : List Attributes) {α : Type} (m : Declare α)
    (good : α → Prop) : Prop :=
  ∀ d : Declarations, Ensures m d
    (fun a e => e.extras = d.extras ++ tags.map (Declaring.extras s) ∧ good a) fun _ _ => True

namespace Enters

variable {α β : Type} {s : Setting} {tags more : List Attributes} {m : Declare α}
  {f : α → Declare β} {good : α → Prop} {good' : β → Prop}

theorem pure {a : α} (h : good a) : Enters s [] (Pure.pure a) good :=
  fun _ => ensures_pure.2 ⟨(List.append_nil _).symm, h⟩

theorem fail {e : Failure} : Enters s tags (throw e : Declare α) good :=
  fun _ => ensures_throw.2 trivial

theorem bind (h : Enters s tags m good) (hf : ∀ a, good a → Enters s more (f a) good') :
    Enters s (tags ++ more) (m >>= f) good' := by
  intro d
  refine (h d).bind fun a e he => (hf a he.2 e).mono (fun b e' he' => ⟨?_, he'.2⟩) fun _ _ h => h
  rw [he'.1, he.1, List.map_append, List.append_assoc]

/-- What comes first enters nothing. -/
theorem after (h : Enters s [] m good) (hf : ∀ a, good a → Enters s tags (f a) good') :
    Enters s tags (m >>= f) good' := h.bind hf

/-- What comes last enters nothing. -/
theorem before (h : Enters s tags m good) (hf : ∀ a, good a → Enters s [] (f a) good') :
    Enters s tags (m >>= f) good' := List.append_nil tags ▸ h.bind hf

theorem mono {good' : α → Prop} (h : Enters s tags m good) (hgood : ∀ a, good a → good' a) :
    Enters s tags m good' :=
  fun d => (h d).mono (fun a _ he => ⟨he.1, hgood a he.2⟩) fun _ _ h => h

theorem map {f : α → β} (h : Enters s tags m fun a => good' (f a)) :
    Enters s tags (f <$> m) good' := fun d => ensures_map.2 (h d)

theorem size_le (h : Enters s tags m good) (d : Declarations) :
    Ensures m d (fun _ e => d.elements.size ≤ e.elements.size) fun _ _ => True := by
  refine (h d).mono (fun a e he => ?_) fun _ _ h => h
  have hlength := congrArg List.length he.1
  rw [List.length_append, Declarations.length_extras, Declarations.length_extras] at hlength
  exact hlength ▸ Nat.le_add_right _ _

/-- One of several trees is read, or else those after it. -/
theorem first {o : Option (List Attributes)} {m : Declare (Option α)} {f : Option α → Declare β}
    (h : Enters s (o.getD []) m fun r => r.isSome = o.isSome)
    (hnone : o = none → Enters s tags (f none) good')
    (hsome : ∀ a, o.isSome → Enters s [] (f (some a)) good') :
    Enters s (o.getD tags) (m >>= f) good' := by
  cases o with
  | none =>
    refine h.after fun r hr => ?_
    cases r with
    | none => exact hnone rfl
    | some a => cases hr
  | some ts =>
    refine h.before fun r hr => ?_
    cases r with
    | none => cases hr
    | some a => exact hsome a rfl

end Enters

namespace Declaring

variable {s : Setting}

/-! ## What enters no elements -/

theorem enters_enterElement (e : Element) (as : Attributes) (h : e.extra = extras s as) :
    Enters s [as] (enterElement e) fun _ => True := by
  intro d
  refine ensures_modifyGet.2 ⟨?_, trivial⟩
  simp [Declarations.extras, Declarations.addElement, h]

theorem enters_enterAttribute (a : Attribute) :
    Enters s [] (enterAttribute a) fun _ => True :=
  fun _ => ensures_modifyGet.2 ⟨(List.append_nil _).symm, trivial⟩

theorem enters_enterSimpleType (t : SimpleType) :
    Enters s [] (enterSimpleType t) fun _ => True :=
  fun _ => ensures_modifyGet.2 ⟨(List.append_nil _).symm, trivial⟩

theorem enters_enterComplexType (t : ComplexType) :
    Enters s [] (enterComplexType t) fun _ => True :=
  fun _ => ensures_modifyGet.2 ⟨(List.append_nil _).symm, trivial⟩

theorem enters_enterGroup (g : Group) : Enters s [] (enterGroup g) fun _ => True :=
  fun _ => ensures_modifyGet.2 ⟨(List.append_nil _).symm, trivial⟩

theorem enters_enterAttributeGroup (g : AttributeGroup) :
    Enters s [] (enterAttributeGroup g) fun _ => True :=
  fun _ => ensures_modifyGet.2 ⟨(List.append_nil _).symm, trivial⟩

theorem enters_enterParticle : Enters s [] enterParticle fun _ => True :=
  fun _ => ensures_modifyGet.2 ⟨(List.append_nil _).symm, trivial⟩

theorem enters_qname (value : Option String) :
    Enters s [] (qname s value) fun r => r.isSome = (value.getD "" != "") := by
  unfold qname refuse
  split
  · exact .pure rfl
  · rename_i v
    rw [Option.getD_some]
    split
    · rename_i hempty
      exact .pure (by rw [bne, hempty]; rfl)
    · rename_i hgiven
      have hv : (v != "") = true := by rwa [bne, Bool.not_eq_true', ← Bool.not_eq_true]
      rw [hv]
      dsimp only
      split
      · split
        · exact .pure rfl
        · exact .fail
      · exact .pure rfl

theorem enters_integer (v : String) : Enters s [] (integer v) fun _ => True := by
  unfold integer
  split
  · exact .pure trivial
  · exact .fail

theorem enters_occurs (as : Attributes) : Enters s [] (occurs as) fun _ => True := by
  unfold occurs
  refine (enters_integer _).after fun _ _ => ?_
  dsimp only
  split
  · exact .pure trivial
  · exact (enters_integer _).after fun _ _ => .pure trivial

theorem enters_elementOccurs (isGlobal : Bool) (as : Attributes) :
    Enters s [] (elementOccurs isGlobal as) fun _ => True := by
  unfold elementOccurs
  split
  · exact .pure trivial
  · exact enters_occurs as

theorem enters_wildcard (as : Attributes) : Enters s [] (wildcard as) fun _ => True :=
  (enters_occurs as).after fun _ _ => enters_enterParticle.after fun _ _ => .pure trivial

theorem enters_groupRef (as : Attributes) : Enters s [] (groupRef? s as) fun r =>
    r.isSome = ((valueOf? as "ref").getD "" != "") := by
  unfold groupRef?
  split
  · rename_i hempty
    exact .pure (by rw [bne, hempty]; rfl)
  · exact (enters_occurs as).after fun o _ => (enters_qname _).after fun q hq =>
      .pure (by rw [Option.isSome_map, hq])

mutual

theorem enters_simplePart : ∀ (part : Tree) (t : SimpleType),
    Enters s [] (simplePart s part t) fun _ => True
  | .text _, t => by
    rw [simplePart]
    exact .pure trivial
  | .element n as content, t => by
    rw [simplePart]
    split
    · exact (enters_qname _).after fun _ _ => (enters_firstSimple content).after fun _ _ =>
        .pure trivial
    · exact (enters_qname _).after fun _ _ => .pure trivial
    · exact .pure trivial
    · exact .pure trivial

theorem enters_simpleParts : ∀ (parts : List Tree) (t : SimpleType),
    Enters s [] (simpleParts s parts t) fun _ => True
  | [], t => by
    rw [simpleParts]
    exact .pure trivial
  | part :: parts, t => by
    rw [simpleParts]
    exact (enters_simplePart part t).after fun u _ => enters_simpleParts parts u

theorem enters_simple? : ∀ t : Tree, Enters s [] (simple? s t) fun _ => True
  | .text _ => by
    rw [simple?]
    exact .pure trivial
  | .element n _ content => by
    rw [simple?]
    split
    · exact .map ((enters_simpleParts content _).after fun t _ => enters_enterSimpleType t)
    · exact .pure trivial

theorem enters_firstSimple : ∀ ts : List Tree, Enters s [] (firstSimple s ts) fun _ => True
  | [] => by
    rw [firstSimple]
    exact .pure trivial
  | t :: ts => by
    rw [firstSimple]
    refine (enters_simple? t).after fun found _ => ?_
    cases found with
    | none => exact enters_firstSimple ts
    | some i => exact .pure trivial

end

theorem enters_simpleType (name : Option String) (content : List Tree) :
    Enters s [] (simpleType s name content) fun _ => True :=
  (enters_simpleParts content _).after fun t _ => enters_enterSimpleType t

theorem enters_attr (isGlobal : Bool) (as : Attributes) (content : List Tree) :
    Enters s [] (attr s isGlobal as content) fun _ => True :=
  (enters_firstSimple content).after fun _ _ => (enters_qname _).after fun _ _ =>
    (enters_qname _).after fun _ _ => enters_enterAttribute _

theorem enters_attributeUses (content : List Tree) :
    Enters s [] (attributeUses s content) fun _ => True := by
  induction content with
  | nil => exact .pure trivial
  | cons t ts ih =>
    cases t with
    | text => exact ih
    | element n as content =>
      rw [attributeUses]
      split
      · exact (enters_attr false as content).after fun _ _ => ih.after fun _ _ => .pure trivial
      · exact (enters_qname _).after fun _ _ => ih.after fun _ _ => .pure trivial
      · exact ih

/-! ## What enters elements -/

theorem enters_elementOf (isGlobal : Bool) (as : Attributes) (content : List Tree)
    {tags : List Attributes} {inside : Declare (Option TypeRef)}
    (h : Enters s tags inside fun _ => True) :
    Enters s (tags ++ [as]) (elementOf s isGlobal as content inside) fun _ => True :=
  (enters_elementOccurs isGlobal as).after fun _ _ => h.bind fun _ _ =>
    (enters_qname _).after fun _ _ => (enters_qname _).after fun _ _ =>
      (enters_qname _).after fun _ _ => enters_enterElement _ as rfl

theorem enters_complexTypeOf (name : Option String) (as : Attributes) (content : List Tree)
    {o : Option (List Attributes)} {tags : List Attributes} {m : Declare (Option Derived)}
    {p : Declare (Option Node)} (hm : Enters s (o.getD []) m fun r => r.isSome = o.isSome)
    (hp : Enters s tags p fun _ => True) :
    Enters s (o.getD tags) (complexTypeOf s name as content m p) fun _ => True := by
  refine hm.first (fun _ => ?_) fun m _ => enters_enterComplexType _
  exact hp.before fun _ _ => (enters_attributeUses content).after fun _ _ =>
    enters_enterComplexType _

theorem enters_derivedOf (simple mixed : Bool) (derivation : Derivation) (as : Attributes)
    (content : List Tree) {tags : List Attributes} {p : Declare (Option Node)}
    (hp : Enters s tags p fun _ => True) :
    Enters s tags (derivedOf s simple mixed derivation as content p) fun _ => True :=
  (enters_attributeUses content).after fun _ _ => (enters_qname _).after fun _ _ =>
    hp.before fun _ _ => .pure trivial

theorem enters_compositorOf (make : Identity → Occurs → List Node → Node) (as : Attributes)
    {items : Declare (List Node)} {tags : List Attributes}
    (h : Enters s tags items fun _ => True) :
    Enters s tags (compositorOf make as items) fun r => r.isSome = true :=
  (enters_occurs as).after fun _ _ => h.before fun _ _ =>
    enters_enterParticle.after fun _ _ => .pure rfl

mutual

theorem enters_inline? : ∀ t : Tree, Enters s (inlineTags t) (inline? s t) fun _ => True
  | .text _ => by
    rw [inline?, inlineTags]
    exact .pure trivial
  | .element n as content => by
    rw [inline?, inlineTags]
    rcases Construct.ofName? n with _ | c
    · exact .pure trivial
    cases c with
    | complexType =>
      exact (enters_complexTypeOf none as content (enters_model none content)
        (enters_particle content)).before fun _ _ => .pure trivial
    | simpleType => exact (enters_simpleType none content).after fun _ _ => .pure trivial
    | _ => exact .pure trivial

theorem enters_lastInline : ∀ (ts : List Tree) (last : Option TypeRef),
    Enters s (inlineTagsList ts) (lastInline s ts last) fun _ => True
  | [], last => by
    rw [lastInline, inlineTagsList]
    exact .pure trivial
  | t :: ts, last => by
    rw [lastInline, inlineTagsList]
    exact (enters_inline? t).bind fun _ _ => enters_lastInline ts _

theorem enters_particle? : ∀ t : Tree,
    Enters s ((particleTags? t).getD []) (particle? s t) fun r =>
      r.isSome = (particleTags? t).isSome
  | .text _ => by
    rw [particle?, particleTags?]
    exact .pure rfl
  | .element n as content => by
    rw [particle?, particleTags?]
    rcases Construct.ofName? n with _ | c
    · exact .pure rfl
    cases c with
    | sequence => exact enters_compositorOf _ as (enters_items content)
    | all => exact enters_compositorOf _ as (enters_items content)
    | choice => exact enters_compositorOf _ as (enters_items content)
    | group =>
      have href := enters_groupRef (s := s) as
      dsimp only
      split
      · rename_i hempty
        rwa [bne, hempty] at href
      · rename_i hgiven
        rwa [bne, Bool.eq_false_iff.2 hgiven] at href
    | _ => exact .pure rfl

theorem enters_particle : ∀ ts : List Tree, Enters s (particleTags ts) (particle s ts) fun _ => True
  | [] => by
    rw [particle, particleTags]
    exact .pure trivial
  | t :: ts => by
    rw [particle, particleTags]
    exact (enters_particle? t).first (fun _ => enters_particle ts) fun _ _ => .pure trivial

theorem enters_item? : ∀ t : Tree, Enters s (itemTags t) (item? s t) fun _ => True
  | .text _ => by
    rw [item?, itemTags]
    exact .pure trivial
  | .element n as content => by
    rw [item?, itemTags]
    rcases Construct.ofName? n with _ | c
    · exact .pure trivial
    cases c with
    | element =>
      exact (enters_elementOf false as content (enters_lastInline content none)).before
        fun _ _ => .pure trivial
    | sequence =>
      exact (enters_compositorOf _ as (enters_items content)).mono fun _ _ => trivial
    | choice => exact (enters_compositorOf _ as (enters_items content)).mono fun _ _ => trivial
    | group => exact (enters_groupRef as).mono fun _ _ => trivial
    | any => exact (enters_wildcard as).after fun _ _ => .pure trivial
    | _ => exact .pure trivial

theorem enters_items : ∀ ts : List Tree, Enters s (itemTagsList ts) (items s ts) fun _ => True
  | [] => by
    rw [items, itemTagsList]
    exact .pure trivial
  | t :: ts => by
    rw [items, itemTagsList]
    exact (enters_item? t).bind fun _ _ => (enters_items ts).before fun _ _ => .pure trivial

theorem enters_derived? (simple mixed : Bool) : ∀ t : Tree,
    Enters s ((derivedTags? t).getD []) (derived? s simple mixed t) fun r =>
      r.isSome = (derivedTags? t).isSome
  | .text _ => by
    rw [derived?, derivedTags?]
    exact .pure rfl
  | .element n as content => by
    have hderived (d : Derivation) := enters_derivedOf simple mixed d as content
      (enters_particle content)
    rw [derived?, derivedTags?]
    rcases Construct.ofName? n with _ | c
    · exact .pure rfl
    cases c with
    | extension => exact .map ((hderived _).mono fun _ _ => rfl)
    | restriction => exact .map ((hderived _).mono fun _ _ => rfl)
    | _ => exact .pure rfl

theorem enters_derived (simple mixed : Bool) (name : Option String) : ∀ ts : List Tree,
    Enters s (derivedTags ts) (derived s simple mixed name ts) fun _ => True
  | [] => by
    rw [derived]
    exact .fail
  | t :: ts => by
    rw [derived, derivedTags]
    exact (enters_derived? simple mixed t).first (fun _ => enters_derived simple mixed name ts)
      fun _ _ => .pure trivial

theorem enters_model? (name : Option String) : ∀ t : Tree,
    Enters s ((modelTags? t).getD []) (model? s name t) fun r => r.isSome = (modelTags? t).isSome
  | .text _ => by
    rw [model?, modelTags?]
    exact .pure rfl
  | .element n as content => by
    have hmodel (simple mixed : Bool) := enters_derived simple mixed name content
    rw [model?, modelTags?]
    rcases Construct.ofName? n with _ | c
    · exact .pure rfl
    cases c with
    | complexContent => exact .map ((hmodel false _).mono fun _ _ => rfl)
    | simpleContent => exact .map ((hmodel true _).mono fun _ _ => rfl)
    | _ => exact .pure rfl

theorem enters_model (name : Option String) : ∀ ts : List Tree,
    Enters s ((modelTags ts).getD []) (model s name ts) fun r => r.isSome = (modelTags ts).isSome
  | [] => by
    rw [model, modelTags]
    exact .pure rfl
  | t :: ts => by
    have hrest := enters_model name ts
    rw [model, modelTags]
    rw [Option.getD_or]
    refine (enters_model? name t).first (fun hnone => ?_) fun m hsome => .pure ?_
    · rwa [hnone, Option.none_or]
    · rw [Option.isSome_or, hsome]
      rfl

end

/-! ## The document -/

theorem enters_group (as : Attributes) (content : List Tree) :
    Enters s (particleTags content) (group s as content) fun _ => True :=
  (enters_particle content).before fun _ _ => enters_enterGroup _

theorem enters_attributeGroup (as : Attributes) (content : List Tree) :
    Enters s [] (attributeGroup s as content) fun _ => True :=
  (enters_attributeUses content).after fun _ _ => enters_enterAttributeGroup _

theorem enters_topLevel (n : Name) (as : Attributes) (content : List Tree) (doc : Document)
    (directives : List Directive) :
    Enters s (topTags (.element n as content)) (topLevel s n as content doc directives)
      fun _ => True := by
  rw [topLevel, topTags]
  rcases Construct.ofName? n with _ | c
  · exact .pure trivial
  cases c with
  | element =>
    exact (enters_elementOf true as content (enters_lastInline content none)).before fun _ _ =>
      .pure trivial
  | complexType =>
    exact (enters_complexTypeOf _ as content (enters_model _ content)
      (enters_particle content)).before fun _ _ => .pure trivial
  | simpleType => exact (enters_simpleType _ content).after fun _ _ => .pure trivial
  | group => exact (enters_group as content).before fun _ _ => .pure trivial
  | attr => exact (enters_attr true as content).after fun _ _ => .pure trivial
  | attrGroup => exact (enters_attributeGroup as content).after fun _ _ => .pure trivial
  | _ => exact .pure trivial

theorem enters_topLevels (content : List Tree) (doc : Document) (directives : List Directive) :
    Enters s (elementTags content) (topLevels s doc directives content) fun _ => True := by
  induction content generalizing doc directives with
  | nil => exact .pure trivial
  | cons t ts ih =>
    rw [elementTags, List.flatMap_cons]
    cases t with
    | text => exact ih doc directives
    | element n as content =>
      exact (enters_topLevel n as content doc directives).bind fun _ _ => ih _ _

/-- Reading a document enters an element for each of its start tags, in their order. -/
theorem enters_document (content : List Tree) :
    Enters s (elementTags content) (document s content) fun _ => True :=
  enters_topLevels content _ []

/-! ## Places -/

section Places

variable {d : Declarations}

/-- The places that were free in `d` and are taken in `e`. -/
def TakenSince (d e : Declarations) (i : ElementId) : Prop :=
  d.elements.size ≤ i ∧ i < e.elements.size

theorem element_taken (isGlobal : Bool) (as : Attributes) (content : List Tree) :
    Ensures (element s isGlobal as content) d (fun i e => TakenSince d e i) fun _ _ => True := by
  have hlast : Ensures (element s isGlobal as content) d (fun i e => e.elements.size = i + 1)
      fun _ _ => True := by
    unfold element elementOf
    refine ensures_any.bind fun o d₁ _ => ensures_any.bind fun inline d₂ _ => ?_
    refine ensures_any.bind fun ref d₃ _ => ensures_any.bind fun typeName d₄ _ => ?_
    refine ensures_any.bind fun sub d₅ _ => ensures_modifyGet.2 ?_
    simp [Declarations.addElement]
  have henters := enters_elementOf (s := s) isGlobal as content (enters_lastInline content none) d
  refine (henters.and hlast).mono (fun i e h => ?_) fun _ _ _ => trivial
  obtain ⟨⟨hextras, -⟩, hi⟩ := h
  have hsize := congrArg List.length hextras
  simp only [List.length_append, List.length_map, Declarations.length_extras,
    List.length_singleton] at hsize
  have hplace (first inside i after : Nat) (h : after = first + (inside + 1)) (hi : after = i + 1) :
      first ≤ i ∧ i < after := by omega
  exact hplace _ _ _ _ hsize hi

theorem topLevel_taken (n : Name) (as : Attributes) (content : List Tree) (doc : Document)
    (directives : List Directive) :
    Ensures (topLevel s n as content doc directives) d
      (fun r e => ∀ i ∈ r.1.elements, i ∈ doc.elements ∨ TakenSince d e i) fun _ _ => True := by
  rw [topLevel]
  split
  · exact ensures_pure.2 fun _ => .inl
  · exact ensures_pure.2 fun _ => .inl
  · exact ensures_pure.2 fun _ => .inl
  · refine (element_taken true as content).bind fun i e hi => ensures_pure.2 fun j hj => ?_
    rcases List.mem_append.1 hj with hj | hj
    · exact .inl hj
    · exact .inr (List.mem_singleton.1 hj ▸ hi)
  · exact ensures_any.bind fun _ _ _ => ensures_pure.2 fun _ => .inl
  · exact ensures_any.bind fun _ _ _ => ensures_pure.2 fun _ => .inl
  · exact ensures_any.bind fun _ _ _ => ensures_pure.2 fun _ => .inl
  · exact ensures_any.bind fun _ _ _ => ensures_pure.2 fun _ => .inl
  · exact ensures_any.bind fun _ _ _ => ensures_pure.2 fun _ => .inl
  · exact ensures_pure.2 fun _ => .inl

theorem topLevels_taken (content : List Tree) (doc : Document) (directives : List Directive) :
    Ensures (topLevels s doc directives content) d
      (fun r e => d.elements.size ≤ e.elements.size ∧
        ∀ i ∈ r.1.elements, i ∈ doc.elements ∨ TakenSince d e i) fun _ _ => True := by
  induction content generalizing d doc directives with
  | nil => exact ensures_pure.2 ⟨Nat.le_refl _, fun _ => .inl⟩
  | cons t ts ih =>
    cases t with
    | text => exact ih doc directives
    | element n as inner =>
      have hstep := (topLevel_taken (s := s) (d := d) n as inner doc directives).and
        ((enters_topLevel n as inner doc directives).size_le d)
      refine ensures_bind.2 (hstep.mono (fun r e hr => ?_) fun _ _ _ => trivial)
      obtain ⟨hfirst, hsize⟩ := hr
      refine (ih r.1 r.2).mono (fun r' e' hr' => ?_) fun _ _ h => h
      refine ⟨Nat.le_trans hsize hr'.1, fun i hi => ?_⟩
      rcases hr'.2 i hi with hi | hi
      · exact (hfirst i hi).imp_right fun h => ⟨h.1, Nat.lt_of_lt_of_le h.2 hr'.1⟩
      · exact .inr ⟨Nat.le_trans hsize hi.1, hi.2⟩

/-- The elements that a document lists are among those which are entered for its start tags. -/
theorem document_taken (content : List Tree) :
    Ensures (document s content) d (fun r e => ∀ i ∈ r.1.elements, TakenSince d e i)
      fun _ _ => True :=
  (topLevels_taken content _ []).mono
    (fun _ _ h i hi => (h.2 i hi).resolve_left List.not_mem_nil) fun _ _ h => h

end Places

end Declaring
end Schema
end SchemaPaths
