/-
Reading a document behind others.

What a document says does not depend on what was read before it, nor on where it lies.  `x ++ e` are
the declarations of `x` with those of `e` behind them.  A reading that leads from `e` to `e'` leads
from `x ++ e` to `x ++ e'`, with what it returns moved along, and a failure names the place that the
document has now.
-/
import SchemaPaths.Proofs.Ensures
import SchemaPaths.Proofs.Schema.Renaming
import SchemaPaths.Schema.Declaring

namespace SchemaPaths
namespace Schema

open Renaming

/-! ## Declarations behind others -/

namespace Declarations

/-- All go behind the declarations that are there. -/
def shift (x : Declarations) : Renaming := fun k i => x.extent.count k + i

/-- The declarations of `x` and behind them those of `e`, which refer to each other as before. -/
def append (x e : Declarations) : Declarations where
  elements := x.elements ++ e.elements.map (·.rename x.shift)
  attributes := x.attributes ++ e.attributes.map (·.rename x.shift)
  simpleTypes := x.simpleTypes ++ e.simpleTypes.map (·.rename x.shift)
  complexTypes := x.complexTypes ++ e.complexTypes.map (·.rename x.shift)
  groups := x.groups ++ e.groups.map (·.rename x.shift)
  attributeGroups := x.attributeGroups ++ e.attributeGroups.map (·.rename x.shift)
  particles := x.particles + e.particles

instance : Append Declarations := ⟨append⟩

variable (x e : Declarations)

theorem append_def : x ++ e = x.append e := rfl

theorem append_empty : x ++ ({} : Declarations) = x := by
  simp [append_def, append]

theorem shift_empty : shift ({} : Declarations) = same := by
  funext k i
  cases k <;> exact Nat.zero_add i

theorem empty_append : ({} : Declarations) ++ e = e := by
  simp [append_def, append, shift_empty]

theorem count_append (k : Family) :
    (x ++ e).extent.count k = x.extent.count k + e.extent.count k := by
  cases k <;> simp [append_def, append, extent, Extent.count]

theorem addElement_append (a : Element) :
    (x ++ e).addElement (a.rename x.shift) =
      (x.shift .element (e.addElement a).1, x ++ (e.addElement a).2) := by
  simp [append_def, append, addElement, extent, shift, Extent.count]

theorem addAttribute_append (a : Attribute) :
    (x ++ e).addAttribute (a.rename x.shift) =
      (x.shift .attr (e.addAttribute a).1, x ++ (e.addAttribute a).2) := by
  simp [append_def, append, addAttribute, extent, shift, Extent.count]

theorem addSimpleType_append (t : SimpleType) :
    (x ++ e).addSimpleType (t.rename x.shift) =
      (x.shift .simple (e.addSimpleType t).1, x ++ (e.addSimpleType t).2) := by
  simp [append_def, append, addSimpleType, extent, shift, Extent.count]

theorem addComplexType_append (t : ComplexType) :
    (x ++ e).addComplexType (t.rename x.shift) =
      (x.shift .complex (e.addComplexType t).1, x ++ (e.addComplexType t).2) := by
  simp [append_def, append, addComplexType, extent, shift, Extent.count]

theorem addGroup_append (g : Group) :
    (x ++ e).addGroup (g.rename x.shift) =
      (x.shift .group (e.addGroup g).1, x ++ (e.addGroup g).2) := by
  simp [append_def, append, addGroup, extent, shift, Extent.count]

theorem addAttributeGroup_append (g : AttributeGroup) :
    (x ++ e).addAttributeGroup (g.rename x.shift) =
      (x.shift .attributeGroup (e.addAttributeGroup g).1, x ++ (e.addAttributeGroup g).2) := by
  simp [append_def, append, addAttributeGroup, extent, shift, Extent.count]

theorem addParticle_append : (x ++ e).addParticle =
    (x.shift .particle e.addParticle.1, x ++ e.addParticle.2) := by
  simp [append_def, append, addParticle, extent, shift, Extent.count, Nat.add_assoc]

end Declarations

/-! ## Moved readings -/

/-- A failure of a document that lies elsewhere. -/
def Failure.movedTo (place : String) : Failure → Failure
  | .schema (.load problem (some _)) => .load problem (some place)
  | f => f

def Setting.movedTo (s : Setting) (place : String) : Setting := { s with source := place }

def Document.movedTo (doc : Document) (place : String) : Document := { doc with source := place }

/-- What a reading comes to behind `x`, for a document that lies at `place`. -/
def behind {α β : Type} (x : Declarations) (place : String) (f : α → β) :
    Except Failure α × Declarations → Except Failure β × Declarations
  | (.ok a, e) => (.ok (f a), x ++ e)
  | (.error g, e) => (.error (g.movedTo place), x ++ e)

/-- The second reading does behind `x`, for a document that lies at `place`, what the first does, and
returns what `f` makes of its result. -/
def Moves {α β : Type} (x : Declarations) (place : String) (f : α → β) (m : Declare α)
    (m' : Declare β) : Prop :=
  ∀ e, m'.run.run (x ++ e) = behind x place f (m.run.run e)

namespace Moves

variable {α β γ δ : Type} {x : Declarations} {place : String} {f : α → β} {m : Declare α}
  {m' : Declare β}

theorem pure {a : α} {b : β} (h : b = f a) :
    Moves x place f (Pure.pure a : Declare α) (Pure.pure b) := by
  rw [h]
  exact fun _ => rfl

theorem fail {g g' : Failure} (h : g' = g.movedTo place) :
    Moves x place f (throw g : Declare α) (throw g') := by
  rw [h]
  exact fun _ => rfl

theorem enter {c : Declarations → α × Declarations} {c' : Declarations → β × Declarations}
    (h : ∀ e, c' (x ++ e) = (f (c e).1, x ++ (c e).2)) :
    Moves x place f (modifyGet c : Declare α) (modifyGet c') := by
  intro e
  refine Eq.trans ?_ (congrArg (fun r : β × Declarations =>
    ((.ok r.1, r.2) : Except Failure β × Declarations)) (h e))
  rfl

theorem bind {g : γ → δ} {k : α → Declare γ} {k' : β → Declare δ} (h : Moves x place f m m')
    (hk : ∀ a, Moves x place g (k a) (k' (f a))) : Moves x place g (m >>= k) (m' >>= k') := by
  intro e
  simp only [ExceptT.run_bind, StateT.run_bind, h e]
  rcases m.run.run e with ⟨_ | a, t⟩
  · rfl
  · exact hk a t

theorem map {c : α → γ} {c' : β → δ} {g : γ → δ} (h : Moves x place f m m')
    (hc : ∀ a, c' (f a) = g (c a)) : Moves x place g (c <$> m) (c' <$> m') := by
  rw [map_eq_pure_bind, map_eq_pure_bind]
  exact h.bind fun a => .pure (hc a)

/-- The first of several readings that finds something. -/
theorem first {first rest : Declare (Option α)} {first' rest' : Declare (Option β)}
    {next : Option α → Declare (Option α)} {next' : Option β → Declare (Option β)}
    (hnone : next none = rest) (hsome : ∀ a, next (some a) = Pure.pure (some a))
    (hnone' : next' none = rest') (hsome' : ∀ b, next' (some b) = Pure.pure (some b))
    (h : Moves x place (Option.map f) first first')
    (hrest : Moves x place (Option.map f) rest rest') :
    Moves x place (Option.map f) (first >>= next) (first' >>= next') := by
  refine h.bind fun found => ?_
  cases found with
  | none => rwa [Option.map_none, hnone, hnone']
  | some a =>
    rw [Option.map_some, hsome, hsome']
    exact .pure rfl

end Moves

namespace Declaring

open Markup (Name Tree)

variable {x : Declarations} {place : String} {s : Setting}

/-! ## Values -/

theorem moves_qname (v : Option String) :
    Moves x place id (qname s v) (qname (s.movedTo place) v) := by
  unfold qname refuse
  split
  · exact .pure rfl
  · split
    · exact .pure rfl
    · dsimp only [Setting.movedTo]
      split
      · split
        · exact .pure rfl
        · exact .fail rfl
      · exact .pure rfl

theorem moves_integer (v : String) : Moves x place id (integer v) (integer v) := by
  unfold integer
  split
  · exact .pure rfl
  · exact .fail rfl

theorem moves_occurs (as : Attributes) : Moves x place id (occurs as) (occurs as) := by
  unfold occurs
  refine (moves_integer _).bind fun _ => ?_
  dsimp only
  split
  · exact .pure rfl
  · exact (moves_integer _).bind fun _ => .pure rfl

theorem moves_elementOccurs (isGlobal : Bool) (as : Attributes) :
    Moves x place id (elementOccurs isGlobal as) (elementOccurs isGlobal as) := by
  unfold elementOccurs
  split
  · exact .pure rfl
  · exact moves_occurs as

theorem moves_groupRef (as : Attributes) :
    Moves x place (Option.map (Node.rename x.shift)) (groupRef? s as)
      (groupRef? (s.movedTo place) as) := by
  unfold groupRef?
  split
  · exact .pure rfl
  · refine (moves_occurs as).bind fun _ => (moves_qname _).bind fun q => .pure ?_
    cases q <;> rfl

/-! ## Entering declarations -/

theorem moves_enterElement (a : Element) :
    Moves x place (x.shift .element) (enterElement a) (enterElement (a.rename x.shift)) :=
  .enter fun e => x.addElement_append e a

theorem moves_enterAttribute (a : Attribute) :
    Moves x place (x.shift .attr) (enterAttribute a) (enterAttribute (a.rename x.shift)) :=
  .enter fun e => x.addAttribute_append e a

theorem moves_enterSimpleType (t : SimpleType) :
    Moves x place (x.shift .simple) (enterSimpleType t) (enterSimpleType (t.rename x.shift)) :=
  .enter fun e => x.addSimpleType_append e t

theorem moves_enterComplexType (t : ComplexType) :
    Moves x place (x.shift .complex) (enterComplexType t) (enterComplexType (t.rename x.shift)) :=
  .enter fun e => x.addComplexType_append e t

theorem moves_enterGroup (g : Group) :
    Moves x place (x.shift .group) (enterGroup g) (enterGroup (g.rename x.shift)) :=
  .enter fun e => x.addGroup_append e g

theorem moves_enterAttributeGroup (g : AttributeGroup) :
    Moves x place (x.shift .attributeGroup) (enterAttributeGroup g)
      (enterAttributeGroup (g.rename x.shift)) :=
  .enter fun e => x.addAttributeGroup_append e g

theorem moves_enterParticle : Moves x place (x.shift .particle) enterParticle enterParticle :=
  .enter fun e => x.addParticle_append e

theorem moves_wildcard (as : Attributes) :
    Moves x place (Node.rename x.shift) (wildcard as) (wildcard as) :=
  (moves_occurs as).bind fun _ => moves_enterParticle.bind fun _ => .pure rfl

/-! ## Simple types and attributes -/

mutual

theorem moves_simplePart : ∀ (part : Tree) (t : SimpleType),
    Moves x place (SimpleType.rename x.shift) (simplePart s part t)
      (simplePart (s.movedTo place) part (t.rename x.shift))
  | .text _, t => by
    rw [simplePart, simplePart]
    exact .pure rfl
  | .element n as content, t => by
    rw [simplePart, simplePart]
    split
    · refine (moves_qname _).bind fun _ => (moves_firstSimple content).bind fun found => .pure ?_
      cases found <;> rfl
    · exact (moves_qname _).bind fun _ => .pure rfl
    · exact .pure rfl
    · exact .pure rfl

theorem moves_simpleParts : ∀ (parts : List Tree) (t : SimpleType),
    Moves x place (SimpleType.rename x.shift) (simpleParts s parts t)
      (simpleParts (s.movedTo place) parts (t.rename x.shift))
  | [], t => by
    rw [simpleParts, simpleParts]
    exact .pure rfl
  | part :: parts, t => by
    rw [simpleParts, simpleParts]
    exact (moves_simplePart part t).bind fun u => moves_simpleParts parts u

theorem moves_simple? : ∀ t : Tree,
    Moves x place (Option.map (x.shift .simple)) (simple? s t) (simple? (s.movedTo place) t)
  | .text _ => by
    rw [simple?, simple?]
    exact .pure rfl
  | .element n _ content => by
    rw [simple?, simple?]
    split
    · exact .map ((moves_simpleParts content _).bind fun t => moves_enterSimpleType t) fun _ => rfl
    · exact .pure rfl

theorem moves_firstSimple : ∀ ts : List Tree,
    Moves x place (Option.map (x.shift .simple)) (firstSimple s ts)
      (firstSimple (s.movedTo place) ts)
  | [] => by
    rw [firstSimple, firstSimple]
    exact .pure rfl
  | t :: ts => by
    rw [firstSimple, firstSimple]
    exact .first rfl (fun _ => rfl) rfl (fun _ => rfl) (moves_simple? t) (moves_firstSimple ts)

end

theorem moves_simpleType (name : Option String) (content : List Tree) :
    Moves x place (x.shift .simple) (simpleType s name content)
      (simpleType (s.movedTo place) name content) :=
  (moves_simpleParts content _).bind fun t => moves_enterSimpleType t

theorem moves_attr (isGlobal : Bool) (as : Attributes) (content : List Tree) :
    Moves x place (x.shift .attr) (attr s isGlobal as content)
      (attr (s.movedTo place) isGlobal as content) :=
  (moves_firstSimple content).bind fun _ => (moves_qname _).bind fun _ =>
    (moves_qname _).bind fun _ => moves_enterAttribute _

theorem moves_attributeUses (content : List Tree) :
    Moves x place (fun r => (r.1.map (x.shift .attr), r.2)) (attributeUses s content)
      (attributeUses (s.movedTo place) content) := by
  induction content with
  | nil => exact .pure rfl
  | cons t ts ih =>
    cases t with
    | text => exact ih
    | element n as content =>
      rw [attributeUses, attributeUses]
      split
      · exact (moves_attr false as content).bind fun _ => ih.bind fun _ => .pure rfl
      · exact (moves_qname _).bind fun _ => ih.bind fun _ => .pure rfl
      · exact ih

/-! ## Elements, complex types and their content -/

theorem moves_elementOf (isGlobal : Bool) (as : Attributes) (content : List Tree)
    {inline inline' : Declare (Option TypeRef)}
    (h : Moves x place (Option.map (TypeRef.rename x.shift)) inline inline') :
    Moves x place (x.shift .element) (elementOf s isGlobal as content inline)
      (elementOf (s.movedTo place) isGlobal as content inline') :=
  (moves_elementOccurs isGlobal as).bind fun _ => h.bind fun _ => (moves_qname _).bind fun _ =>
    (moves_qname _).bind fun _ => (moves_qname _).bind fun _ => moves_enterElement _

theorem moves_complexTypeOf (name : Option String) (as : Attributes) (content : List Tree)
    {model model' : Declare (Option Derived)} {particle particle' : Declare (Option Node)}
    (hm : Moves x place (Option.map (Derived.rename x.shift)) model model')
    (hp : Moves x place (Option.map (Node.rename x.shift)) particle particle') :
    Moves x place (x.shift .complex) (complexTypeOf s name as content model particle)
      (complexTypeOf (s.movedTo place) name as content model' particle') := by
  refine hm.bind fun found => ?_
  cases found with
  | none => exact hp.bind fun _ => (moves_attributeUses content).bind fun _ =>
      moves_enterComplexType _
  | some m => exact moves_enterComplexType _

theorem moves_derivedOf (simple mixed : Bool) (derivation : Derivation) (as : Attributes)
    (content : List Tree) {particle particle' : Declare (Option Node)}
    (hp : Moves x place (Option.map (Node.rename x.shift)) particle particle') :
    Moves x place (Derived.rename x.shift)
      (derivedOf s simple mixed derivation as content particle)
      (derivedOf (s.movedTo place) simple mixed derivation as content particle') :=
  (moves_attributeUses content).bind fun _ => (moves_qname _).bind fun _ =>
    hp.bind fun _ => .pure rfl

theorem moves_compositorOf (as : Attributes) {items items' : Declare (List Node)}
    {make : Identity → Occurs → List Node → Node}
    (hmake : ∀ i o ns,
      (make i o ns).rename x.shift = make (i.rename x.shift) o (ns.map (Node.rename x.shift)))
    (h : Moves x place (List.map (Node.rename x.shift)) items items') :
    Moves x place (Option.map (Node.rename x.shift)) (compositorOf make as items)
      (compositorOf make as items') :=
  (moves_occurs as).bind fun o => h.bind fun ns => moves_enterParticle.bind fun i =>
    .pure (congrArg some (hmake (.declared i) o ns).symm)

theorem rename_sequence (c : Compositor) (i : Identity) (o : Occurs) (ns : List Node) :
    (Node.sequence i c o ns).rename x.shift =
      .sequence (i.rename x.shift) c o (ns.map (Node.rename x.shift)) := by
  rw [Node.rename, Node.renameAll_eq_map]

theorem rename_choice (i : Identity) (o : Occurs) (ns : List Node) :
    (Node.choice i o ns).rename x.shift =
      .choice (i.rename x.shift) o (ns.map (Node.rename x.shift)) := by
  rw [Node.rename, Node.renameAll_eq_map]

mutual

theorem moves_inline? : ∀ t : Tree,
    Moves x place (Option.map (TypeRef.rename x.shift)) (inline? s t)
      (inline? (s.movedTo place) t)
  | .text _ => by
    rw [inline?, inline?]
    exact .pure rfl
  | .element n as content => by
    rw [inline?, inline?]
    split
    · exact (moves_complexTypeOf none as content (moves_model none content)
        (moves_particle content)).bind fun _ => .pure rfl
    · exact (moves_simpleType none content).bind fun _ => .pure rfl
    · exact .pure rfl

theorem moves_lastInline : ∀ (ts : List Tree) (last : Option TypeRef),
    Moves x place (Option.map (TypeRef.rename x.shift)) (lastInline s ts last)
      (lastInline (s.movedTo place) ts (last.map (TypeRef.rename x.shift)))
  | [], last => by
    rw [lastInline, lastInline]
    exact .pure rfl
  | t :: ts, last => by
    rw [lastInline, lastInline]
    refine (moves_inline? t).bind fun found => ?_
    rw [← Option.map_or]
    exact moves_lastInline ts _

theorem moves_particle? : ∀ t : Tree,
    Moves x place (Option.map (Node.rename x.shift)) (particle? s t)
      (particle? (s.movedTo place) t)
  | .text _ => by
    rw [particle?, particle?]
    exact .pure rfl
  | .element n as content => by
    rw [particle?, particle?]
    split
    · exact moves_compositorOf as (rename_sequence .sequence) (moves_items content)
    · exact moves_compositorOf as (rename_sequence .all) (moves_items content)
    · exact moves_compositorOf as rename_choice (moves_items content)
    · exact moves_groupRef as
    · exact .pure rfl

theorem moves_particle : ∀ ts : List Tree,
    Moves x place (Option.map (Node.rename x.shift)) (particle s ts)
      (particle (s.movedTo place) ts)
  | [] => by
    rw [particle, particle]
    exact .pure rfl
  | t :: ts => by
    rw [particle, particle]
    exact .first rfl (fun _ => rfl) rfl (fun _ => rfl) (moves_particle? t) (moves_particle ts)

theorem moves_item? : ∀ t : Tree,
    Moves x place (Option.map (Node.rename x.shift)) (item? s t) (item? (s.movedTo place) t)
  | .text _ => by
    rw [item?, item?]
    exact .pure rfl
  | .element n as content => by
    rw [item?, item?]
    split
    · exact (moves_elementOf false as content (moves_lastInline content none)).bind
        fun _ => .pure rfl
    · exact moves_compositorOf as (rename_sequence .sequence) (moves_items content)
    · exact moves_compositorOf as rename_choice (moves_items content)
    · exact moves_groupRef as
    · exact (moves_wildcard as).bind fun _ => .pure rfl
    · exact .pure rfl

theorem moves_items : ∀ ts : List Tree,
    Moves x place (List.map (Node.rename x.shift)) (items s ts) (items (s.movedTo place) ts)
  | [] => by
    rw [items, items]
    exact .pure rfl
  | t :: ts => by
    rw [items, items]
    refine (moves_item? t).bind fun first => (moves_items ts).bind fun rest => .pure ?_
    rw [List.map_append]
    cases first <;> rfl

theorem moves_derived? (simple mixed : Bool) : ∀ t : Tree,
    Moves x place (Option.map (Derived.rename x.shift)) (derived? s simple mixed t)
      (derived? (s.movedTo place) simple mixed t)
  | .text _ => by
    rw [derived?, derived?]
    exact .pure rfl
  | .element n as content => by
    rw [derived?, derived?]
    split
    · exact .map (moves_derivedOf simple mixed _ as content (moves_particle content)) fun _ => rfl
    · exact .pure rfl

theorem moves_derived (simple mixed : Bool) (name : Option String) : ∀ ts : List Tree,
    Moves x place (Derived.rename x.shift) (derived s simple mixed name ts)
      (derived (s.movedTo place) simple mixed name ts)
  | [] => by
    rw [derived, derived]
    exact .fail rfl
  | t :: ts => by
    rw [derived, derived]
    refine (moves_derived? simple mixed t).bind fun found => ?_
    cases found with
    | none => exact moves_derived simple mixed name ts
    | some m => exact .pure rfl

theorem moves_model? (name : Option String) : ∀ t : Tree,
    Moves x place (Option.map (Derived.rename x.shift)) (model? s name t)
      (model? (s.movedTo place) name t)
  | .text _ => by
    rw [model?, model?]
    exact .pure rfl
  | .element n as content => by
    rw [model?, model?]
    split
    · exact .map (moves_derived false _ name content) fun _ => rfl
    · exact .map (moves_derived true _ name content) fun _ => rfl
    · exact .pure rfl

theorem moves_model (name : Option String) : ∀ ts : List Tree,
    Moves x place (Option.map (Derived.rename x.shift)) (model s name ts)
      (model (s.movedTo place) name ts)
  | [] => by
    rw [model, model]
    exact .pure rfl
  | t :: ts => by
    rw [model, model]
    exact .first rfl (fun _ => rfl) rfl (fun _ => rfl) (moves_model? name t) (moves_model name ts)

end

/-! ## Documents -/

theorem moves_topLevel (n : Name) (as : Attributes) (content : List Tree) (doc : Document)
    (directives : List Directive) :
    Moves x place (fun r => ((r.1.rename x.shift).movedTo place, r.2))
      (topLevel s n as content doc directives)
      (topLevel (s.movedTo place) n as content ((doc.rename x.shift).movedTo place) directives) := by
  have listed {k : Family} (ids : List Nat) (i : Nat) :
      ids.map (x.shift k) ++ [x.shift k i] = (ids ++ [i]).map (x.shift k) := by
    rw [List.map_append, List.map_singleton]
  have listedType (ts : List TypeRef) (t : TypeRef) :
      ts.map (TypeRef.rename x.shift) ++ [t.rename x.shift] =
        (ts ++ [t]).map (TypeRef.rename x.shift) := by
    rw [List.map_append, List.map_singleton]
  unfold topLevel
  split
  · exact .pure rfl
  · exact .pure rfl
  · exact .pure rfl
  · refine (moves_elementOf true as content (moves_lastInline content none)).bind
      fun i => .pure ?_
    simp only [Document.rename, Document.movedTo, listed]
  · refine (moves_complexTypeOf _ as content (moves_model _ content)
      (moves_particle content)).bind fun i => .pure ?_
    simp only [Document.rename, Document.movedTo, ← listedType]
    rfl
  · refine (moves_simpleType _ content).bind fun i => .pure ?_
    simp only [Document.rename, Document.movedTo, ← listedType]
    rfl
  · refine ((moves_particle content).bind fun p => moves_enterGroup _).bind fun i => .pure ?_
    simp only [Document.rename, Document.movedTo, listed]
  · refine (moves_attr true as content).bind fun i => .pure ?_
    simp only [Document.rename, Document.movedTo, listed]
  · refine ((moves_attributeUses content).bind fun u =>
      moves_enterAttributeGroup _).bind fun i => .pure ?_
    simp only [Document.rename, Document.movedTo, listed]
  · exact .pure rfl

theorem moves_topLevels (content : List Tree) (doc : Document) (directives : List Directive) :
    Moves x place (fun r => ((r.1.rename x.shift).movedTo place, r.2))
      (topLevels s doc directives content)
      (topLevels (s.movedTo place) ((doc.rename x.shift).movedTo place) directives content) := by
  induction content generalizing doc directives with
  | nil => exact .pure rfl
  | cons t ts ih =>
    cases t with
    | text => exact ih doc directives
    | element n as content => exact (moves_topLevel n as content doc directives).bind fun r => ih r.1 r.2

end Declaring
end Schema
end SchemaPaths
