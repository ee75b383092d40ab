/-
How far linking has come.

Linking only ever fills in what declarations leave open, and it keeps an account of what it is done
with.  `Frame` is what holds of the declarations all the while, `Sound` says that the account is
true, and `Links s p m good` that a step `m` of linking from `p` keeps all that: when it succeeds it
leaves behind what it should, and when it fails the set gives the reason.
-/
import SchemaPaths.Proofs.Ensures
import SchemaPaths.Proofs.Linking.Faults

namespace SchemaPaths
namespace Schema

open Linking (Link Progress)

/-! ## What was declared -/

def Element.asDeclared (e : Element) : Element := { e with type := none }

def Attribute.asDeclared (a : Attribute) : Attribute := { a with type := none }

def SimpleType.asDeclared (t : SimpleType) : SimpleType := { t with base := none }

def ComplexType.asDeclared (t : ComplexType) : ComplexType :=
  { t with base := none, contentType := .empty, content := none, uses := [] }

/-! ## Filling in -/

/-- The heads of an element come to an end, and all of them are there. -/
structure HeadsEnd (s : SchemaSet) (i : ElementId) : Prop where
  ends : Ends (Head s) i
  found : ∀ h, Relation.ReflTransGen (Head s) i h →
    ∀ q ∈ (s.declared.element h).substitution, (s.element? q).isSome

/-- The head of an element is there, and if it had no type before linking its heads come to an
end. -/
structure Headed (s : SchemaSet) (i : ElementId) : Prop where
  found : ∀ q ∈ (s.declared.element i).substitution, (s.element? q).isSome
  heads : (s.declared.element i).type = none → HeadsEnd s i

/-- The declarations of a set while it is linked: apart from what linking fills in they are the
ones it had, a simple type has no base but its own, attributes that are references are left alone,
and only elements whose heads are known have types, which are their own, without a name or from the
top of a document. -/
structure Frame (s : SchemaSet) (d : Declarations) : Prop where
  closed : d.Closed
  extent : d.extent = s.declared.extent
  groups : d.groups = s.declared.groups
  attributeGroups : d.attributeGroups = s.declared.attributeGroups
  element : ∀ i, (d.element i).asDeclared = (s.declared.element i).asDeclared
  attr : ∀ i, (d.attr i).asDeclared = (s.declared.attr i).asDeclared
  simpleType : ∀ i, (d.simpleType i).asDeclared = (s.declared.simpleType i).asDeclared
  base : ∀ i, (d.simpleType i).base = (s.declared.simpleType i).base ∨
    (d.simpleType i).base = s.simpleBase? i
  complexType : ∀ i, (d.complexType i).asDeclared = (s.declared.complexType i).asDeclared
  attrRef : ∀ i, (s.declared.attr i).ref.isSome → (d.attr i).type = (s.declared.attr i).type
  elementType : ∀ i, (d.element i).type = (s.declared.element i).type ∨
    ElementType s i (d.element i).type
  typed : ∀ i, (d.element i).type.isSome → (s.declared.element i).ref = none ∧ Headed s i
  given : ∀ i, ∀ t ∈ (d.element i).type, s.IsGiven t

/-- A complex type is filled in: it has its base, the content of that and its own written out, and
the attributes of the base with those that it adds. -/
structure FilledIn (s : SchemaSet) (d : Declarations) (i : ComplexId) (b : TypeRef)
    (own : Option Node) (added : List AttributeId) : Prop where
  named : s.complexBase? (s.declared.complexType i) = some b
  base : (d.complexType i).base = some b
  written : OptionWrittenOut s (Linking.ownParticle (s.declared.complexType i)) own
  content : ((d.complexType i).contentType, (d.complexType i).content) =
    Linking.contentOf i (s.declared.complexType i) (Linking.inherited d b) own
  declared : Linking.declaredUses s (s.declared.complexType i) = .ok added
  uses : (d.complexType i).uses = Linking.effectiveUses s.declared
    (((Linking.inherited d b).map (·.uses)).getD []) added

/-- A simple type is done with once it has its base, its bases are known to come to an end, and the
types that it names are there. -/
structure SimpleDone (s : SchemaSet) (d : Declarations) (i : SimpleId) : Prop where
  base : (d.simpleType i).base = s.simpleBase? i
  ends : Ends (SimpleBase s) i
  named : (s.declared.simpleType i).base = none →
    ∀ q ∈ (s.declared.simpleType i).baseName, (s.type? q).isSome
  item : ∀ q ∈ (s.declared.simpleType i).itemName, (s.type? q).isSome

/-- So is a complex type once it is filled in, after its base. -/
structure ComplexDone (s : SchemaSet) (d : Declarations) (before : List ComplexId)
    (i : ComplexId) : Prop where
  filled : ∃ b own added, FilledIn s d i b own added
  ends : Ends (ComplexBase s) i
  after : ∀ j, ComplexBase s i j → j ∈ before

/-- An attribute that is no reference has its type. -/
def AttributeTyped (s : SchemaSet) (d : Declarations) (i : AttributeId) : Prop :=
  (s.declared.attr i).ref = none →
    ∃ t, s.attrType? (s.declared.attr i) = some t ∧ (d.attr i).type = some t

/-- The account that a run keeps is true. -/
structure Sound (s : SchemaSet) (p : Progress) : Prop where
  frame : Frame s p.declared
  simple : ∀ i ∈ p.simple, SimpleDone s p.declared i
  complex : ∀ i ∈ p.complex, ComplexDone s p.declared p.complex i
  contents : ∀ e ∈ p.contents, GroupContent s e.1 e.2
  headed : ∀ i ∈ p.headed, HeadsEnd s i

/-- What a run is done with stays done. -/
structure Later (s : SchemaSet) (p p' : Progress) : Prop where
  simple : p.simple ⊆ p'.simple
  complex : p.complex ⊆ p'.complex
  base : ∀ i, (p.declared.simpleType i).base = s.simpleBase? i →
    (p'.declared.simpleType i).base = s.simpleBase? i
  attrType : ∀ i, AttributeTyped s p.declared i → AttributeTyped s p'.declared i
  elementType : ∀ i, ElementType s i (p.declared.element i).type →
    ElementType s i (p'.declared.element i).type

/-- Nothing was filled in between: only the account of groups or heads has grown. -/
structure Untouched (p p' : Progress) : Prop where
  declared : p'.declared = p.declared
  simple : p'.simple = p.simple
  complex : p'.complex = p.complex

section Account

variable {s : SchemaSet} {p q r : Progress}

theorem Frame.start (h : s.Closed) : Frame s s.declared where
  closed := h.declared
  extent := rfl
  groups := rfl
  attributeGroups := rfl
  element _ := rfl
  attr _ := rfl
  simpleType _ := rfl
  base _ := .inl rfl
  complexType _ := rfl
  attrRef _ _ := rfl
  elementType _ := .inl rfl
  typed i hi := by
    refine ⟨(h.typed i hi).1, (h.typed i hi).2, fun hnone => ?_⟩
    rw [hnone] at hi
    cases hi
  given := h.given

theorem Frame.simpleTypes_size {d : Declarations} (h : Frame s d) :
    d.simpleTypes.size = s.declared.simpleTypes.size := congrArg Extent.simpleTypes h.extent

theorem Frame.complexTypes_size {d : Declarations} (h : Frame s d) :
    d.complexTypes.size = s.declared.complexTypes.size := congrArg Extent.complexTypes h.extent

theorem Frame.elements_size {d : Declarations} (h : Frame s d) :
    d.elements.size = s.declared.elements.size := congrArg Extent.elements h.extent

theorem Frame.attributes_size {d : Declarations} (h : Frame s d) :
    d.attributes.size = s.declared.attributes.size := congrArg Extent.attributes h.extent

theorem Frame.ref_eq {d : Declarations} (h : Frame s d) (i : ElementId) :
    (d.element i).ref = (s.declared.element i).ref := (congrArg Element.ref (h.element i) :)

theorem Frame.substitution_eq {d : Declarations} (h : Frame s d) (i : ElementId) :
    (d.element i).substitution = (s.declared.element i).substitution :=
  (congrArg Element.substitution (h.element i) :)

theorem Frame.attrRef_eq {d : Declarations} (h : Frame s d) (i : AttributeId) :
    (d.attr i).ref = (s.declared.attr i).ref := (congrArg Attribute.ref (h.attr i) :)

theorem Sound.start (h : s.Closed) : Sound s { declared := s.declared } where
  frame := .start h
  simple := nofun
  complex := nofun
  contents := nofun
  headed := nofun

theorem Later.refl (p : Progress) : Later s p p :=
  ⟨fun _ h => h, fun _ h => h, fun _ h => h, fun _ h => h, fun _ h => h⟩

theorem Later.trans (h : Later s p q) (h' : Later s q r) : Later s p r :=
  ⟨fun _ hi => h'.simple (h.simple hi), fun _ hi => h'.complex (h.complex hi),
    fun i hi => h'.base i (h.base i hi), fun i hi => h'.attrType i (h.attrType i hi),
    fun i hi => h'.elementType i (h.elementType i hi)⟩

theorem Untouched.refl (p : Progress) : Untouched p p := ⟨rfl, rfl, rfl⟩

theorem Untouched.trans (h : Untouched p q) (h' : Untouched q r) : Untouched p r :=
  ⟨h'.declared.trans h.declared, h'.simple.trans h.simple, h'.complex.trans h.complex⟩

end Account

/-! ## Changing one declaration -/

theorem getD_modify {α : Type} (a : Array α) (f : α → α) (fill : α) (i j : Nat) :
    (a.modify i f).getD j fill =
      if j = i ∧ i < a.size then f (a.getD i fill) else a.getD j fill := by
  simp only [Array.getD_eq_getD_getElem?, Array.getElem?_modify]
  by_cases hij : j = i
  · subst hij
    by_cases hlt : j < a.size
    · simp [hlt]
    · simp [hlt]
  · simp [hij, Ne.symm hij]

theorem FilledIn.congr {s : SchemaSet} {d d' : Declarations} {i : ComplexId} {b : TypeRef}
    {own : Option Node} {added : List AttributeId} (h : FilledIn s d i b own added)
    (hi : d'.complexType i = d.complexType i)
    (hb : Linking.inherited d' b = Linking.inherited d b) : FilledIn s d' i b own added where
  named := h.named
  base := by rw [hi, h.base]
  written := h.written
  content := by rw [hi, hb, h.content]
  declared := h.declared
  uses := by rw [hi, hb, h.uses]

theorem SimpleDone.congr {s : SchemaSet} {d d' : Declarations} {i : SimpleId}
    (h : SimpleDone s d i) (hi : (d'.simpleType i).base = (d.simpleType i).base) :
    SimpleDone s d' i := { h with base := hi.trans h.base }

/-- What a type is filled in with stays as long as the types that are done with stay. -/
theorem ComplexDone.congr {s : SchemaSet} {d d' : Declarations} {before : List ComplexId}
    {i : ComplexId} (h : ComplexDone s d before i) (hi : i ∈ before)
    (hsame : ∀ j ∈ before, d'.complexType j = d.complexType j) : ComplexDone s d' before i where
  filled := by
    obtain ⟨b, own, added, hf⟩ := h.filled
    refine ⟨b, own, added, hf.congr (hsame i hi) ?_⟩
    match b, hf with
    | .simple _, _ => rfl
    | .complex .anyType, _ => rfl
    | .complex (.declared j), hf => exact congrArg some (hsame j (h.after j hf.named))
  ends := h.ends
  after := h.after

/-! ## Steps of linking -/

def Links {α : Type} (s : SchemaSet) (p : Progress) (m : Link α)
    (good : Progress → α → Prop) : Prop :=
  Sound s p → Ensures m p (fun a p' => Sound s p' ∧ Later s p p' ∧ good p' a)
    fun f p' => Due s f ∧ Sound s p'

namespace Links

variable {s : SchemaSet} {p : Progress} {α β : Type} {m : Link α} {f : α → Link β}
  {good good' : Progress → α → Prop} {ok : Progress → β → Prop}

theorem pure {a : α} (h : good p a) : Links s p (Pure.pure a) good :=
  fun hp => ensures_pure.2 ⟨hp, .refl p, h⟩

theorem fail {e : Failure} (h : Due s e) : Links s p (throw e : Link α) good :=
  fun hp => ensures_throw.2 ⟨h, hp⟩

theorem bind (h : Links s p m good)
    (hf : ∀ a p', Later s p p' → good p' a → Links s p' (f a) ok) : Links s p (m >>= f) ok := by
  intro hp
  refine Ensures.bind (h hp) fun a p' hp' => ?_
  obtain ⟨hsound, hlater, hgood⟩ := hp'
  exact (hf a p' hlater hgood hsound).mono (fun b q hq => ⟨hq.1, hlater.trans hq.2.1, hq.2.2⟩)
    fun _ _ hq => hq

theorem mono (h : Links s p m good) (hg : ∀ a p', Later s p p' → good p' a → good' p' a) :
    Links s p m good' :=
  fun hp => (h hp).mono (fun a p' hp' => ⟨hp'.1, hp'.2.1, hg a p' hp'.2.1 hp'.2.2⟩)
    fun _ _ hp' => hp'

/-- The account that a step leaves behind is true as well. -/
theorem andSound (h : Links s p m good) : Links s p m fun p' a => Sound s p' ∧ good p' a :=
  fun hp => (h hp).mono (fun _ _ hp' => ⟨hp'.1, hp'.2.1, hp'.1, hp'.2.2⟩) fun _ _ hp' => hp'

/-- What is true of a sound account may be used in a step from it. -/
theorem sound (h : Sound s p → Links s p m good) : Links s p m good := fun hp => h hp hp

theorem modify {f : Progress → Progress} {good : Progress → PUnit → Prop}
    (hs : Sound s p → Sound s (f p)) (hl : Later s p (f p)) (hg : good (f p) ⟨⟩) :
    Links s p (modify f : Link PUnit) good :=
  fun hp => ensures_modify.2 ⟨hs hp, hl, hg⟩

theorem get {f : Progress → Link β} (h : Links s p (f p) ok) : Links s p (MonadState.get >>= f) ok :=
  fun hp => ensures_bind.2 (ensures_get.2 (h hp))

theorem declared {f : Declarations → Link β} (h : Links s p (f p.declared) ok) :
    Links s p (Linking.declared >>= f) ok :=
  fun hp => ensures_bind.2 (h hp)

/-- A result that is worked out without the account. -/
theorem lift {r : Except Failure α} (hok : ∀ a, r = .ok a → Links s p (f a) ok)
    (hbad : ∀ e, r = .error e → Due s e) : Links s p (Linking.lift r >>= f) ok := by
  intro hp
  refine ensures_bind.2 ?_
  cases r with
  | ok a => exact hok a rfl hp
  | error e => exact ensures_throw.2 ⟨hbad e rfl, hp⟩

/-- Each of a list is worked through, and what that leaves behind stays. -/
theorem forM {l : List α} {f : α → Link PUnit} {good : Progress → α → Prop}
    (hkeep : ∀ a p p', Later s p p' → good p a → good p' a)
    (step : ∀ a ∈ l, ∀ p, Links s p (f a) fun p' _ => good p' a) :
    Links s p (l.forM f) fun p' _ => ∀ a ∈ l, good p' a := by
  intro hp
  refine ensures_forM (fun done p' => Sound s p' ∧ Later s p p' ∧ ∀ a ∈ done, good p' a)
    ⟨hp, .refl p, nofun⟩ ?_
  intro before a after q hl hq
  obtain ⟨hsound, hlater, hdone⟩ := hq
  have ha : a ∈ l := hl ▸ List.mem_append_right _ List.mem_cons_self
  refine (step a ha q hsound).mono (fun _ q' hq' => ?_) fun _ _ hq' => hq'
  refine ⟨hq'.1, hlater.trans hq'.2.1, fun b hb => ?_⟩
  rcases List.mem_append.1 hb with hb | hb
  · exact hkeep b q q' hq'.2.1 (hdone b hb)
  · exact List.mem_singleton.1 hb ▸ hq'.2.2

end Links

/-! ## Looking names up -/

theorem eq_some_of_found {α : Type} {what : Symbol} {q : QName} {o : Option α} {a : α}
    (h : SchemaSet.found what q o = .ok a) : o = some a := by
  cases o with
  | none => cases h
  | some b =>
    cases h
    rfl

section Lookups

variable {s : SchemaSet} {p : Progress} {β : Type} {q : QName} {ok : Progress → β → Prop}

theorem links_found {α : Type} {what : Symbol} {o : Option α} {f : α → Link β}
    (missing : o = none → Due s (.unresolved what q)) (h : ∀ a, o = some a → Links s p (f a) ok) :
    Links s p (Linking.lift (SchemaSet.found what q o) >>= f) ok := by
  refine .lift (fun a ha => h a (eq_some_of_found ha)) fun e he => ?_
  cases o with
  | none =>
    cases he
    exact missing rfl
  | some b => cases he

theorem links_elementNamed {f : ElementId → Link β}
    (missing : s.element? q = none → Due s (.unresolved .element q))
    (h : ∀ i, s.element? q = some i → Links s p (f i) ok) :
    Links s p (Linking.lift (s.element q) >>= f) ok :=
  links_found missing h

theorem links_typeNamed {f : TypeRef → Link β} (sought : Sought s.withoutElements .type q)
    (h : ∀ r, s.type? q = some r → Links s p (f r) ok) :
    Links s p (Linking.lift (s.type q) >>= f) ok :=
  links_found (fun hn => .unresolved sought (by simp [SchemaSet.Has, hn])) h

theorem links_groupNamed {f : GroupId → Link β} (sought : Sought s.withoutElements .group q)
    (h : ∀ g, s.group? q = some g → Links s p (f g) ok) :
    Links s p (Linking.lift (s.group q) >>= f) ok :=
  links_found (fun hn => .unresolved sought (by simp [SchemaSet.Has, hn])) h

theorem links_attrNamed {f : AttributeId → Link β} (sought : Sought s.withoutElements .attr q)
    (h : ∀ i, s.attr? q = some i → Links s p (f i) ok) :
    Links s p (Linking.lift (s.attr q) >>= f) ok :=
  links_found (fun hn => .unresolved sought (by simp [SchemaSet.Has, hn])) h

end Lookups

/-- What is met again while it is worked on leads back to itself. -/
theorem links_refuseAgain {s : SchemaSet} {p : Progress} {met : List Nat} {i : Nat}
    {problem : LoadProblem} (h : i ∈ met → Circular s.withoutElements) :
    Links s p (Linking.refuseAgain met i problem) fun p' _ => p' = p ∧ i ∉ met := by
  unfold Linking.refuseAgain
  split
  · rename_i hi
    exact .fail (.apart (.circular (h (List.contains_iff_mem.1 hi))))
  · rename_i hi
    exact .pure ⟨rfl, fun hmem => hi (List.contains_iff_mem.2 hmem)⟩

end Schema
end SchemaPaths
