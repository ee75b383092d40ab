/-
Declarations are registered as they are read.

A reading enters what it reads and returns what holds it, so between two steps there are some
declarations that nothing holds yet.  `Registers single held m post` says of a reading `m` that it
takes up those in `held` and leaves others in their stead, which `post` tells from its result; the
rest it leaves alone.  An element keeps only the last of the types that are written in it, and a
simple type the last of those in its restrictions.  The others are registered but superseded:
nothing holds them.  If a reading is `single`, which a document is where `allOneEach` holds of it,
there are none of these.
-/
import SchemaPaths.Proofs.Ensures
import SchemaPaths.Proofs.Schema.Entries
import SchemaPaths.Proofs.Schema.Ignoring

namespace SchemaPaths
namespace Schema

open Markup (Name Tree)

/-! ## Types in place of others -/

namespace Declaring

def isInline : Tree → Bool
  | .text _ => false
  | .element n _ _ =>
    Construct.ofName? n == some .complexType || Construct.ofName? n == some .simpleType

def isRestriction : Tree → Bool
  | .text _ => false
  | .element n _ _ => Construct.ofName? n == some .restriction

mutual

/-- No element in the tree has two types written in it, and no simple type two restrictions. -/
def oneEach : Tree → Bool
  | .text _ => true
  | .element n _ content =>
    (Construct.ofName? n != some .element || content.countP isInline ≤ 1) &&
      (Construct.ofName? n != some .simpleType || content.countP isRestriction ≤ 1) &&
      allOneEach content

def allOneEach : List Tree → Bool
  | [] => true
  | t :: ts => oneEach t && allOneEach ts

end

section OneEach

variable {n : Name} {as : Attributes} {content : List Tree}

theorem oneEach_content (h : oneEach (.element n as content)) : allOneEach content := by
  rw [oneEach, Bool.and_eq_true] at h
  exact h.2

theorem oneEach_inline (h : oneEach (.element n as content))
    (hn : Construct.ofName? n = some .element) : content.countP isInline ≤ 1 := by
  simp only [oneEach, Bool.and_eq_true, Bool.or_eq_true, decide_eq_true_eq] at h
  exact h.1.1.resolve_left (by simp [hn])

theorem oneEach_restriction (h : oneEach (.element n as content))
    (hn : Construct.ofName? n = some .simpleType) : content.countP isRestriction ≤ 1 := by
  simp only [oneEach, Bool.and_eq_true, Bool.or_eq_true, decide_eq_true_eq] at h
  exact h.1.2.resolve_left (by simp [hn])

theorem allOneEach_cons {t : Tree} {ts : List Tree} (h : allOneEach (t :: ts)) :
    oneEach t ∧ allOneEach ts := by
  rwa [allOneEach, Bool.and_eq_true] at h

end OneEach

end Declaring

/-- Types that others have been written in place of. -/
structure Superseded (single : Prop) (l : List Entry) : Prop where
  types : ∀ a ∈ l, a.IsType
  nil : single → l = []

theorem Superseded.empty (single : Prop) : Superseded single [] := ⟨nofun, fun _ => rfl⟩

theorem Superseded.append {single : Prop} {l l' : List Entry} (h : Superseded single l)
    (h' : Superseded single l') : Superseded single (l ++ l') where
  types a ha := (List.mem_append.1 ha).elim (h.types a) (h'.types a)
  nil hs := by rw [h.nil hs, h'.nil hs, List.append_nil]

theorem SimpleRef.isType_of_entry? {r : SimpleRef} {a : Entry} (h : r.entry? = some a) :
    a.IsType := by
  cases r with
  | builtin b => cases h
  | declared i =>
    cases h
    exact .inl rfl

theorem TypeRef.isType_of_entry? {r : TypeRef} {a : Entry} (h : r.entry? = some a) :
    a.IsType := by
  match r, h with
  | .simple r, h => exact SimpleRef.isType_of_entry? h
  | .complex (.declared i), h =>
    cases h
    exact .inr rfl

theorem superseded_inline {single : Prop} {r : Option TypeRef} (h : single → r = none) :
    Superseded single (inlineEntries r) where
  types a ha := by
    obtain ⟨t, -, ht⟩ := List.mem_filterMap.1 ha
    exact TypeRef.isType_of_entry? ht
  nil hs := by
    rw [h hs]
    rfl

theorem SimpleType.parts_eq_nil {t : SimpleType} (h : t.base = none) : t.parts = [] := by
  rw [SimpleType.parts, h]
  rfl

theorem superseded_base {single : Prop} {t : SimpleType} (h : single → t.base = none) :
    Superseded single t.parts where
  types a ha := by
    obtain ⟨r, -, hr⟩ := List.mem_filterMap.1 ha
    exact SimpleRef.isType_of_entry? hr
  nil hs := SimpleType.parts_eq_nil (h hs)

/-! ## Readings -/

/-- A reading that enters nothing. -/
def Quiet {α : Type} (m : Declare α) : Prop :=
  ∀ d, Ensures m d (fun _ e => e = d) fun _ _ => True

/-- Started where `held` is free, a reading that succeeds leaves free in its stead what `post` says
of the result, and what was superseded on the way. -/
def Registers (single : Prop) (held : List Entry) {α : Type} (m : Declare α)
    (post : α → List Entry → Prop) : Prop :=
  ∀ (x d : Declarations) (log free : List Entry), Forest x d log (held ++ free) →
    Ensures m d (fun r e => ∃ log' made lost, post r made ∧ Superseded single lost ∧
      Forest x e log' (made ++ (lost ++ free))) fun _ _ => True

namespace Quiet

variable {α β : Type} {m : Declare α} {f : α → Declare β}

theorem pure (a : α) : Quiet (Pure.pure a : Declare α) := fun _ => ensures_pure.2 rfl

theorem fail {e : Failure} : Quiet (throw e : Declare α) := fun _ => ensures_throw.2 trivial

theorem bind (h : Quiet m) (hf : ∀ a, Quiet (f a)) : Quiet (m >>= f) := fun d =>
  (h d).bind fun a e he => he ▸ hf a e

end Quiet

namespace Registers

variable {single : Prop} {α β : Type} {held : List Entry} {m : Declare α} {f : α → Declare β}
  {post : α → List Entry → Prop} {post' : β → List Entry → Prop}

theorem perm {held' : List Entry} (hp : held.Perm held') (h : Registers single held' m post) :
    Registers single held m post :=
  fun _ _ _ _ hforest => h _ _ _ _ (hforest.perm (hp.append_right _))

theorem pure {a : α} {made : List Entry} (hp : held.Perm made) (h : post a made) :
    Registers single held (Pure.pure a) post :=
  fun _ _ _ _ hforest => ensures_pure.2
    ⟨_, made, [], h, .empty _, hforest.perm (hp.append_right _)⟩

theorem fail {e : Failure} : Registers single held (throw e : Declare α) post :=
  fun _ _ _ _ _ => ensures_throw.2 trivial

/-- The rest of the free declarations is left alone. -/
theorem frame (h : Registers single [] m post) (held : List Entry) :
    Registers single held m fun a made => ∃ own, post a own ∧ made = own ++ held := by
  intro x d log free hforest
  refine (h x d log (held ++ free) hforest).mono
    (fun a e ⟨log', own, lost, hpost, hlost, hnow⟩ => ?_) fun _ _ h => h
  refine ⟨log', own ++ held, lost, ⟨own, hpost, rfl⟩, hlost, hnow.perm ?_⟩
  rw [List.append_assoc]
  exact (List.perm_append_comm_assoc lost held free).append_left own

theorem followed (h : Registers single held m post)
    (hf : ∀ a made, post a made → Registers single made (f a) post') :
    Registers single held (m >>= f) post' := by
  intro x d log free hforest
  refine (h x d log free hforest).bind fun a e ⟨log', made, lost, hpost, hlost, hnow⟩ => ?_
  refine (hf a made hpost _ _ _ _ hnow).mono
    (fun b e' ⟨log'', made', lost', hpost', hlost', hthen⟩ => ?_) fun _ _ h => h
  refine ⟨log'', made', lost' ++ lost, hpost', hlost'.append hlost, ?_⟩
  rwa [List.append_assoc]

/-- What is made of nothing comes to what is held. -/
theorem bind (h : Registers single [] m post)
    (hf : ∀ a made, post a made → Registers single (made ++ held) (f a) post') :
    Registers single held (m >>= f) post' := by
  refine (h.frame held).followed ?_
  rintro a _ ⟨own, hown, rfl⟩
  exact hf a own hown

/-- A reading that may come to nothing is followed by one of two others. -/
theorem optional {m : Declare (Option α)} {f : Option α → Declare β}
    {held : Option α → List Entry} (h : Registers single [] m fun r made => made = held r)
    (hnil : held none = []) (hnone : Registers single [] (f none) post')
    (hsome : ∀ a, Registers single (held (some a)) (f (some a)) post') :
    Registers single [] (m >>= f) post' := by
  refine h.followed fun r made hr => ?_
  rw [hr]
  cases r with
  | none => exact hnil ▸ hnone
  | some a => exact hsome a

theorem mono {post₂ : α → List Entry → Prop} (h : Registers single held m post)
    (hpost : ∀ a made, post a made → post₂ a made) : Registers single held m post₂ :=
  fun _ _ _ _ hforest => (h _ _ _ _ hforest).mono
    (fun a _ ⟨log, made, lost, hmade, hlost⟩ => ⟨log, made, lost, hpost a made hmade, hlost⟩)
    fun _ _ h => h

theorem map {f : α → β} (h : Registers single held m fun a => post' (f a)) :
    Registers single held (f <$> m) post' :=
  fun _ _ _ _ hforest => ensures_map.2 (h _ _ _ _ hforest)

/-- What enters nothing may come first. -/
theorem after (hm : Quiet m) (hf : ∀ a, Registers single held (f a) post') :
    Registers single held (m >>= f) post' :=
  fun _ _ _ _ hforest => ensures_bind.2
    ((hm _).mono (fun a _ he => he ▸ hf a _ _ _ _ hforest) fun _ _ h => h)

/-- What is superseded is held by nothing from then on. -/
theorem supersede {lost : List Entry} (hlost : Superseded single lost)
    (h : Registers single held m post) : Registers single (lost ++ held) m post := by
  intro x d log free hforest
  have hbehind : (lost ++ held ++ free).Perm (held ++ (lost ++ free)) := by
    rw [List.append_assoc]
    exact List.perm_append_comm_assoc lost held free
  refine (h _ _ _ _ (hforest.perm hbehind)).mono
    (fun a e ⟨log', made, lost', hpost, hlost', hnow⟩ => ?_) fun _ _ h => h
  refine ⟨log', made, lost' ++ lost, hpost, hlost'.append hlost, ?_⟩
  rwa [List.append_assoc]

theorem enter {k : Family} {c : Declarations → Nat × Declarations} {held' : List Entry}
    (hp : held.Perm held')
    (h : ∀ d, Declarations.Adds d (c d).2 ⟨k, (c d).1⟩ held') :
    Registers single held (modifyGet c : Declare Nat) fun i made => made = [⟨k, i⟩] :=
  fun _ d _ _ hforest => ensures_modifyGet.2
    ⟨_, _, [], rfl, .empty _, (hforest.perm (hp.append_right _)).enter (h d)⟩

end Registers

namespace Declaring

variable {single : Prop} {s : Setting}

/-! ## Values -/

theorem quiet_qname (v : Option String) : Quiet (qname s v) := by
  unfold qname refuse
  split
  · exact .pure _
  · split
    · exact .pure _
    · dsimp only
      split
      · split
        · exact .pure _
        · exact .fail
      · exact .pure _

theorem quiet_integer (v : String) : Quiet (integer v) := by
  unfold integer
  split
  · exact .pure _
  · exact .fail

theorem quiet_occurs (as : Attributes) : Quiet (occurs as) := by
  unfold occurs
  refine (quiet_integer _).bind fun _ => ?_
  dsimp only
  split
  · exact .pure _
  · exact (quiet_integer _).bind fun _ => .pure _

theorem quiet_elementOccurs (isGlobal : Bool) (as : Attributes) :
    Quiet (elementOccurs isGlobal as) := by
  unfold elementOccurs
  split
  · exact .pure _
  · exact quiet_occurs as

theorem registers_enterParticle :
    Registers single [] enterParticle fun i made => made = [⟨.particle, i⟩] :=
  .enter (.refl _) Declarations.adds_addParticle

theorem registers_wildcard (as : Attributes) :
    Registers single [] (wildcard as) fun n made => made = n.entries :=
  .after (quiet_occurs as) fun _ =>
    registers_enterParticle.followed fun _ _ hi => .pure (.refl _) hi

/-- A reference to a group holds nothing. -/
theorem registers_groupRef (as : Attributes) :
    Registers single [] (groupRef? s as) fun r made => made = particleEntries r := by
  unfold groupRef?
  split
  · exact .pure (.refl _) rfl
  · refine .after (quiet_occurs as) fun o => .after (quiet_qname _) fun q => ?_
    cases q <;> exact .pure (.refl _) rfl

/-! ## Simple types and attributes -/

theorem registers_simpleTypeOf {name : Option String} {content : List Tree}
    {parts : SimpleType → Declare SimpleType}
    (h : ∀ t, t.base = none → Registers single [] (parts t) fun u made => made = u.parts) :
    Registers single [] (simpleTypeOf s name content parts) fun i made =>
      made = [⟨.simple, i⟩] := by
  refine (h _ rfl).followed fun t made hmade => ?_
  exact .enter (.of_eq hmade) fun d => Declarations.adds_addSimpleType d t

mutual

theorem registers_simplePart : ∀ (part : Tree) {t : SimpleType}, (single → oneEach part) →
    (single → t.base.toList.length + [part].countP isRestriction ≤ 1) →
    Registers single t.parts (simplePart s part t) fun u made =>
      made = u.parts ∧ u.base.toList.length ≤ t.base.toList.length + [part].countP isRestriction
  | .text _, t, _, _ => by
    rw [simplePart]
    exact .pure (.refl _) ⟨rfl, Nat.le_add_right _ _⟩
  | .element n as content, t, hpart, hroom => by
    rw [simplePart]
    split
    · rename_i hn
      have hone : [Tree.element n as content].countP isRestriction = 1 := by
        simp [isRestriction, hn]
      rw [hone] at hroom ⊢
      refine .after (quiet_qname _) fun baseName => ?_
      refine (registers_firstSimple content fun h => oneEach_content (hpart h)).bind
        fun found made hmade => ?_
      cases found with
      | none =>
        obtain rfl := hmade
        exact .pure (.refl _) ⟨rfl, Nat.le_add_right _ _⟩
      | some i =>
        obtain rfl := hmade
        refine .perm List.perm_append_comm (.supersede (superseded_base fun h => ?_) ?_)
        · exact Option.toList_eq_nil_iff.1 (List.length_eq_zero_iff.1 (by have := hroom h; omega))
        · exact .pure (.refl _) ⟨rfl, Nat.le_add_left _ _⟩
    · exact .after (quiet_qname _) fun itemName => .pure (.refl _) ⟨rfl, Nat.le_add_right _ _⟩
    · exact .pure (.refl _) ⟨rfl, Nat.le_add_right _ _⟩
    · exact .pure (.refl _) ⟨rfl, Nat.le_add_right _ _⟩

theorem registers_simpleParts : ∀ (parts : List Tree) {t : SimpleType},
    (single → allOneEach parts) →
    (single → t.base.toList.length + parts.countP isRestriction ≤ 1) →
    Registers single t.parts (simpleParts s parts t) fun u made => made = u.parts
  | [], t, _, _ => by
    rw [simpleParts]
    exact .pure (.refl _) rfl
  | part :: parts, t, hparts, hroom => by
    have hcount : (part :: parts).countP isRestriction =
        [part].countP isRestriction + parts.countP isRestriction := by
      rw [← List.countP_append, List.singleton_append]
    rw [simpleParts]
    rw [hcount] at hroom
    have hpart := fun h => (allOneEach_cons (hparts h)).1
    refine (registers_simplePart part hpart fun h => ?_).followed fun u made ⟨hmade, hlength⟩ => ?_
    · exact Nat.le_trans (Nat.add_le_add_left (Nat.le_add_right _ _) _) (hroom h)
    · rw [hmade]
      refine registers_simpleParts parts (fun h => (allOneEach_cons (hparts h)).2) fun h => ?_
      have hle := hroom h
      omega

theorem registers_simple? : ∀ t : Tree, (single → oneEach t) →
    Registers single [] (simple? s t) fun r made => made = r.toList.map (Entry.mk .simple)
  | .text _, _ => by
    rw [simple?]
    exact .pure (.refl _) rfl
  | .element n _ content, ht => by
    rw [simple?]
    split
    · rename_i hn
      refine .map (registers_simpleTypeOf fun t hbase => ?_)
      rw [← SimpleType.parts_eq_nil hbase]
      refine registers_simpleParts content (fun h => oneEach_content (ht h)) fun h => ?_
      rw [hbase]
      simpa using oneEach_restriction (ht h) (by simpa using hn)
    · exact .pure (.refl _) rfl

theorem registers_firstSimple : ∀ ts : List Tree, (single → allOneEach ts) →
    Registers single [] (firstSimple s ts) fun r made => made = r.toList.map (Entry.mk .simple)
  | [], _ => by
    rw [firstSimple]
    exact .pure (.refl _) rfl
  | t :: ts, hts => by
    have hrest := registers_firstSimple ts fun h => (allOneEach_cons (hts h)).2
    rw [firstSimple]
    exact .optional (registers_simple? t fun h => (allOneEach_cons (hts h)).1) rfl hrest
      fun i => .pure (.refl _) rfl

end

theorem registers_simpleType (name : Option String) {content : List Tree}
    (hcontent : single → allOneEach content) (hroom : single → content.countP isRestriction ≤ 1) :
    Registers single [] (simpleType s name content) fun i made => made = [⟨.simple, i⟩] := by
  refine registers_simpleTypeOf fun t hbase => ?_
  rw [← SimpleType.parts_eq_nil hbase]
  refine registers_simpleParts content hcontent fun h => ?_
  rw [hbase]
  simpa using hroom h

theorem registers_attr (isGlobal : Bool) (as : Attributes) {content : List Tree}
    (hcontent : single → allOneEach content) :
    Registers single [] (attr s isGlobal as content) fun i made => made = [⟨.attr, i⟩] := by
  refine (registers_firstSimple content hcontent).bind fun inline made hmade => ?_
  refine .after (quiet_qname _) fun ref => .after (quiet_qname _) fun typeName => ?_
  exact .enter (.of_eq ((List.append_nil _).trans hmade)) fun d =>
    Declarations.adds_addAttribute d _

theorem registers_attributeUses : ∀ content : List Tree, (single → allOneEach content) →
    Registers single [] (attributeUses s content) fun r made => made = r.1.map (Entry.mk .attr)
  | [], _ => .pure (.refl _) rfl
  | .text _ :: ts, h => registers_attributeUses ts fun hs => (allOneEach_cons (h hs)).2
  | .element n as content :: ts, h => by
    have hfirst := fun hs => oneEach_content (allOneEach_cons (h hs)).1
    have hrest := registers_attributeUses ts fun hs => (allOneEach_cons (h hs)).2
    rw [attributeUses]
    split
    · refine (registers_attr false as hfirst).bind fun a made ha => ?_
      refine hrest.bind fun r made' hr => .pure ?_ rfl
      rw [ha, hr]
      exact List.perm_append_comm
    · refine .after (quiet_qname _) fun q => hrest.bind fun r made hr => .pure ?_ rfl
      exact .of_eq ((List.append_nil _).trans hr)
    · exact hrest

/-! ## Elements, complex types and their content -/

theorem registers_elementOf (isGlobal : Bool) (as : Attributes) (content : List Tree)
    {inline : Declare (Option TypeRef)}
    (h : Registers single [] inline fun r made => made = inlineEntries r) :
    Registers single [] (elementOf s isGlobal as content inline) fun i made =>
      made = [⟨.element, i⟩] := by
  refine .after (quiet_elementOccurs isGlobal as) fun o => h.followed fun r made hr => ?_
  refine .after (quiet_qname _) fun ref => .after (quiet_qname _) fun typeName =>
    .after (quiet_qname _) fun sub => ?_
  exact .enter (.of_eq hr) fun d => Declarations.adds_addElement d _

theorem registers_complexTypeOf (name : Option String) (as : Attributes) {content : List Tree}
    (hcontent : single → allOneEach content) {model : Declare (Option Derived)}
    {particle : Declare (Option Node)}
    (hm : Registers single [] model fun r made => made = r.toList.flatMap Derived.parts)
    (hp : Registers single [] particle fun r made => made = particleEntries r) :
    Registers single [] (complexTypeOf s name as content model particle) fun i made =>
      made = [⟨.complex, i⟩] := by
  refine .optional hm rfl ?_ fun m => ?_
  · refine hp.followed fun p made hmade => ?_
    refine (registers_attributeUses content hcontent).bind fun u made' hu => ?_
    refine .enter ?_ fun d => Declarations.adds_addComplexType d _
    rw [hmade, hu]
    exact List.perm_append_comm
  · refine .enter (.of_eq ?_) fun d => Declarations.adds_addComplexType d _
    simp [ComplexType.parts, particleEntries]

theorem registers_derivedOf (simple mixed : Bool) (derivation : Derivation) (as : Attributes)
    {content : List Tree} (hcontent : single → allOneEach content)
    {particle : Declare (Option Node)}
    (hp : Registers single [] particle fun r made => made = particleEntries r) :
    Registers single [] (derivedOf s simple mixed derivation as content particle) fun m made =>
      made = m.parts := by
  refine (registers_attributeUses content hcontent).followed fun u made hu => ?_
  refine .after (quiet_qname _) fun base => hp.bind fun p made' hmade => .pure ?_ rfl
  rw [hu, hmade]
  exact List.perm_append_comm

/-- A sequence or a choice holds what its items do. -/
theorem registers_compositorOf {as : Attributes} {items : Declare (List Node)}
    {make : Identity → Occurs → List Node → Node} (hmake : Node.Composes make)
    (h : Registers single [] items fun ns made => made = ns.flatMap Node.entries) :
    Registers single [] (compositorOf make as items) fun r made => made = particleEntries r := by
  refine .after (quiet_occurs as) fun o => h.followed fun ns made hns => ?_
  refine registers_enterParticle.bind fun i made' hi => .pure ?_ rfl
  rw [hns, hi, particleEntries, Option.toList_some, List.flatMap_singleton]
  exact (hmake.perm_entries i o ns).symm

mutual

theorem registers_inline? : ∀ t : Tree, (single → oneEach t) →
    Registers single [] (inline? s t) fun r made =>
      made = inlineEntries r ∧ r.isSome = isInline t
  | .text _, _ => by
    rw [inline?]
    exact .pure (.refl _) ⟨rfl, rfl⟩
  | .element n as content, ht => by
    have hcontent := fun h => oneEach_content (ht h)
    rw [inline?]
    split
    · rename_i hn
      refine (registers_complexTypeOf none as hcontent (registers_model none content hcontent)
        (registers_particle content hcontent)).followed fun i made hi => .pure (.refl _) ⟨hi, ?_⟩
      simp [isInline, hn]
    · rename_i hn
      refine (registers_simpleType none hcontent fun h => oneEach_restriction (ht h) hn).followed
        fun i made hi => .pure (.refl _) ⟨hi, ?_⟩
      simp [isInline, hn]
    · rename_i hcomplex hsimple
      refine .pure (.refl _) ⟨rfl, ?_⟩
      rw [isInline, beq_false_of_ne hcomplex, beq_false_of_ne hsimple]
      rfl

theorem registers_lastInline : ∀ (ts : List Tree) (last : Option TypeRef),
    (single → allOneEach ts) → (single → last.toList.length + ts.countP isInline ≤ 1) →
    Registers single (inlineEntries last) (lastInline s ts last) fun r made =>
      made = inlineEntries r
  | [], last, _, _ => by
    rw [lastInline]
    exact .pure (.refl _) rfl
  | t :: ts, last, hts, hroom => by
    rw [lastInline]
    refine (registers_inline? t fun h => (allOneEach_cons (hts h)).1).bind
      fun r made ⟨hmade, hr⟩ => ?_
    obtain rfl := hmade
    have hrest := fun h => (allOneEach_cons (hts h)).2
    rw [List.countP_cons, ← hr] at hroom
    cases r with
    | none => exact registers_lastInline ts last hrest hroom
    | some u =>
      have honly : single → last.toList.length = 0 ∧ ts.countP isInline = 0 := fun h => by
        have hle := hroom h
        rw [Option.isSome_some, if_pos rfl] at hle
        omega
      refine .perm List.perm_append_comm (.supersede (superseded_inline fun h => ?_) ?_)
      · exact Option.toList_eq_nil_iff.1 (List.length_eq_zero_iff.1 (honly h).1)
      · refine registers_lastInline ts (some u) hrest fun h => ?_
        rw [(honly h).2]
        exact Nat.le_refl 1

theorem registers_particle? : ∀ t : Tree, (single → oneEach t) →
    Registers single [] (particle? s t) fun r made => made = particleEntries r
  | .text _, _ => by
    rw [particle?]
    exact .pure (.refl _) rfl
  | .element n as content, ht => by
    have hitems := registers_items content fun h => oneEach_content (ht h)
    rw [particle?]
    split
    · exact registers_compositorOf (Node.composes_sequence _) hitems
    · exact registers_compositorOf (Node.composes_sequence _) hitems
    · exact registers_compositorOf Node.composes_choice hitems
    · exact registers_groupRef as
    · exact .pure (.refl _) rfl

theorem registers_particle : ∀ ts : List Tree, (single → allOneEach ts) →
    Registers single [] (particle s ts) fun r made => made = particleEntries r
  | [], _ => by
    rw [particle]
    exact .pure (.refl _) rfl
  | t :: ts, hts => by
    have hrest := registers_particle ts fun h => (allOneEach_cons (hts h)).2
    rw [particle]
    exact .optional (registers_particle? t fun h => (allOneEach_cons (hts h)).1) rfl hrest
      fun p => .pure (.refl _) rfl

theorem registers_item? : ∀ t : Tree, (single → oneEach t) →
    Registers single [] (item? s t) fun r made => made = particleEntries r
  | .text _, _ => by
    rw [item?]
    exact .pure (.refl _) rfl
  | .element n as content, ht => by
    have hcontent := fun h => oneEach_content (ht h)
    have hitems := registers_items content hcontent
    rw [item?]
    split
    · rename_i hn
      refine (registers_elementOf false as content (registers_lastInline content none hcontent
        fun h => ?_)).followed fun i made hi => .pure (.refl _) hi
      simpa using oneEach_inline (ht h) hn
    · exact registers_compositorOf (Node.composes_sequence _) hitems
    · exact registers_compositorOf Node.composes_choice hitems
    · exact registers_groupRef as
    · refine (registers_wildcard as).followed fun n made hn => .pure (.refl _) ?_
      rw [hn, particleEntries, Option.toList_some, List.flatMap_singleton]
    · exact .pure (.refl _) rfl

theorem registers_items : ∀ ts : List Tree, (single → allOneEach ts) →
    Registers single [] (items s ts) fun ns made => made = ns.flatMap Node.entries
  | [], _ => by
    rw [items]
    exact .pure (.refl _) rfl
  | t :: ts, hts => by
    rw [items]
    refine (registers_item? t fun h => (allOneEach_cons (hts h)).1).followed fun r made hr => ?_
    refine (registers_items ts fun h => (allOneEach_cons (hts h)).2).bind fun ns made' hns =>
      .pure ?_ rfl
    rw [hr, hns, List.flatMap_append]
    exact List.perm_append_comm

theorem registers_derived? (simple mixed : Bool) : ∀ t : Tree, (single → oneEach t) →
    Registers single [] (derived? s simple mixed t) fun r made =>
      made = r.toList.flatMap Derived.parts
  | .text _, _ => by
    rw [derived?]
    exact .pure (.refl _) rfl
  | .element n as content, ht => by
    have hcontent := fun h => oneEach_content (ht h)
    rw [derived?]
    split
    · refine .map ((registers_derivedOf simple mixed _ as hcontent
        (registers_particle content hcontent)).mono fun m made hm => ?_)
      rw [hm, Option.toList_some, List.flatMap_singleton]
    · exact .pure (.refl _) rfl

theorem registers_derived (simple mixed : Bool) (name : Option String) : ∀ ts : List Tree,
    (single → allOneEach ts) →
    Registers single [] (derived s simple mixed name ts) fun m made => made = m.parts
  | [], _ => by
    rw [derived]
    exact .fail
  | t :: ts, hts => by
    have hrest := registers_derived simple mixed name ts fun h => (allOneEach_cons (hts h)).2
    rw [derived]
    exact .optional (registers_derived? simple mixed t fun h => (allOneEach_cons (hts h)).1) rfl
      hrest fun m => .pure (.of_eq (List.flatMap_singleton ..)) rfl

theorem registers_model? (name : Option String) : ∀ t : Tree, (single → oneEach t) →
    Registers single [] (model? s name t) fun r made => made = r.toList.flatMap Derived.parts
  | .text _, _ => by
    rw [model?]
    exact .pure (.refl _) rfl
  | .element n as content, ht => by
    have whole {simple mixed : Bool} :
        Registers single [] (some <$> derived s simple mixed name content) fun r made =>
          made = r.toList.flatMap Derived.parts := by
      refine .map ((registers_derived simple mixed name content
        fun h => oneEach_content (ht h)).mono fun m made hm => ?_)
      rw [hm, Option.toList_some, List.flatMap_singleton]
    rw [model?]
    split
    · exact whole
    · exact whole
    · exact .pure (.refl _) rfl

theorem registers_model (name : Option String) : ∀ ts : List Tree, (single → allOneEach ts) →
    Registers single [] (model s name ts) fun r made => made = r.toList.flatMap Derived.parts
  | [], _ => by
    rw [model]
    exact .pure (.refl _) rfl
  | t :: ts, hts => by
    have hrest := registers_model name ts fun h => (allOneEach_cons (hts h)).2
    rw [model]
    exact .optional (registers_model? name t fun h => (allOneEach_cons (hts h)).1) rfl hrest
      fun m => .pure (.refl _) rfl

end

/-! ## The document -/

theorem registers_element (isGlobal : Bool) {n : Name} {as : Attributes} {content : List Tree}
    (ht : single → oneEach (.element n as content)) (hn : Construct.ofName? n = some .element) :
    Registers single [] (element s isGlobal as content) fun i made => made = [⟨.element, i⟩] := by
  refine registers_elementOf isGlobal as content (registers_lastInline content none
    (fun h => oneEach_content (ht h)) fun h => ?_)
  simpa using oneEach_inline (ht h) hn

theorem registers_complexType (name : Option String) (as : Attributes) {content : List Tree}
    (hcontent : single → allOneEach content) :
    Registers single [] (complexType s name as content) fun i made => made = [⟨.complex, i⟩] :=
  registers_complexTypeOf name as hcontent (registers_model name content hcontent)
    (registers_particle content hcontent)

theorem registers_group (as : Attributes) {content : List Tree}
    (hcontent : single → allOneEach content) :
    Registers single [] (group s as content) fun i made => made = [⟨.group, i⟩] := by
  refine (registers_particle content hcontent).followed fun p made hp => ?_
  exact .enter (.of_eq hp) fun d => Declarations.adds_addGroup d _

theorem registers_attributeGroup (as : Attributes) {content : List Tree}
    (hcontent : single → allOneEach content) :
    Registers single [] (attributeGroup s as content) fun i made =>
      made = [⟨.attributeGroup, i⟩] := by
  refine (registers_attributeUses content hcontent).followed fun u made hu => ?_
  exact .enter (.of_eq hu) fun d => Declarations.adds_addAttributeGroup d _

/-- What is read at the top joins what the document has there.  It stands at the end of one of the
lists that make that up, so they are counted. -/
theorem registers_top {k : Family} {m : Declare Nat} {doc : Document}
    {f : Nat → Document × List Directive}
    (h : Registers single [] m fun i made => made = [⟨k, i⟩])
    (hf : ∀ i a, (f i).1.entries.count a = doc.entries.count a + [Entry.mk k i].count a) :
    Registers single doc.entries (do return f (← m)) fun r made => made = r.1.entries := by
  refine h.bind fun i made hi => .pure (List.perm_iff_count.2 fun a => ?_) rfl
  rw [hi, hf, List.count_append, Nat.add_comm]

theorem registers_topLevel {n : Name} {as : Attributes} {content : List Tree}
    (ht : single → oneEach (.element n as content)) (doc : Document)
    (directives : List Directive) :
    Registers single doc.entries (topLevel s n as content doc directives) fun r made =>
      made = r.1.entries := by
  have hcontent := fun h => oneEach_content (ht h)
  have same {directives : List Directive} :
      Registers single doc.entries (pure (doc, directives) : Declare (Document × List Directive))
        fun r made => made = r.1.entries := .pure (.refl _) rfl
  have hcomplex (i : Nat) := TypeRef.entries_snoc (t := .complex (.declared i)) doc.types rfl
  have hsimple (i : Nat) := TypeRef.entries_snoc (t := .simple (.declared i)) doc.types rfl
  rw [topLevel]
  split
  any_goals exact same
  case' h_4 hn => refine registers_top (registers_element true ht hn) fun i a => ?_
  case' h_5 => refine registers_top (registers_complexType _ as hcontent) fun i a => ?_
  case' h_6 hn =>
    refine registers_top (registers_simpleType _ hcontent fun h => oneEach_restriction (ht h) hn)
      fun i a => ?_
  case' h_7 => refine registers_top (registers_group as hcontent) fun i a => ?_
  case' h_8 => refine registers_top (registers_attr true as hcontent) fun i a => ?_
  case' h_9 => refine registers_top (registers_attributeGroup as hcontent) fun i a => ?_
  all_goals
    simp only [Document.count_entries, List.map_append, List.map_singleton, List.count_append,
      hcomplex, hsimple]
    omega

theorem registers_topLevels : ∀ (content : List Tree) (doc : Document)
    (directives : List Directive), (single → allOneEach content) →
    Registers single doc.entries (topLevels s doc directives content) fun r made =>
      made = r.1.entries
  | [], doc, directives, _ => .pure (.refl _) rfl
  | .text _ :: ts, doc, directives, h =>
    registers_topLevels ts doc directives fun hs => (allOneEach_cons (h hs)).2
  | .element n as content :: ts, doc, directives, h => by
    have hrest := fun hs => (allOneEach_cons (h hs)).2
    refine (registers_topLevel (fun hs => (allOneEach_cons (h hs)).1) doc directives).followed
      fun r made hr => ?_
    rw [hr]
    exact registers_topLevels ts r.1 r.2 hrest

theorem registers_document (content : List Tree) :
    Registers (allOneEach content) [] (document s content) fun r made => made = r.1.entries :=
  registers_topLevels content { source := s.source, space := s.space, prefixes := _ } [] id

end Declaring

/-- What a document holds, at whatever depth, was entered since the declarations were `d`.  Each has
a place of its own in the list of its family, and there it comes behind all that it encloses. -/
structure Document.Registered (doc : Document) (d e : Declarations) : Prop where
  listed : ∀ p a, e.At doc.entries p a → a.EnteredSince d e
  once : ∀ p q a, e.At doc.entries p a → e.At doc.entries q a → p = q
  behind : ∀ p a b, e.At doc.entries p a → e.Encloses a b → b.family = a.family → b.place < a.place

namespace Declaring

/-- A document registers all that it holds.  Besides that, only types are entered that others are
written in place of, and what these hold. -/
theorem document_registers {s : Setting} {content : List Tree} {d e : Declarations} {doc : Document}
    {directives : List Directive}
    (h : (document s content).run.run d = (.ok (doc, directives), e)) :
    doc.Registered d e ∧ ∃ superseded : List Entry, (∀ a ∈ superseded, a.IsType) ∧
      (allOneEach content → superseded = []) ∧
      ∀ a, a.EnteredSince d e → ∃ p, e.At (doc.entries ++ superseded) p a := by
  have hrun := registers_document (s := s) content d d [] [] (.start d)
  unfold Ensures at hrun
  rw [h] at hrun
  obtain ⟨log, made, lost, rfl, hlost, hforest⟩ := hrun
  rw [List.append_nil] at hforest
  have hat {p : List Nat} {a : Entry} (hp : e.At doc.entries p a) :
      e.At (doc.entries ++ lost) p a := hp.append lost
  refine ⟨⟨fun p a hp => ?_, fun p q a hp hq => ?_, fun p a b hp => ?_⟩,
    lost, hlost.types, hlost.nil, fun a ha => ?_⟩
  · exact (hforest.mem_log a).1 (hforest.mem_of_at (hat hp))
  · exact hforest.at_unique (hat hp) (hat hq)
  · exact hforest.before a (hforest.mem_of_at (hat hp)) b
  · exact hforest.exists_at ((hforest.mem_log a).2 ha)

/-- A simple type over another one that is written in it. -/
def layeredType : Tree := xsTree "simpleType" [xsTree "restriction" [xsTree "simpleType" []]]

/-- The element `a` has a simple type, and after that a type with an element and an attribute. -/
def twofold : List Tree :=
  [xsTree "element" [layeredType, xsTree "complexType"
    [xsTree "sequence" [xsTree "element" [layeredType] (named "b")],
      xsTree "attribute" [xsTree "simpleType" []] (named "c")]] (named "a")]

def twofoldRead : Except Failure (Document × List Directive) × Declarations :=
  (document bareSetting twofold).run.run {}

theorem twofold_facts :
    twofoldRead.1.toOption.map (·.1.entries) = some [⟨.element, 1⟩] ∧
      (twofoldRead.2.elements.size = 2 ∧ twofoldRead.2.attributes.size = 1 ∧
        twofoldRead.2.simpleTypes.size = 5 ∧ twofoldRead.2.complexTypes.size = 1) ∧
      twofoldRead.2.parts ⟨.element, 1⟩ = [⟨.complex, 0⟩] ∧
      twofoldRead.2.parts ⟨.complex, 0⟩ = [⟨.element, 0⟩, ⟨.particle, 0⟩, ⟨.attr, 0⟩] ∧
      twofoldRead.2.parts ⟨.element, 0⟩ = [⟨.simple, 3⟩] ∧
      twofoldRead.2.parts ⟨.simple, 3⟩ = [⟨.simple, 2⟩] := by
  decide +kernel

/-- The simple type of `b` and the one inside it come after the two that are superseded. -/
theorem twofold_registered : ∃ doc directives e,
    (document bareSetting twofold).run.run {} = (.ok (doc, directives), e) ∧
      (e.elements.size = 2 ∧ e.attributes.size = 1 ∧ e.simpleTypes.size = 5 ∧
        e.complexTypes.size = 1) ∧
      e.At doc.entries [0, 0, 0, 0, 0] ⟨.simple, 2⟩ ∧ doc.Registered {} e := by
  have hrun : (document bareSetting twofold).run.run {} = twofoldRead := rfl
  have hfacts := twofold_facts
  generalize twofoldRead = read at hrun hfacts
  obtain ⟨htop, hsizes, ha, htype, hb, hlayer⟩ := hfacts
  rcases read with ⟨_ | ⟨doc, directives⟩, e⟩
  · cases htop
  · obtain htop : doc.entries = [⟨.element, 1⟩] := Option.some.inj htop
    refine ⟨doc, directives, e, hrun, hsizes, ?_, (document_registers hrun).1⟩
    have first {l rest : List Entry} {a : Entry} (hl : l = a :: rest) : l[0]? = some a := by
      rw [hl]
      rfl
    have hpath : e.At doc.entries [0, 0, 0] ⟨.element, 0⟩ :=
      .part (.part (.root (first htop)) (first ha)) (first htype)
    exact .part (.part hpath (first hb)) (first hlayer)

end Declaring
end Schema
end SchemaPaths
