/-
Linking a set with and without references to groups.

Two runs of linking go side by side, one on a set and one on the set with groups in the place of
references.  Where the first writes a group out, there is nothing left to do for the second; otherwise
they take the same steps.  So where the first succeeds the second does too, and it finds out the same.
-/
import SchemaPaths.Proofs.Linking.Inlining

namespace SchemaPaths
namespace Schema

open Linking (Link Progress)

/-! ## Two runs -/

/-- What the types declare themselves refers to nothing beyond the set. -/
def OwnDeclared (s : SchemaSet) (d : Declarations) : Prop :=
  ∀ i, ∀ n ∈ Linking.ownParticle (d.complexType i), s.declared.extent.HasContent n

/-- How far two runs have come, the second on the set with groups in the place of references. -/
structure Beside (s : SchemaSet) (p p' : Progress) : Prop where
  contents : ∀ e ∈ p.contents, GroupContent s e.1 e.2
  own : OwnDeclared s p.declared
  declared : p'.declared = p.declared.mapParticles s.inline
  simple : p'.simple = p.simple
  complex : p'.complex = p.complex
  headed : p'.headed = p.headed

/-- A step of the first run alone, which the second run does not need. -/
def Aside {α : Type} (s : SchemaSet) (m : Link α) (good : α → Prop) : Prop :=
  ∀ p p', Beside s p p' → Ensures m p (fun a q => good a ∧ Beside s q p') fun _ _ => True

/-- Where the step of the first run succeeds, that of the second does so with the same result. -/
def GoesWith {α : Type} (s : SchemaSet) (m m' : Link α) : Prop :=
  ∀ p p', Beside s p p' → Ensures m p
    (fun a q => Ensures m' p' (fun a' q' => a' = a ∧ Beside s q q') fun _ _ => False)
    fun _ _ => True

section Rules

variable {s : SchemaSet} {α β : Type}

namespace Aside

variable {m : Link α} {f : α → Link β} {good good' : α → Prop} {ok : β → Prop}

theorem pure {a : α} (h : good a) : Aside s (Pure.pure a) good := fun _ _ hp => ⟨h, hp⟩

theorem fail {e : Failure} : Aside s (throw e : Link α) good := fun _ _ _ => trivial

theorem bind (h : Aside s m good) (hf : ∀ a, good a → Aside s (f a) ok) :
    Aside s (m >>= f) ok :=
  fun p p' hp => (h p p' hp).bind fun a q hq => hf a hq.1 q p' hq.2

theorem mono (h : Aside s m good) (hg : ∀ a, good a → good' a) : Aside s m good' :=
  fun p p' hp => (h p p' hp).mono (fun a _ hq => ⟨hg a hq.1, hq.2⟩) fun _ _ hq => hq

theorem lift {r : Except Failure α} : Aside s (Linking.lift r) fun a => r = .ok a := by
  cases r with
  | ok a => exact pure rfl
  | error e => exact fail

theorem refuseAgain {met : List Nat} {i : Nat} {problem : LoadProblem} :
    Aside s (Linking.refuseAgain met i problem) fun _ => True := by
  unfold Linking.refuseAgain
  split
  · exact fail
  · exact pure trivial

end Aside

namespace GoesWith

variable {m m' : Link α} {f f' : α → Link β} {good : α → Prop}

theorem pure (a : α) : GoesWith s (Pure.pure a) (Pure.pure a) := fun _ _ hp => ⟨rfl, hp⟩

theorem fail {e : Failure} : GoesWith s (throw e) m' := fun _ _ _ => trivial

theorem bind (h : GoesWith s m m') (hf : ∀ a, GoesWith s (f a) (f' a)) :
    GoesWith s (m >>= f) (m' >>= f') := by
  refine fun p p' hp => (h p p' hp).bind fun a q hq => ?_
  obtain ⟨_, q', ⟨rfl, hqq'⟩, hrun⟩ := hq.exists_ok
  exact (hf _ q q' hqq').mono (fun b r hr => ensures_bind.2 (hrun.2 hr)) fun _ _ hr => hr

/-- After a step of the first run alone. -/
theorem after (h : Aside s m good) {m' : Link β} (hf : ∀ a, good a → GoesWith s (f a) m') :
    GoesWith s (m >>= f) m' :=
  fun p p' hp => (h p p' hp).bind fun a q hq => hf a hq.1 q p' hq.2

theorem get {f f' : Progress → Link β} (h : ∀ p p', Beside s p p' → GoesWith s (f p) (f' p')) :
    GoesWith s (MonadState.get >>= f) (MonadState.get >>= f') :=
  fun p p' hp => h p p' hp p p' hp

theorem declared {f f' : Declarations → Link β}
    (h : ∀ d, OwnDeclared s d → GoesWith s (f d) (f' (d.mapParticles s.inline))) :
    GoesWith s (Linking.declared >>= f) (Linking.declared >>= f') := by
  intro p p' hp
  refine ensures_bind.2 ((h p.declared hp.own p p' hp).mono (fun b q hq => ensures_bind.2 ?_)
    fun _ _ hq => hq)
  show Ensures (f' p'.declared) p' _ _
  rw [hp.declared]
  exact hq

theorem lift (r : Except Failure α) : GoesWith s (Linking.lift r) (Linking.lift r) := by
  cases r with
  | ok a => exact pure a
  | error e => exact fail

theorem modify {k k' : Progress → Progress} (h : ∀ p p', Beside s p p' → Beside s (k p) (k' p')) :
    GoesWith s (modify k : Link PUnit) (modify k') := fun p p' hp => ⟨rfl, h p p' hp⟩

/-- Linking leaves what the types declare themselves as it is. -/
theorem modifyDeclared {k k' : Declarations → Declarations}
    (hown : ∀ d i,
      Linking.ownParticle ((k d).complexType i) = Linking.ownParticle (d.complexType i))
    (h : ∀ d, (k d).mapParticles s.inline = k' (d.mapParticles s.inline)) :
    GoesWith s (Linking.modifyDeclared k) (Linking.modifyDeclared k') :=
  modify fun p p' hp => { hp with
    own := fun i n hn => hp.own i n (hown p.declared i ▸ hn)
    declared := by rw [h, hp.declared] }

theorem forM {l : List α} {f f' : α → Link PUnit} (h : ∀ a ∈ l, GoesWith s (f a) (f' a)) :
    GoesWith s (l.forM f) (l.forM f') := by
  induction l with
  | nil => exact pure PUnit.unit
  | cons a l ih =>
    exact (h a List.mem_cons_self).bind fun _ => ih fun b hb => h b (List.mem_cons_of_mem a hb)

theorem refuseAgain {met : List Nat} {i : Nat} {problem : LoadProblem} :
    GoesWith s (Linking.refuseAgain met i problem) (Linking.refuseAgain met i problem) := by
  unfold Linking.refuseAgain
  split
  · exact fail
  · exact pure ()

end GoesWith
end Rules

/-! ## Writing groups out -/

section Writing

variable {s : SchemaSet}

mutual

theorem aside_expandWith {resolve : QName → Link (Option Node)} {x : Extent}
    (h : ∀ q, Aside s (resolve q) fun out => ∃ g, s.group? q = some g ∧ GroupContent s g out) :
    ∀ n : Node, (∀ a ∈ n.atoms, x.HasAtom a) →
      Aside s (Linking.expandWith resolve n) (WrittenOut s n)
  | .groupRef q _, _ => (h q).mono fun _ ⟨_, found, content⟩ => .group found content
  | .sequence i c o items, hn => by
    refine (aside_expandItems h items hn).bind fun outs each => ?_
    rw [each.pure_eq hn (.sequence · c o) i]
    exact .pure (.sequence each)
  | .choice i o items, hn => by
    refine (aside_expandItems h items hn).bind fun outs each => ?_
    rw [each.pure_eq hn (.choice · o) i]
    exact .pure (.choice each)
  | .element _, _ => .pure (.atom trivial rfl)
  | .attr _, _ => .pure (.atom trivial rfl)
  | .type _, _ => .pure (.atom trivial rfl)
  | .any .., _ => .pure (.atom trivial rfl)
  | .content .., _ => .pure (.atom trivial rfl)
  | .derivation .., _ => .pure (.atom trivial rfl)
  | .group _, _ => .pure (.atom trivial rfl)
  | .unknown .., _ => .pure (.atom trivial rfl)

theorem aside_expandItems {resolve : QName → Link (Option Node)} {x : Extent}
    (h : ∀ q, Aside s (resolve q) fun out => ∃ g, s.group? q = some g ∧ GroupContent s g out) :
    ∀ ns : List Node, (∀ a ∈ Node.atomsOf ns, x.HasAtom a) →
      Aside s (Linking.expandItems resolve ns) (AllWrittenOut s ns)
  | [], _ => .pure .nil
  | n :: ns, hatoms => by
    obtain ⟨hn, hns⟩ := List.forall_mem_append.1 hatoms
    exact (aside_expandWith h n hn).bind fun _ first =>
      (aside_expandItems h ns hns).bind fun _ rest => .pure (.cons first rest)

end

theorem aside_expandOption {resolve : QName → Link (Option Node)} {x : Extent}
    (h : ∀ q, Aside s (resolve q) fun out => ∃ g, s.group? q = some g ∧ GroupContent s g out)
    {o : Option Node} (ho : ∀ n ∈ o, x.HasContent n) :
    Aside s (Linking.expandOption resolve o) (OptionWrittenOut s o) := by
  cases o with
  | none => exact .pure rfl
  | some n => exact aside_expandWith h n (ho n rfl).atoms

/-- The group that a name means, written out. -/
theorem aside_named {write : GroupId → Link (Option Node)}
    (h : ∀ g, Aside s (write g) (GroupContent s g)) (q : QName) :
    Aside s (do write (← Linking.lift (s.group q)))
      fun out => ∃ g, s.group? q = some g ∧ GroupContent s g out :=
  Aside.lift.bind fun g hg => (h g).mono fun _ hout => ⟨g, eq_some_of_found hg, hout⟩

theorem aside_groupContent (hs : s.Closed) (fuel : Nat) (outer : List GroupId) (g : GroupId) :
    Aside s (Linking.groupContent s fuel outer g) (GroupContent s g) := by
  induction fuel generalizing outer g with
  | zero => exact .fail
  | succ fuel ih =>
    intro p p' hp
    rw [Linking.groupContent]
    refine ensures_bind.2 (ensures_get.2 ?_)
    split
    · -- it was written out before
      rename_i content hlookup
      exact ⟨hp.contents (g, content) (mem_of_lookup hlookup), hp⟩
    · have hparticle := fun n hn => (hs.declared.group g n hn).2
      refine Aside.refuseAgain.bind (fun _ _ => (aside_expandOption (aside_named (ih _))
        hparticle).bind fun content written => ?_) p p' hp
      have hcontent : GroupContent s g content := groupContent_iff.2 written
      refine fun q q' hq => ensures_bind.2 (ensures_modify.2 ⟨hcontent, { hq with contents := ?_ }⟩)
      exact List.forall_mem_cons.2 ⟨hcontent, hq.contents⟩

theorem aside_expandGroup (hs : s.Closed) (g : GroupId) :
    Aside s (Linking.expandGroup s g) (GroupContent s g) := aside_groupContent hs _ [] g

theorem aside_expand (hs : s.Closed) {o : Option Node}
    (ho : ∀ n ∈ o, s.declared.extent.HasContent n) :
    Aside s (Linking.expand s o) (OptionWrittenOut s o) :=
  aside_expandOption (aside_named (aside_expandGroup hs)) ho

end Writing

/-! ## Linking on both sides -/

section Both

variable {s : SchemaSet}

/-! ### Simple types -/

theorem goesWith_nameSimpleBase (i : SimpleId) :
    GoesWith s (Linking.nameSimpleBase s i) (Linking.nameSimpleBase s.inlined i) := by
  refine .declared fun d _ => ?_
  rw [simpleType_mapParticles]
  dsimp only
  cases (d.simpleType i).base with
  | some r => exact .pure ()
  | none =>
    cases (d.simpleType i).baseName with
    | none => exact .pure ()
    | some q =>
      refine GoesWith.bind (.lift (s.type q)) fun r => ?_
      cases r with
      | simple r => exact .modifyDeclared (fun _ _ => rfl) fun _ => rfl
      | complex r => exact .pure ()

theorem goesWith_onSimpleBase (i : SimpleId) {go go' : SimpleId → Link Unit}
    (h : ∀ j, GoesWith s (go j) (go' j)) :
    GoesWith s (Linking.onSimpleBase i go) (Linking.onSimpleBase i go') := by
  refine .declared fun d _ => ?_
  rw [simpleType_mapParticles]
  rcases (d.simpleType i).base with _ | _ | j
  · exact .pure ()
  · exact .pure ()
  · exact h j

theorem goesWith_seeType (o : Option QName) :
    GoesWith s (Linking.seeType s o) (Linking.seeType s.inlined o) := by
  cases o with
  | none => exact .pure ()
  | some q => exact GoesWith.bind (.lift (s.type q)) fun _ => .pure ()

theorem goesWith_simpleTypeFrom (fuel : Nat) (derived : List SimpleId) (i : SimpleId) :
    GoesWith s (Linking.simpleTypeFrom s fuel derived i)
      (Linking.simpleTypeFrom s.inlined fuel derived i) := by
  induction fuel generalizing derived i with
  | zero => exact .fail
  | succ fuel ih =>
    refine .get fun p p' hp => ?_
    rw [hp.simple]
    split
    · exact .pure ()
    · refine .declared fun d _ => ?_
      rw [simpleType_mapParticles]
      refine GoesWith.bind GoesWith.refuseAgain fun _ => ?_
      refine GoesWith.bind (goesWith_nameSimpleBase i) fun _ => ?_
      refine GoesWith.bind (goesWith_onSimpleBase i (ih (i :: derived))) fun _ => ?_
      refine GoesWith.bind (goesWith_seeType _) fun _ => ?_
      exact .modify fun p p' hp => { hp with simple := by rw [hp.simple] }

theorem goesWith_simpleType (i : SimpleId) :
    GoesWith s (Linking.simpleType s i) (Linking.simpleType s.inlined i) :=
  .declared fun d _ => goesWith_simpleTypeFrom (d.simpleTypes.size + 1) [] i

/-! ### Complex types -/

theorem complexBase_mapParticle (f : Node → Option Node) (t : ComplexType) :
    Linking.complexBase s.inlined (t.mapParticle f) = Linking.complexBase s t := by
  unfold Linking.complexBase ComplexType.mapParticle
  cases t.model <;> rfl

theorem inherited_mapParticles (f : Node → Option Node) (d : Declarations) (b : TypeRef) :
    Linking.inherited (d.mapParticles f) b = (Linking.inherited d b).map (·.mapParticle f) := by
  match b with
  | .simple _ => rfl
  | .complex .anyType => rfl
  | .complex (.declared j) => exact congrArg some (complexType_mapParticles j)

theorem contentOf_mapParticle (f : Node → Option Node) (i : ComplexId) (t : ComplexType)
    (base : Option ComplexType) (own : Option Node) :
    Linking.contentOf i (t.mapParticle f) (base.map (·.mapParticle f)) own =
      Linking.contentOf i t base own := by
  have hbase : (base.map (·.mapParticle f)).bind (·.content) = base.bind (·.content) := by
    cases base <;> rfl
  unfold Linking.contentOf Linking.extended
  rw [hbase]
  rcases hm : t.model with _ | ⟨_ | _, _, _, _, _, _, _⟩ <;> simp [ComplexType.mapParticle, hm]

theorem declaredUses_mapParticle (f : Node → Option Node) (t : ComplexType) :
    Linking.declaredUses s.inlined (t.mapParticle f) = Linking.declaredUses s t := by
  have hown : Linking.ownAttributes (t.mapParticle f) = Linking.ownAttributes t := by
    unfold Linking.ownAttributes ComplexType.mapParticle
    cases t.model <;> rfl
  have hgroup : Linking.attributesOfGroup s.inlined = Linking.attributesOfGroup s :=
    attributesOfGroup_congr rfl rfl
  rw [Linking.declaredUses, Linking.declaredUses, hown, hgroup]

theorem ownParticle_modifyComplexType (i : ComplexId) {f : ComplexType → ComplexType}
    (hf : ∀ t, Linking.ownParticle (f t) = Linking.ownParticle t) (d : Declarations)
    (j : ComplexId) : Linking.ownParticle ((d.modifyComplexType i f).complexType j) =
      Linking.ownParticle (d.complexType j) := by
  rw [complexType_modify]
  split
  · rename_i hj
    rw [hf, hj.1]
  · rfl

theorem goesWith_fillComplex (hs : s.Closed) (i : ComplexId) {t : ComplexType}
    (ht : ∀ n ∈ Linking.ownParticle t, s.declared.extent.HasContent n) (base : TypeRef) :
    GoesWith s (Linking.fillComplex s i t base)
      (Linking.fillComplex s.inlined i (t.mapParticle s.inline) base) := by
  unfold Linking.fillComplex
  refine GoesWith.bind (.modifyDeclared (ownParticle_modifyComplexType i fun _ => rfl)
    fun _ => mapParticles_modifyComplexType i fun _ => rfl)
    fun _ => ?_
  -- only the first run writes groups out; to the second they are written out already
  rw [ownParticle_mapParticle, expand_of_isPlain (SchemaSet.inline_isPlain _)
    (SchemaSet.inline_hasContent hs ht), pure_bind]
  refine GoesWith.after (aside_expand hs ht) fun own written => ?_
  rw [written.inline hs, declaredUses_mapParticle]
  refine .declared fun d _ => ?_
  rw [inherited_mapParticles, contentOf_mapParticle]
  refine GoesWith.bind (.modifyDeclared (ownParticle_modifyComplexType i fun _ => rfl)
    fun _ => mapParticles_modifyComplexType i fun _ => rfl)
    fun _ => ?_
  refine GoesWith.bind (.lift _) fun added => ?_
  have hbefore : ((Linking.inherited d base).map (·.mapParticle s.inline)).map (·.uses) =
      (Linking.inherited d base).map (·.uses) := by
    cases Linking.inherited d base <;> rfl
  rw [hbefore]
  exact .modifyDeclared (ownParticle_modifyComplexType i fun _ => rfl)
    fun _ => mapParticles_modifyComplexType i fun _ => rfl

theorem goesWith_complexTypeFrom (hs : s.Closed) (fuel : Nat) (derived : List ComplexId)
    (i : ComplexId) : GoesWith s (Linking.complexTypeFrom s fuel derived i)
      (Linking.complexTypeFrom s.inlined fuel derived i) := by
  induction fuel generalizing derived i with
  | zero => exact .fail
  | succ fuel ih =>
    refine .get fun p p' hp => ?_
    rw [hp.complex]
    split
    · exact .pure ()
    · refine .declared fun d hown => ?_
      rw [complexType_mapParticles]
      refine GoesWith.bind GoesWith.refuseAgain fun _ => ?_
      rw [complexBase_mapParticle]
      have hbase : GoesWith s (Linking.complexBase s (d.complexType i))
          (Linking.complexBase s (d.complexType i)) := by
        unfold Linking.complexBase
        split
        · exact .pure _
        · split
          · exact .fail
          · exact .lift _
      refine GoesWith.bind hbase fun base => ?_
      have hgo : GoesWith s
          (Linking.onComplexBase base fun j => Linking.complexTypeFrom s fuel (i :: derived) j)
          (Linking.onComplexBase base fun j =>
            Linking.complexTypeFrom s.inlined fuel (i :: derived) j) := by
        match base with
        | .simple _ => exact .pure ()
        | .complex .anyType => exact .pure ()
        | .complex (.declared j) => exact ih (i :: derived) j
      refine GoesWith.bind hgo fun _ =>
        GoesWith.bind (goesWith_fillComplex hs i (hown i) base) fun _ => ?_
      exact .modify fun p p' hp => { hp with complex := by rw [hp.complex] }

theorem goesWith_complexType (hs : s.Closed) (i : ComplexId) :
    GoesWith s (Linking.complexType s i) (Linking.complexType s.inlined i) := by
  refine .declared fun d _ => ?_
  have hsize : (d.mapParticles s.inline).complexTypes.size = d.complexTypes.size :=
    Array.size_map ..
  rw [hsize]
  exact goesWith_complexTypeFrom hs _ [] i

/-! ### Attributes and elements -/

theorem goesWith_attr (i : AttributeId) : GoesWith s (Linking.attr s i) (Linking.attr s.inlined i) := by
  refine .declared fun d _ => ?_
  rw [attr_mapParticles]
  dsimp only
  cases (d.attr i).ref with
  | some q => exact GoesWith.bind (.lift (s.attr q)) fun _ => .pure ()
  | none =>
    have htype : GoesWith s (Linking.attributeType s (d.attr i))
        (Linking.attributeType s (d.attr i)) := by
      unfold Linking.attributeType
      split
      · exact .pure _
      · exact .lift _
      · exact .pure _
    exact GoesWith.bind htype fun r => .modifyDeclared (fun _ _ => rfl) fun _ => rfl

theorem goesWith_checkHeads (fuel : Nat) (seen : List ElementId) (i : ElementId) :
    GoesWith s (Linking.checkHeads s fuel seen i) (Linking.checkHeads s.inlined fuel seen i) := by
  induction fuel generalizing seen i with
  | zero => exact .fail
  | succ fuel ih =>
    refine .get fun p p' hp => ?_
    rw [hp.headed]
    have hsame : s.inlined.declared.element i = s.declared.element i := rfl
    rw [hsame]
    split
    · exact .modify fun p p' hp => { hp with headed := by rw [hp.headed] }
    · rename_i q _
      split
      · exact .fail
      · exact GoesWith.bind (.lift (s.element q)) fun j => ih (i :: seen) j

theorem goesWith_headOf (i : ElementId) (o : Option QName) :
    GoesWith s (Linking.headOf s i o) (Linking.headOf s.inlined i o) := by
  cases o with
  | none => exact .pure none
  | some q =>
    exact GoesWith.bind (goesWith_checkHeads _ [] i) fun _ =>
      GoesWith.bind (.lift (s.element q)) fun j => .pure (some j)

theorem goesWith_setElementType (i : ElementId) (o : Option TypeRef) :
    GoesWith s (Linking.setElementType i o) (Linking.setElementType i o) :=
  .modifyDeclared (fun _ _ => rfl) fun _ => rfl

theorem goesWith_elementFrom (fuel : Nat) (i : ElementId) :
    GoesWith s (Linking.elementFrom s fuel i) (Linking.elementFrom s.inlined fuel i) := by
  induction fuel generalizing i with
  | zero => exact .fail
  | succ fuel ih =>
    refine .declared fun d _ => ?_
    rw [element_mapParticles]
    dsimp only
    split
    · exact .pure ()
    · cases (d.element i).ref with
      | some q => exact GoesWith.bind (.lift (s.element q)) fun _ => .pure ()
      | none =>
        refine GoesWith.bind (goesWith_headOf i _) fun head => ?_
        cases (d.element i).inline with
        | some r => exact goesWith_setElementType i (some r)
        | none =>
          cases (d.element i).typeName with
          | some q =>
            exact GoesWith.bind (.lift (s.type q)) fun r => goesWith_setElementType i (some r)
          | none =>
            cases head with
            | none => exact goesWith_setElementType i (some anyType)
            | some h =>
              dsimp only
              split
              · exact goesWith_setElementType i (some anyType)
              · refine GoesWith.bind (ih h) fun _ => .declared fun d _ => ?_
                exact goesWith_setElementType i (d.element h).type

theorem goesWith_element (i : ElementId) :
    GoesWith s (Linking.element s i) (Linking.element s.inlined i) :=
  .declared fun d _ => goesWith_elementFrom (d.elements.size + 1) i

/-! ### Groups -/

/-- A group without references is written out, whatever was before. -/
theorem expandGroup_inlined (hs : s.Closed) {g : GroupId} {p p' : Progress} (hp : Beside s p p') :
    Ensures (Linking.expandGroup s.inlined g) p' (fun _ q' => Beside s p q') fun _ _ => False := by
  rw [Linking.expandGroup, Linking.groupContent]
  refine ensures_bind.2 (ensures_get.2 ?_)
  split
  · exact hp
  · dsimp only
    have hparticle := fun n hn => (hs.declared.group g n hn).2
    rw [s.group_inlined, Group.mapParticle, expandOption_of_isPlain _ (SchemaSet.inline_isPlain _)
      (SchemaSet.inline_hasContent hs hparticle)]
    exact { hp with }

theorem goesWith_groups (hs : s.Closed) : GoesWith s
    (s.groups.forM fun (_, g) => do let _ ← Linking.expandGroup s g)
    (s.inlined.groups.forM fun (_, g) => do let _ ← Linking.expandGroup s.inlined g) := by
  refine .forM fun e _ p p' hp => ?_
  refine (aside_expandGroup hs e.2 p p' hp).bind fun _ q hq => ?_
  exact (expandGroup_inlined hs hq.2).bind fun _ q' hq' => ⟨rfl, hq'⟩

/-! ### The whole set -/

theorem goesWith_all (hs : s.Closed) : GoesWith s (Linking.all s) (Linking.all s.inlined) := by
  have hplaces : Linking.places s.inlined.declared.complexTypes =
      Linking.places s.declared.complexTypes := congrArg List.range (Array.size_map ..)
  unfold Linking.all
  refine GoesWith.bind (.forM fun i _ => goesWith_simpleType i) fun _ => ?_
  rw [hplaces]
  refine GoesWith.bind (.forM fun i _ => goesWith_complexType hs i) fun _ => ?_
  refine GoesWith.bind (.forM fun i _ => goesWith_attr i) fun _ => ?_
  refine GoesWith.bind (.forM fun i _ => goesWith_element i) fun _ => ?_
  exact goesWith_groups hs

end Both

/-! ## What linking comes to -/

section Whole

variable {s : SchemaSet} {d : Declarations}

theorem bodyFrom_framed (h : d.groups = s.declared.groups) (fuel : Nat) :
    ({ s with declared := d } : SchemaSet).bodyFrom fuel = s.bodyFrom fuel := by
  induction fuel with
  | zero => rfl
  | succ fuel ih =>
    funext q
    have hgroup : d.group = s.declared.group := funext (group_framed h)
    rw [SchemaSet.bodyFrom, SchemaSet.bodyFrom, ih, hgroup]
    rfl

theorem inline_framed (h : d.groups = s.declared.groups) :
    ({ s with declared := d } : SchemaSet).inline = s.inline := by
  funext n
  rw [SchemaSet.inline, SchemaSet.inline, bodyFrom_framed h, h]

/-- Where a set can be linked, so can the one with groups in the place of references, and only that
is different afterwards. -/
theorem link_inlined (hs : s.Closed) {linked : SchemaSet} (h : s.link = (linked, .ok ())) :
    s.inlined.link = (linked.inlined, .ok ()) := by
  have hrun := goesWith_all hs { declared := s.declared } { declared := s.inlined.declared }
    ⟨nofun, fun i n hn => ((hs.declared.complexType i).own n hn).2, rfl, rfl, rfl, rfl⟩
  have hgroups : linked.declared.groups = s.declared.groups := by
    have hframe := Frame.of_link hs
    rw [h] at hframe
    exact hframe.groups
  unfold SchemaSet.link at h ⊢
  unfold Ensures at hrun
  split at hrun
  · rename_i u p heq
    rw [heq] at h
    obtain ⟨rfl, -⟩ := Prod.mk.inj h
    split at hrun
    · rename_i u' p' heq'
      rw [heq']
      have hinlined : ({ s with declared := p.declared } : SchemaSet).inlined =
          { s.inlined with declared := p'.declared } := by
        rw [SchemaSet.inlined, inline_framed hgroups, hrun.2.declared]
        rfl
      rw [hinlined]
    · exact hrun.elim
  · rename_i heq
    rw [heq] at h
    cases h

end Whole

end Schema
end SchemaPaths
