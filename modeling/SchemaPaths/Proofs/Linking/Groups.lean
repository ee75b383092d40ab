/-
Writing groups out.

A group is written out for the groups that refer to it, and what was written out before is used
again.  As long as no group is met among those it is written out for, there are fewer of them than
groups, so the work never ends early.
-/
import SchemaPaths.Proofs.Linking.Progress

namespace SchemaPaths
namespace Schema

open Linking (Link Progress)

variable {s : SchemaSet}

/-- A step writes out the group that a name means. -/
def Resolves (s : SchemaSet) (resolve : QName → Link (Option Node)) (q : QName) : Prop :=
  ∀ p, Links s p (resolve q) fun p' out =>
    Untouched p p' ∧ ∃ g, s.group? q = some g ∧ GroupContent s g out

/-- Items that are themselves still make up the same as before, and others make up a copy. -/
theorem AllWrittenOut.pure_eq {x : Extent} {items outs : List Node}
    (h : AllWrittenOut s items outs) (hitems : ∀ a ∈ Node.atomsOf items, x.HasAtom a)
    (make : Identity → List Node → Node) (i : Identity) :
    (if Linking.unchanged items outs then pure (some (make i items))
      else pure (some (make (.copy i) outs)) : Link (Option Node)) =
      pure (some (make (i.writtenOut items) outs)) := by
  have hself : ∀ a ∈ Node.atomsOf items, a.groupName? = none → a.is a = true :=
    fun a ha => (hitems a ha).is_self
  split
  · rename_i hsame
    have hplain := h.plain_of_unchanged hsame
    rw [Identity.writtenOut_of_plain hplain, h.eq_of_plain hplain]
  · rename_i hchanged
    rw [Identity.writtenOut_of_not_plain fun hplain => hchanged ((h.unchanged_iff hself).2 hplain)]

mutual

theorem links_expandWith {resolve : QName → Link (Option Node)} {x : Extent} :
    ∀ (n : Node) (p : Progress), (∀ a ∈ n.atoms, x.HasAtom a) →
      (∀ q ∈ n.groupNames, Resolves s resolve q) →
      Links s p (Linking.expandWith resolve n) fun p' out => Untouched p p' ∧ WrittenOut s n out
  | .groupRef q o, p, _, h => by
    have hq : q ∈ (Node.groupRef q o).groupNames := List.mem_singleton.2 rfl
    refine (h q hq p).mono fun out p' _ hout => ?_
    obtain ⟨hsame, g, hg, hcontent⟩ := hout
    exact ⟨hsame, .group hg hcontent⟩
  | .sequence i c o items, p, hn, h => by
    refine (links_expandItems items p hn h).bind fun outs q _ hout => ?_
    rw [hout.2.pure_eq hn (.sequence · c o) i]
    exact .pure ⟨hout.1, .sequence hout.2⟩
  | .choice i o items, p, hn, h => by
    refine (links_expandItems items p hn h).bind fun outs q _ hout => ?_
    rw [hout.2.pure_eq hn (.choice · o) i]
    exact .pure ⟨hout.1, .choice hout.2⟩
  | .element _, p, _, _ => .pure ⟨.refl p, .atom trivial rfl⟩
  | .attr _, p, _, _ => .pure ⟨.refl p, .atom trivial rfl⟩
  | .type _, p, _, _ => .pure ⟨.refl p, .atom trivial rfl⟩
  | .any .., p, _, _ => .pure ⟨.refl p, .atom trivial rfl⟩
  | .content .., p, _, _ => .pure ⟨.refl p, .atom trivial rfl⟩
  | .derivation .., p, _, _ => .pure ⟨.refl p, .atom trivial rfl⟩
  | .group _, p, _, _ => .pure ⟨.refl p, .atom trivial rfl⟩
  | .unknown .., p, _, _ => .pure ⟨.refl p, .atom trivial rfl⟩

theorem links_expandItems {resolve : QName → Link (Option Node)} {x : Extent} :
    ∀ (ns : List Node) (p : Progress), (∀ a ∈ Node.atomsOf ns, x.HasAtom a) →
      (∀ q ∈ (Node.atomsOf ns).filterMap Node.groupName?, Resolves s resolve q) →
      Links s p (Linking.expandItems resolve ns) fun p' outs =>
        Untouched p p' ∧ AllWrittenOut s ns outs
  | [], p, _, _ => .pure ⟨.refl p, .nil⟩
  | n :: ns, p, hatoms, h => by
    obtain ⟨hn, hns⟩ := List.forall_mem_append.1 hatoms
    have hsplit : ∀ q, q ∈ n.groupNames ∨ q ∈ (Node.atomsOf ns).filterMap Node.groupName? →
        Resolves s resolve q := by
      intro q hq
      apply h q
      rw [Node.atomsOf, List.filterMap_append]
      exact List.mem_append.2 hq
    refine (links_expandWith n p hn fun q hq => hsplit q (.inl hq)).bind fun out q _ hout => ?_
    refine (links_expandItems ns q hns fun q hq => hsplit q (.inr hq)).bind fun outs r _ houts => ?_
    exact .pure ⟨hout.1.trans houts.1, .cons hout.2 houts.2⟩

end

theorem links_expandOption {resolve : QName → Link (Option Node)} {o : Option Node} {p : Progress}
    {x : Extent} (ho : ∀ n ∈ o, x.HasContent n)
    (h : ∀ n ∈ o, ∀ q ∈ n.groupNames, Resolves s resolve q) :
    Links s p (Linking.expandOption resolve o) fun p' out =>
      Untouched p p' ∧ OptionWrittenOut s o out := by
  cases o with
  | none => exact .pure ⟨.refl p, rfl⟩
  | some n => exact links_expandWith n p (ho n rfl).atoms (h n rfl)

theorem groupId_lt (hs : s.Closed) {q : QName} {g : GroupId} (h : s.group? q = some g) :
    g < s.declared.groups.size :=
  hs.groups (q, g) (Table.mem_of_find? h)

theorem links_groupContent (hs : s.Closed) (fuel : Nat) : ∀ (outer : List GroupId) (k : QName)
    (g : GroupId) (p : Progress), Above (GroupUse s) s.declared.groups.size outer g →
    (k, g) ∈ s.groups → s.declared.groups.size < fuel + outer.length →
    Links s p (Linking.groupContent s fuel outer g) fun p' out =>
      Untouched p p' ∧ GroupContent s g out := by
  induction fuel with
  | zero =>
    intro outer k g p habove _ hfuel
    have := habove.length_le
    omega
  | succ fuel ih =>
    intro outer k g p habove hlisted hfuel
    have hg : g < s.declared.groups.size := hs.groups (k, g) hlisted
    unfold Linking.groupContent
    refine .get ?_
    split
    · rename_i content hlookup
      exact .sound fun hp => .pure ⟨.refl p, hp.contents (g, content) (mem_of_lookup hlookup)⟩
    · dsimp only
      refine (links_refuseAgain fun hmem => .group hlisted (habove.way g hmem)).bind
        fun _ q _ hq => ?_
      obtain ⟨rfl, hnew⟩ := hq
      -- Whatever the group refers to is written out for the group itself and for all above it.
      have hinner : ∀ n ∈ (s.declared.group g).particle, ∀ r ∈ n.groupNames, Resolves s
          (fun r => do Linking.groupContent s fuel (g :: outer) (← Linking.lift (s.group r))) r := by
        intro n hn r hr p
        refine links_groupNamed (.group hlisted hn hr) fun h hh => ?_
        have hbelow : Above (GroupUse s) s.declared.groups.size (g :: outer) h :=
          habove.down hg hnew ⟨n, r, hn, hr, hh⟩
        have hroom : s.declared.groups.size < fuel + (g :: outer).length := by
          rw [List.length_cons]
          omega
        exact (ih (g :: outer) r h p hbelow (Table.mem_of_find? hh) hroom).mono
          fun out p' _ hout => ⟨hout.1, h, hh, hout.2⟩
      have hparticle := fun n hn => (hs.declared.group g n hn).2
      refine (links_expandOption hparticle hinner).bind fun content r _ hcontent => ?_
      obtain ⟨hsame, hwritten⟩ := hcontent
      have hgroup : GroupContent s g content := groupContent_iff.2 hwritten
      have hkeep : Links s r (modify fun p => { p with contents := (g, content) :: p.contents })
          fun r' _ => Untouched q r' := by
        refine .modify (fun hr => ?_) { Later.refl r with }
          (hsame.trans ⟨rfl, rfl, rfl⟩)
        exact { hr with
          contents := fun e he => (List.mem_cons.1 he).elim (fun h => h ▸ hgroup) (hr.contents e) }
      exact hkeep.bind fun _ r' _ hr' => .pure ⟨hr', hgroup⟩

theorem links_expandGroup (hs : s.Closed) {k : QName} {g : GroupId} (p : Progress)
    (hlisted : (k, g) ∈ s.groups) :
    Links s p (Linking.expandGroup s g) fun p' out => Untouched p p' ∧ GroupContent s g out :=
  links_groupContent hs _ [] k g p .start hlisted (by simp)

theorem links_expand (hs : s.Closed) {o : Option Node} (p : Progress)
    (ho : ∀ n ∈ o, s.declared.extent.HasContent n)
    (hsought : ∀ n ∈ o, ∀ q ∈ n.groupNames, Sought s.withoutElements .group q) :
    Links s p (Linking.expand s o) fun p' out => Untouched p p' ∧ OptionWrittenOut s o out := by
  refine links_expandOption ho fun n hn q hq p =>
    links_groupNamed (hsought n hn q hq) fun g hg => ?_
  exact (links_expandGroup hs p (Table.mem_of_find? hg)).mono
    fun out p' _ hout => ⟨hout.1, g, hg, hout.2⟩

/-! ## What is written out is declared -/

section MadeOf

variable {atom : Node → Prop} {compositor : Identity → Prop}

mutual

/-- If all that particles and groups are made of is good, it still is when the groups are written
out, as long as copies are. -/
theorem WrittenOut.madeOf
    (hgroups : ∀ g, ∀ n ∈ (s.declared.group g).particle, n.MadeOf atom compositor)
    (hcopy : ∀ i, compositor i → compositor (.copy i)) {n : Node} {out : Option Node} :
    WrittenOut s n out → n.MadeOf atom compositor → ∀ m ∈ out, m.MadeOf atom compositor
  | .group _ content, _ => content.madeOf hgroups hcopy
  | @WrittenOut.sequence _ i c o items outs each, hn => by
    obtain ⟨hi, hitems⟩ := hn.items (Node.composes_sequence c)
    rintro m ⟨⟩
    exact .compose (Node.composes_sequence c) (Identity.writtenOut_good hcopy hi)
      (each.madeOf hgroups hcopy hitems)
  | @WrittenOut.choice _ i o items outs each, hn => by
    obtain ⟨hi, hitems⟩ := hn.items Node.composes_choice
    rintro m ⟨⟩
    exact .compose Node.composes_choice (Identity.writtenOut_good hcopy hi)
      (each.madeOf hgroups hcopy hitems)
  | .atom .., hn => by
    rintro m ⟨⟩
    exact hn

theorem GroupContent.madeOf
    (hgroups : ∀ g, ∀ n ∈ (s.declared.group g).particle, n.MadeOf atom compositor)
    (hcopy : ∀ i, compositor i → compositor (.copy i)) {g : GroupId} {out : Option Node} :
    GroupContent s g out → ∀ m ∈ out, m.MadeOf atom compositor
  | .none _ => by rintro m ⟨⟩
  | .some particle written => written.madeOf hgroups hcopy (hgroups g _ particle)

theorem AllWrittenOut.madeOf
    (hgroups : ∀ g, ∀ n ∈ (s.declared.group g).particle, n.MadeOf atom compositor)
    (hcopy : ∀ i, compositor i → compositor (.copy i)) {ns outs : List Node} :
    AllWrittenOut s ns outs → (∀ n ∈ ns, n.MadeOf atom compositor) →
      ∀ m ∈ outs, m.MadeOf atom compositor
  | .nil, _ => by rintro m ⟨⟩
  | .cons first rest, hns => by
    obtain ⟨hn, hrest⟩ := List.forall_mem_cons.1 hns
    intro m hm
    rcases List.mem_append.1 hm with hm | hm
    · exact first.madeOf hgroups hcopy hn m (Option.mem_toList.1 hm)
    · exact rest.madeOf hgroups hcopy hrest m hm

end

theorem OptionWrittenOut.madeOf {o out : Option Node} (h : OptionWrittenOut s o out)
    (hgroups : ∀ g, ∀ n ∈ (s.declared.group g).particle, n.MadeOf atom compositor)
    (hcopy : ∀ i, compositor i → compositor (.copy i))
    (ho : ∀ n ∈ o, n.MadeOf atom compositor) : ∀ m ∈ out, m.MadeOf atom compositor := by
  cases o with
  | none =>
    rintro m hm
    rw [show out = none from h] at hm
    cases hm
  | some n => exact WrittenOut.madeOf hgroups hcopy h (ho n rfl)

end MadeOf

theorem OptionWrittenOut.hasContent (hs : s.declared.Closed) {o out : Option Node}
    (h : OptionWrittenOut s o out) (ho : ∀ n ∈ o, s.declared.extent.HasContent n) :
    ∀ m ∈ out, s.declared.extent.HasContent m :=
  h.madeOf (fun g n hn => (hs.group g n hn).2) (fun _ => id) ho

end Schema
end SchemaPaths
