/-
The effective attributes of a complex type.

Attributes go by their keys.  A type begins with those of its base and then takes its own in turn,
each of which overwrites, adds or removes the one of its key.  What is left in the end is, for each
key, the last attribute of it, unless that is prohibited.
-/
import SchemaPaths.Proofs.Linking.AttributeGroups
import SchemaPaths.Proofs.Loading

namespace SchemaPaths
namespace Schema

open Linking (Uses)

/-! ## What is effective -/

section Effective

variable (d : Declarations)

/-- What an attribute goes by: the name it refers to, or else its own. -/
def Declarations.key (a : AttributeId) : Option String := Linking.useKey (d.attr a)

def Declarations.IsProhibited (a : AttributeId) : Prop := (d.attr a).use = "prohibited"

instance (a : AttributeId) : Decidable (d.IsProhibited a) :=
  inferInstanceAs (Decidable (_ = _))

/-- The last of some attributes to go by a key. -/
def LastOf (as : List AttributeId) (k : Option String) (a : AttributeId) : Prop :=
  d.key a = k ∧ ∃ before after, as = before ++ a :: after ∧ ∀ b ∈ after, d.key b ≠ k

/-- One of the attributes prohibits a key. -/
def Prohibits (as : List AttributeId) (k : Option String) : Prop :=
  ∃ a ∈ as, d.key a = k ∧ d.IsProhibited a

instance (as : List AttributeId) (k : Option String) : Decidable (Prohibits d as k) :=
  inferInstanceAs (Decidable (∃ a ∈ as, _))

/-- The attributes `uses` of a type are the effective ones of those it inherits and those it
declares: no two go by one key, none is prohibited, an attribute is among them if it is the last of
its key and not prohibited, and what is inherited and not prohibited stays ahead of what is new. -/
structure Effective (inherited declared uses : List AttributeId) : Prop where
  distinct : (uses.map d.key).Nodup
  allowed : ∀ a ∈ uses, ¬ d.IsProhibited a
  mem_iff : ∀ k a, a ∈ uses ∧ d.key a = k ↔
    LastOf d (inherited ++ declared) k a ∧ ¬ d.IsProhibited a
  order : ((inherited.map d.key).filter fun k => ¬ Prohibits d declared k) <+: uses.map d.key

end Effective

/-! ## Taking up one attribute -/

section Keys

variable {d : Declarations} {as : List AttributeId} {us : Uses} {a b : AttributeId}
  {k : Option String}

theorem lastOf_concat : LastOf d (as ++ [b]) k a ↔
    d.key b = k ∧ a = b ∨ d.key b ≠ k ∧ LastOf d as k a := by
  constructor
  · rintro ⟨hkey, before, after, heq, hafter⟩
    rcases List.eq_nil_or_concat after with rfl | ⟨after, c, rfl⟩
    · obtain ⟨rfl, hab⟩ := List.append_inj' heq rfl
      cases hab
      exact .inl ⟨hkey, rfl⟩
    · rw [List.concat_eq_append, ← List.cons_append, ← List.append_assoc] at heq
      obtain ⟨rfl, hbc⟩ := List.append_inj' heq rfl
      cases hbc
      rw [List.concat_eq_append] at hafter
      refine .inr ⟨hafter b (List.mem_append_right _ List.mem_cons_self), hkey, before, after, rfl,
        fun c hc => hafter c (List.mem_append_left _ hc)⟩
  · rintro (⟨rfl, rfl⟩ | ⟨hb, hkey, before, after, rfl, hafter⟩)
    · exact ⟨rfl, as, [], rfl, nofun⟩
    · refine ⟨hkey, before, after ++ [b], by rw [List.append_assoc, List.cons_append], ?_⟩
      exact List.forall_mem_append.2 ⟨hafter, List.forall_mem_singleton.2 hb⟩

/-- Where no two go by one key, each is the last of its own. -/
theorem lastOf_iff_of_nodup (h : (as.map d.key).Nodup) : LastOf d as k a ↔ a ∈ as ∧ d.key a = k := by
  constructor
  · rintro ⟨hkey, before, after, rfl, -⟩
    exact ⟨List.mem_append_right _ List.mem_cons_self, hkey⟩
  · rintro ⟨ha, rfl⟩
    obtain ⟨before, after, rfl⟩ := List.append_of_mem ha
    refine ⟨rfl, before, after, rfl, fun b hb hkey => ?_⟩
    rw [List.map_append, List.map_cons] at h
    have hnew := (List.nodup_cons.1 (List.nodup_append.1 h).2.1).1
    exact hnew (List.mem_map.2 ⟨b, hb, hkey⟩)

theorem keys_putUse : (Linking.putUse k a us).map (·.1) =
    if k ∈ us.map (·.1) then us.map (·.1) else us.map (·.1) ++ [k] := by
  induction us with
  | nil => rfl
  | cons u us ih =>
    obtain ⟨l, b⟩ := u
    rw [Linking.putUse, List.map_cons]
    by_cases hl : l = k
    · simp [hl]
    · rw [if_neg (by simpa using hl), List.map_cons, ih]
      have hmem : k ∈ l :: us.map (·.1) ↔ k ∈ us.map (·.1) := by
        simp [Ne.symm hl]
      simp only [hmem]
      split
      · rfl
      · rfl

theorem mem_putUse_iff (h : (us.map (·.1)).Nodup) {u : Option String × AttributeId} :
    u ∈ Linking.putUse k a us ↔ u = (k, a) ∨ u.1 ≠ k ∧ u ∈ us := by
  induction us with
  | nil => simp [Linking.putUse]
  | cons v us ih =>
    obtain ⟨l, b⟩ := v
    rw [List.map_cons, List.nodup_cons] at h
    rw [Linking.putUse]
    by_cases hl : l = k
    · subst hl
      -- the rest of the list has no other attribute of the key
      have hrest : ∀ u ∈ us, u.1 ≠ l := fun u hu heq => h.1 (List.mem_map.2 ⟨u, hu, heq⟩)
      rw [if_pos (beq_self_eq_true l), List.mem_cons, List.mem_cons]
      constructor
      · rintro (rfl | hu)
        · exact .inl rfl
        · exact .inr ⟨hrest u hu, .inr hu⟩
      · rintro (rfl | ⟨hne, rfl | hu⟩)
        · exact .inl rfl
        · exact absurd rfl hne
        · exact .inr hu
    · rw [if_neg (by simpa using hl), List.mem_cons, List.mem_cons, ih h.2]
      constructor
      · rintro (rfl | rfl | ⟨hne, hu⟩)
        · exact .inr ⟨hl, .inl rfl⟩
        · exact .inl rfl
        · exact .inr ⟨hne, .inr hu⟩
      · rintro (rfl | ⟨hne, rfl | hu⟩)
        · exact .inr (.inl rfl)
        · exact .inl rfl
        · exact .inr (.inr ⟨hne, hu⟩)

end Keys

/-! ## Taking up one after the other -/

section Accounts

variable {d : Declarations} {as bs : List AttributeId} {us : Uses} {a : AttributeId}

/-- What is noted after the attributes `as`: for each key the last of it that is not prohibited. -/
structure Accounts (d : Declarations) (as : List AttributeId) (us : Uses) : Prop where
  nodup : (us.map (·.1)).Nodup
  mem_iff : ∀ k a, (k, a) ∈ us ↔ LastOf d as k a ∧ ¬ d.IsProhibited a

theorem addUse_eq (us : Uses) (a : AttributeId) : Linking.addUse d us a =
    if d.IsProhibited a then us.filter fun u => u.1 != d.key a
    else Linking.putUse (d.key a) a us := by
  unfold Linking.addUse
  by_cases h : d.IsProhibited a
  · rw [if_pos h]
    exact if_pos (beq_iff_eq.2 h)
  · rw [if_neg h]
    exact if_neg fun heq => h (eq_of_beq heq)

theorem Accounts.addUse (h : Accounts d as us) (a : AttributeId) :
    Accounts d (as ++ [a]) (Linking.addUse d us a) := by
  rw [addUse_eq]
  split
  · rename_i hpro
    refine ⟨h.nodup.sublist (List.filter_sublist.map _), fun k b => ?_⟩
    rw [List.mem_filter, h.mem_iff, lastOf_concat, bne_iff_ne]
    constructor
    · rintro ⟨⟨hlast, hb⟩, hne⟩
      exact ⟨.inr ⟨Ne.symm hne, hlast⟩, hb⟩
    · rintro ⟨⟨-, rfl⟩ | ⟨hne, hlast⟩, hb⟩
      · exact absurd hpro hb
      · exact ⟨⟨hlast, hb⟩, Ne.symm hne⟩
  · rename_i hpro
    refine ⟨?_, fun k b => ?_⟩
    · rw [keys_putUse]
      split
      · exact h.nodup
      · rename_i hnew
        exact List.concat_eq_append ▸ h.nodup.concat hnew
    · rw [mem_putUse_iff h.nodup, h.mem_iff, lastOf_concat, Prod.mk.injEq]
      constructor
      · rintro (⟨rfl, rfl⟩ | ⟨hne, hlast, hb⟩)
        · exact ⟨.inl ⟨rfl, rfl⟩, hpro⟩
        · exact ⟨.inr ⟨Ne.symm hne, hlast⟩, hb⟩
      · rintro ⟨⟨rfl, rfl⟩ | ⟨hne, hlast⟩, hb⟩
        · exact .inl ⟨rfl, rfl⟩
        · exact .inr ⟨Ne.symm hne, hlast, hb⟩

theorem Accounts.foldl (h : Accounts d as us) (bs : List AttributeId) :
    Accounts d (as ++ bs) (bs.foldl (Linking.addUse d) us) := by
  induction bs generalizing as us with
  | nil => rwa [List.append_nil]
  | cons b bs ih =>
    have hbs := ih (h.addUse b)
    rwa [List.append_assoc] at hbs

/-- What is noted at first: the attributes of the base, as they are. -/
theorem Accounts.start (hkeys : (as.map d.key).Nodup) (hallowed : ∀ a ∈ as, ¬ d.IsProhibited a) :
    Accounts d as (as.map fun a => (d.key a, a)) where
  nodup := by rwa [List.map_map]
  mem_iff k a := by
    rw [lastOf_iff_of_nodup hkeys, List.mem_map]
    constructor
    · rintro ⟨b, hb, heq⟩
      cases heq
      exact ⟨⟨hb, rfl⟩, hallowed a hb⟩
    · rintro ⟨⟨ha, rfl⟩, -⟩
      exact ⟨a, ha, rfl⟩

/-- Keys that no later attribute prohibits stay where they are, and all new ones come behind. -/
theorem keys_foldl_addUse (us : Uses) (bs : List AttributeId) :
    ((us.map (·.1)).filter fun k => ¬ Prohibits d bs k) <+:
      (bs.foldl (Linking.addUse d) us).map (·.1) := by
  induction bs generalizing us with
  | nil => simp [Prohibits]
  | cons b bs ih =>
    refine List.IsPrefix.trans ?_ (ih (Linking.addUse d us b))
    have hcons : ∀ k, Prohibits d (b :: bs) k ↔ d.key b = k ∧ d.IsProhibited b ∨ Prohibits d bs k :=
      fun k => List.exists_mem_cons_iff _ _ _
    rw [addUse_eq]
    split
    · rename_i hpro
      have hkeys : (us.filter fun u => u.1 != d.key b).map (·.1) =
          (us.map (·.1)).filter fun k => k != d.key b := by
        rw [List.filter_map]
        rfl
      have hsame : ∀ k, decide (¬ Prohibits d (b :: bs) k) =
          (decide (¬ Prohibits d bs k) && k != d.key b) := by
        intro k
        rw [Bool.eq_iff_iff, Bool.and_eq_true, decide_eq_true_iff, decide_eq_true_iff, bne_iff_ne,
          hcons, not_or, and_comm, ne_comm]
        exact and_congr_right fun _ => not_congr ⟨fun h => h.1, fun h => ⟨h, hpro⟩⟩
      simp only [hkeys, List.filter_filter, hsame]
      exact List.prefix_refl _
    · rename_i hpro
      have hsame : ∀ k, Prohibits d (b :: bs) k ↔ Prohibits d bs k := fun k =>
        (hcons k).trans (or_iff_right fun h => hpro h.2)
      simp only [hsame]
      refine List.IsPrefix.filter _ ?_
      rw [keys_putUse]
      split
      · exact List.prefix_refl _
      · exact List.prefix_append _ _

theorem effective_effectiveUses {before : List AttributeId} (hkeys : (before.map d.key).Nodup)
    (hallowed : ∀ a ∈ before, ¬ d.IsProhibited a) (declared : List AttributeId) :
    Effective d before declared (Linking.effectiveUses d before declared) := by
  have hend := (Accounts.start hkeys hallowed).foldl declared
  have horder := keys_foldl_addUse (d := d) (before.map fun a => (d.key a, a)) declared
  unfold Linking.effectiveUses
  change Effective d before declared ((declared.foldl (Linking.addUse d)
    (before.map fun a => (d.key a, a))).map (·.2))
  generalize declared.foldl (Linking.addUse d) (before.map fun a => (d.key a, a)) = us
    at hend horder
  have hkey : ∀ u ∈ us, d.key u.2 = u.1 := fun u hu => ((hend.mem_iff u.1 u.2).1 hu).1.1
  have hmap : (us.map (·.2)).map d.key = us.map (·.1) := by
    rw [List.map_map]
    exact List.map_congr_left hkey
  have hmem : ∀ a, a ∈ us.map (·.2) ↔ (d.key a, a) ∈ us := by
    intro a
    rw [List.mem_map]
    constructor
    · rintro ⟨u, hu, rfl⟩
      rw [hkey u hu]
      exact hu
    · exact fun ha => ⟨_, ha, rfl⟩
  constructor
  · rw [hmap]
    exact hend.nodup
  · exact fun a ha => ((hend.mem_iff _ a).1 ((hmem a).1 ha)).2
  · intro k a
    rw [hmem, ← hend.mem_iff]
    constructor
    · rintro ⟨ha, rfl⟩
      exact ha
    · intro ha
      have hk : d.key a = k := hkey _ ha
      exact ⟨hk ▸ ha, hk⟩
  · rw [hmap]
    rwa [List.map_map] at horder

end Accounts

/-! ## Along the bases -/

/-- What a type inherits: the attributes of its base, if that is complex and not built in. -/
def Declarations.inheritedUses (d : Declarations) (i : ComplexId) : List AttributeId :=
  match (d.complexType i).base with
  | some (.complex (.declared j)) => (d.complexType j).uses
  | _ => []

theorem inheritedUses_eq {d : Declarations} {i : ComplexId} {b : TypeRef}
    (h : (d.complexType i).base = some b) :
    d.inheritedUses i = ((Linking.inherited d b).map (·.uses)).getD [] := by
  unfold Declarations.inheritedUses
  rw [h]
  match b with
  | .simple _ => rfl
  | .complex .anyType => rfl
  | .complex (.declared j) => rfl

section Types

variable {s : SchemaSet} {d : Declarations} {i : ComplexId}

/-- By induction along the bases: the attributes of the base are effective themselves. -/
theorem Linked.effective (h : Linked s d) (hs : s.Closed) (hi : i < s.declared.complexTypes.size) :
    ∃ added, Declares s (s.declared.complexType i) added ∧
      Effective d (d.inheritedUses i) added (d.complexType i).uses := by
  have hends := h.derives i hi
  unfold Ends at hends
  induction hends with
  | intro i _ ih =>
    obtain ⟨b, own, added, hf⟩ := h.complex i hi
    have hgood : ((d.inheritedUses i).map d.key).Nodup ∧
        ∀ a ∈ d.inheritedUses i, ¬ d.IsProhibited a := by
      unfold Declarations.inheritedUses
      rw [hf.base]
      match b, hf with
      | .simple _, _ => exact ⟨.nil, nofun⟩
      | .complex .anyType, _ => exact ⟨.nil, nofun⟩
      | .complex (.declared j), hf =>
        obtain ⟨_, _, hj⟩ := ih j hf.named (hasType_of_complexBase? hs hf.named)
        exact ⟨hj.distinct, hj.allowed⟩
    refine ⟨added, declares_of_declaredUses hs hf.declared, ?_⟩
    rw [hf.uses, ← inheritedUses_eq hf.base, effectiveUses_congr fun a => (h.frame.attr a).symm]
    exact effective_effectiveUses hgood.1 hgood.2 added

theorem attribute_uses_effective (h : s.Loaded) (hi : i < s.declared.complexTypes.size) :
    ∃ added, Declares s (s.declared.complexType i) added ∧
      Effective s.declared (s.declared.inheritedUses i) added (s.declared.complexType i).uses := by
  obtain ⟨s₀, hs₀, hl, heq⟩ := h.isLinked
  obtain ⟨added, hadded, heffective⟩ := hl.effective hs₀ (hl.frame.complexTypes_size ▸ hi)
  refine ⟨added, ?_, heffective⟩
  have hdeclares := hl.frame.declares hadded
  rwa [← heq] at hdeclares

end Types

/-- The type `u` inherits `a` and `b`.  It prohibits `a` and has it again from the group `g`, which
refers to itself. -/
def overwritingText : String :=
  "<s:schema xmlns:s=\"" ++ xsSpace ++ "\"><s:attributeGroup name=\"g\"><s:attribute name=\"a\"/>" ++
    "<s:attributeGroup ref=\"g\"/></s:attributeGroup><s:complexType name=\"t\">" ++
    "<s:attribute name=\"a\"/><s:attribute name=\"b\"/></s:complexType>" ++
    "<s:complexType name=\"u\"><s:complexContent><s:extension base=\"t\">" ++
    "<s:attribute name=\"a\" use=\"prohibited\"/><s:attributeGroup ref=\"g\"/></s:extension>" ++
    "</s:complexContent></s:complexType></s:schema>"

def overwriting : SchemaSet := .ofText overwritingText

theorem overwriting_uses_effective : overwriting.Loaded ∧
    1 < overwriting.declared.complexTypes.size ∧
    (overwriting.declared.complexType 1).uses.map overwriting.declared.key = [some "b", some "a"] ∧
    ∃ added, Declares overwriting (overwriting.declared.complexType 1) added ∧
      Effective overwriting.declared (overwriting.declared.inheritedUses 1) added
        (overwriting.declared.complexType 1).uses := by
  have hfacts : (Loader.ofText overwritingText).2 = .ok () ∧
      1 < overwriting.declared.complexTypes.size ∧
      (overwriting.declared.complexType 1).uses.map overwriting.declared.key =
        [some "b", some "a"] := by
    rw [overwriting, SchemaSet.ofText_eq, Loader.ofText_eq]
    decide +kernel
  obtain ⟨hload, hi, hkeys⟩ := hfacts
  have hloaded : overwriting.Loaded := SchemaSet.loaded_ofText hload
  exact ⟨hloaded, hi, hkeys, attribute_uses_effective hloaded hi⟩

end Schema
end SchemaPaths
