/-
Going from thing to thing along a relation: going on for ever, and coming to an end.

Types have bases, groups refer to groups and elements have heads, and all of them are known by their
places, so there are finitely many.  Where every way down from a place comes to an end, `rank` counts
the places below it; it falls at each step and bounds the fuel that a walk needs.
-/
import Mathlib.Data.Finset.Card
import Mathlib.Data.Finset.Range
import Mathlib.Data.List.Range
import Mathlib.Data.List.Perm.Subperm
import Mathlib.Logic.Relation
import Mathlib.Order.WellFounded

namespace SchemaPaths

open Relation

variable {α : Type} {R : α → α → Prop} {a b : α}

/-- There is a way from `a` on that never ends. -/
def Endless (R : α → α → Prop) (a : α) : Prop :=
  ∃ way : Nat → α, way 0 = a ∧ ∀ n, R (way n) (way (n + 1))

/-- Every way from `a` on comes to an end. -/
def Ends (R : α → α → Prop) (a : α) : Prop := Acc (fun y x => R x y) a

theorem ends_iff_not_endless : Ends R a ↔ ¬ Endless R a := by
  unfold Ends Endless
  rw [acc_iff_isEmpty_descending_chain, isEmpty_subtype, not_exists]

theorem Ends.step (h : Ends R a) (hab : R a b) : Ends R b := h.inv hab

theorem Ends.intro (h : ∀ b, R a b → Ends R b) : Ends R a := Acc.intro a h

theorem Ends.not_cycle (h : Ends R a) : ¬ TransGen R a a := by
  intro hc
  have hw : Acc (TransGen fun y x => R x y) a := Acc.transGen h
  have hself : ∀ x, Acc (TransGen fun y x => R x y) x → ¬ TransGen R x x := by
    intro x hx
    induction hx with
    | intro x _ ih => exact fun hxx => ih x (transGen_swap.2 hxx) hxx
  exact hself a hw hc

theorem endless_of_cycle (h : TransGen R a a) : Endless R a := by
  by_contra hn
  exact (ends_iff_not_endless.2 hn).not_cycle h

theorem Ends.steps (h : Ends R a) (hab : ReflTransGen R a b) : Ends R b := by
  induction hab with
  | refl => exact h
  | tail _ hbc ih => exact ih.step hbc

theorem Endless.of_steps (h : Endless R b) (hab : ReflTransGen R a b) : Endless R a := by
  by_contra hn
  exact ends_iff_not_endless.1 ((ends_iff_not_endless.2 hn).steps hab) h

theorem Endless.map {β : Type} {S : β → β → Prop} {f : α → β} (hf : ∀ a b, R a b → S (f a) (f b))
    (h : Endless R a) : Endless S (f a) := by
  obtain ⟨way, rfl, hway⟩ := h
  exact ⟨fun n => f (way n), rfl, fun n => hf _ _ (hway n)⟩

/-- Where there is one way on at most, it is enough that this one comes to an end. -/
theorem Ends.of_step (hdet : ∀ c, R a c → c = b) (h : Ends R b) : Ends R a :=
  Ends.intro fun c hc => hdet c hc ▸ h

/-! ## Places -/

section Places

variable {R : Nat → Nat → Prop} {i j n : Nat}

open Classical in
/-- The number of places below `n` that lie further on. -/
noncomputable def rank (R : Nat → Nat → Prop) (n i : Nat) : Nat :=
  ((Finset.range n).filter fun j => TransGen R i j).card

theorem rank_lt_rank (hi : Ends R i) (hij : R i j) (hj : j < n) : rank R n j < rank R n i := by
  classical
  apply Finset.card_lt_card
  refine ⟨fun k hk => ?_, fun hsub => ?_⟩
  · rw [Finset.mem_filter] at hk ⊢
    exact ⟨hk.1, .head hij hk.2⟩
  · have hmem : j ∈ (Finset.range n).filter fun k => TransGen R i k :=
      Finset.mem_filter.2 ⟨Finset.mem_range.2 hj, .single hij⟩
    have hback := (Finset.mem_filter.1 (hsub hmem)).2
    exact (hi.step hij).not_cycle hback

theorem rank_lt (hi : Ends R i) (hin : i < n) : rank R n i < n := by
  classical
  calc rank R n i
      < (Finset.range n).card := by
        apply Finset.card_lt_card
        refine ⟨Finset.filter_subset _ _, fun hsub => ?_⟩
        exact hi.not_cycle (Finset.mem_filter.1 (hsub (Finset.mem_range.2 hin))).2
    _ = n := Finset.card_range n

/-- There are no more than `n` different places below `n`. -/
theorem length_le_of_nodup {l : List Nat} (h : l.Nodup) (hl : ∀ i ∈ l, i < n) : l.length ≤ n := by
  have hsub : l ⊆ List.range n := fun i hi => List.mem_range.2 (hl i hi)
  simpa using (h.subperm hsub).length_le

/-- The places met on the way to `i`: they differ, they lie below `n`, and each leads to `i`. -/
structure Above (R : Nat → Nat → Prop) (n : Nat) (met : List Nat) (i : Nat) : Prop where
  nodup : met.Nodup
  lt : ∀ k ∈ met, k < n
  way : ∀ k ∈ met, TransGen R k i

theorem Above.start : Above R n [] i := ⟨.nil, nofun, nofun⟩

theorem Above.down {met : List Nat} (h : Above R n met i) (hi : i < n) (hnew : i ∉ met)
    (hij : R i j) : Above R n (i :: met) j where
  nodup := List.nodup_cons.2 ⟨hnew, h.nodup⟩
  lt k hk := (List.mem_cons.1 hk).elim (fun e => e ▸ hi) (h.lt k)
  way k hk := (List.mem_cons.1 hk).elim (fun e => e ▸ .single hij) fun hk => (h.way k hk).tail hij

theorem Above.length_le {met : List Nat} (h : Above R n met i) : met.length ≤ n :=
  length_le_of_nodup h.nodup h.lt

end Places
end SchemaPaths
