/-
What a computation that may fail comes to.

Reading, linking, walking and loading all keep a state and may stop early with a failure, the state
then being kept as it is.  `Ensures m s ok bad` says of such a computation, started in `s`, what
holds of its result and state when it succeeds and what holds of its failure and state when it does
not.  One rule for each way of putting computations together is all that proofs about them need.
-/
import Mathlib.Data.List.Basic

namespace SchemaPaths

/-- What succeeds has succeeded at first. -/
theorem exists_of_bind {ε α β : Type} {r : Except ε α} {f : α → Except ε β} {b : β}
    (h : r >>= f = .ok b) : ∃ a, r = .ok a ∧ f a = .ok b := by
  cases r with
  | error => cases h
  | ok a => exact ⟨a, rfl, h⟩

def Ensures {ε σ α : Type} (m : ExceptT ε (StateM σ) α) (s : σ) (ok : α → σ → Prop)
    (bad : ε → σ → Prop) : Prop :=
  match m.run.run s with
  | (.ok a, t) => ok a t
  | (.error e, t) => bad e t

section Rules

variable {ε σ α β : Type} {ok ok' : α → σ → Prop} {bad bad' : ε → σ → Prop} {s : σ}

theorem ensures_pure {a : α} :
    Ensures (pure a : ExceptT ε (StateM σ) α) s ok bad ↔ ok a s := Iff.rfl

theorem ensures_throw {e : ε} :
    Ensures (throw e : ExceptT ε (StateM σ) α) s ok bad ↔ bad e s := Iff.rfl

theorem ensures_get {ok : σ → σ → Prop} :
    Ensures (get : ExceptT ε (StateM σ) σ) s ok bad ↔ ok s s := Iff.rfl

theorem ensures_modify {f : σ → σ} {ok : PUnit → σ → Prop} :
    Ensures (modify f : ExceptT ε (StateM σ) PUnit) s ok bad ↔ ok ⟨⟩ (f s) := Iff.rfl

theorem ensures_modifyGet {f : σ → α × σ} :
    Ensures (modifyGet f : ExceptT ε (StateM σ) α) s ok bad ↔ ok (f s).1 (f s).2 := Iff.rfl

theorem ensures_bind {m : ExceptT ε (StateM σ) α} {f : α → ExceptT ε (StateM σ) β}
    {ok : β → σ → Prop} :
    Ensures (m >>= f) s ok bad ↔ Ensures m s (fun a t => Ensures (f a) t ok bad) bad := by
  simp only [Ensures, ExceptT.run_bind, StateT.run_bind]
  rcases m.run.run s with ⟨_ | a, t⟩
  · exact Iff.rfl
  · exact Iff.rfl

theorem ensures_map {m : ExceptT ε (StateM σ) α} {f : α → β} {ok : β → σ → Prop} :
    Ensures (f <$> m) s ok bad ↔ Ensures m s (fun a t => ok (f a) t) bad := by
  rw [map_eq_pure_bind, ensures_bind]
  rfl

theorem ensures_any {m : ExceptT ε (StateM σ) α} :
    Ensures m s (fun _ _ => True) fun _ _ => True := by
  unfold Ensures
  split <;> trivial

theorem Ensures.mono {m : ExceptT ε (StateM σ) α} (h : Ensures m s ok bad)
    (hok : ∀ a t, ok a t → ok' a t) (hbad : ∀ e t, bad e t → bad' e t) :
    Ensures m s ok' bad' := by
  unfold Ensures at *
  split at h
  · exact hok _ _ h
  · exact hbad _ _ h

theorem Ensures.and {m : ExceptT ε (StateM σ) α} (h : Ensures m s ok bad)
    (h' : Ensures m s ok' bad') :
    Ensures m s (fun a t => ok a t ∧ ok' a t) fun e t => bad e t ∧ bad' e t := by
  unfold Ensures at *
  split <;> rename_i heq
  · rw [heq] at h h'
    exact ⟨h, h'⟩
  · rw [heq] at h h'
    exact ⟨h, h'⟩

/-- A computation that cannot fail has a result. -/
theorem Ensures.exists_ok {m : ExceptT ε (StateM σ) α} (h : Ensures m s ok fun _ _ => False) :
    ∃ a t, ok a t ∧ ∀ {ok' : α → σ → Prop} {bad' : ε → σ → Prop},
      Ensures m s ok' bad' ↔ ok' a t := by
  unfold Ensures at *
  split at h
  · rename_i a t heq
    exact ⟨a, t, h, Iff.rfl⟩
  · exact h.elim

/-- The rule for putting one computation behind another. -/
theorem Ensures.bind {m : ExceptT ε (StateM σ) α} {f : α → ExceptT ε (StateM σ) β}
    {ok' : β → σ → Prop} (h : Ensures m s ok bad)
    (hf : ∀ a t, ok a t → Ensures (f a) t ok' bad) : Ensures (m >>= f) s ok' bad :=
  ensures_bind.2 (h.mono hf fun _ _ hb => hb)

/-- A list worked through: `done` is what holds once some of its members are dealt with. -/
theorem ensures_forM {f : α → ExceptT ε (StateM σ) PUnit} (done : List α → σ → Prop)
    {l : List α} (h : done [] s)
    (step : ∀ before a after t, l = before ++ a :: after → done before t →
      Ensures (f a) t (fun _ t' => done (before ++ [a]) t') bad) :
    Ensures (l.forM f) s (fun _ t => done l t) bad := by
  suffices ∀ before after t, l = before ++ after → done before t →
      Ensures (after.forM f) t (fun _ t' => done l t') bad from this [] l s rfl h
  intro before after
  induction after generalizing before with
  | nil =>
    intro t hl ht
    rw [List.append_nil] at hl
    change done l t
    rw [hl]
    exact ht
  | cons a after ih =>
    intro t hl ht
    change Ensures (f a >>= fun _ => after.forM f) t _ _
    refine (step before a after t hl ht).bind fun _ t' ht' => ?_
    exact ih (before ++ [a]) t' (by rw [hl, List.append_assoc]; rfl) ht'

end Rules
end SchemaPaths
