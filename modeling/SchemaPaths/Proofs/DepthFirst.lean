/-
Walking depth first.

A walk takes the things of a list in turn.  It passes over one whose place is known; any other it
takes up, and before it goes on with the list it walks through what follows from that one.  What is
taken up, in this order, is the way of the walk.  Several things may have the same place, and the
first of them to come is the one that is taken up.
-/
import Mathlib.Data.List.Nodup
import Mathlib.Logic.Relation

namespace SchemaPaths

open Relation

variable {α κ : Type}

/-- A walk through a list that knows the places `seen` takes up the things of a way, in its order. -/
inductive DepthFirst (place : α → κ) (next : α → List α) : List κ → List α → List α → Prop
  | done (seen : List κ) : DepthFirst place next seen [] []
  | pass {seen : List κ} {a : α} {rest way : List α} (known : place a ∈ seen)
      (on : DepthFirst place next seen rest way) : DepthFirst place next seen (a :: rest) way
  | take {seen : List κ} {a : α} {rest below way : List α} (fresh : place a ∉ seen)
      (down : DepthFirst place next (seen ++ [place a]) (next a) below)
      (on : DepthFirst place next (seen ++ (a :: below).map place) rest way) :
      DepthFirst place next seen (a :: rest) (a :: below ++ way)

namespace DepthFirst

variable {place : α → κ} {next : α → List α} {seen : List κ} {l l' way way' : List α}

theorem unique (h : DepthFirst place next seen l way) (h' : DepthFirst place next seen l way') :
    way = way' := by
  induction h generalizing way' with
  | done => cases h'; rfl
  | pass known _ ih =>
    cases h' with
    | pass _ on => exact ih on
    | take fresh => exact absurd known fresh
  | take fresh _ _ ihdown ihon =>
    cases h' with
    | pass known => exact absurd known fresh
    | take _ down on =>
      cases ihdown down
      rw [ihon on]

/-- Two lists one after the other: the second walk knows what the first has taken up. -/
theorem append (h : DepthFirst place next seen l way)
    (h' : DepthFirst place next (seen ++ way.map place) l' way') :
    DepthFirst place next seen (l ++ l') (way ++ way') := by
  induction h with
  | done seen =>
    rw [List.map_nil, List.append_nil] at h'
    exact h'
  | pass known _ ih => exact .pass known (ih h')
  | @take seen a rest below way fresh down _ _ ih =>
    rw [List.append_assoc]
    refine .take fresh down (ih ?_)
    rwa [List.append_assoc, ← List.map_append]

/-- A walk through two lists is one through the first and one through the second. -/
theorem split (h : DepthFirst place next seen (l ++ l') way) :
    ∃ first second, way = first ++ second ∧ DepthFirst place next seen l first ∧
      DepthFirst place next (seen ++ first.map place) l' second := by
  generalize hwhole : l ++ l' = whole at h
  induction h generalizing l with
  | done seen =>
    obtain ⟨rfl, rfl⟩ := List.append_eq_nil_iff.1 hwhole
    exact ⟨[], [], rfl, .done _, .done _⟩
  | @pass seen a rest way known on ih =>
    cases l with
    | nil =>
      refine ⟨[], way, rfl, .done _, ?_⟩
      rw [List.map_nil, List.append_nil, ← List.nil_append l', hwhole]
      exact .pass known on
    | cons b l =>
      obtain ⟨rfl, hrest⟩ := List.cons.inj hwhole
      obtain ⟨first, second, rfl, hfirst, hsecond⟩ := ih hrest
      exact ⟨first, second, rfl, .pass known hfirst, hsecond⟩
  | @take seen a rest below way fresh down on _ ih =>
    cases l with
    | nil =>
      refine ⟨[], _, rfl, .done _, ?_⟩
      rw [List.map_nil, List.append_nil, ← List.nil_append l', hwhole]
      exact .take fresh down on
    | cons b l =>
      obtain ⟨rfl, hrest⟩ := List.cons.inj hwhole
      obtain ⟨first, second, rfl, hfirst, hsecond⟩ := ih hrest
      refine ⟨b :: below ++ first, second, (List.append_assoc _ _ _).symm, .take fresh down hfirst, ?_⟩
      rwa [List.map_append, ← List.append_assoc]

theorem single {a : α} {below : List α} (fresh : place a ∉ seen)
    (down : DepthFirst place next (seen ++ [place a]) (next a) below) :
    DepthFirst place next seen [a] (a :: below) := by
  have h := take fresh down (.done _)
  rwa [List.append_nil] at h

/-- Every place on the list is known in the end. -/
theorem covers (h : DepthFirst place next seen l way) :
    ∀ a ∈ l, place a ∈ seen ++ way.map place := by
  induction h with
  | done => exact nofun
  | pass known _ ih =>
    rintro a (_ | ⟨_, ha⟩)
    · exact List.mem_append_left _ known
    · exact ih a ha
  | @take seen b rest below way _ _ _ _ ih =>
    rintro a (_ | ⟨_, ha⟩)
    · exact List.mem_append_right _ (List.mem_cons_self)
    · have := ih a ha
      rwa [List.append_assoc, ← List.map_append] at this

/-- So is every place that follows from what was taken up. -/
theorem closed (h : DepthFirst place next seen l way) :
    ∀ a ∈ way, ∀ b ∈ next a, place b ∈ seen ++ way.map place := by
  induction h with
  | done => exact nofun
  | pass _ _ ih => exact ih
  | @take seen a rest below way _ down _ ihdown ihon =>
    have hdown : ∀ k ∈ (seen ++ [place a]) ++ below.map place,
        k ∈ seen ++ (a :: below ++ way).map place := by
      intro k hk
      rw [List.append_assoc] at hk
      rw [List.map_append, ← List.append_assoc]
      exact List.mem_append_left _ hk
    intro c hc b hb
    rcases List.mem_append.1 hc with hc | hc
    · rcases List.mem_cons.1 hc with rfl | hc
      · exact hdown _ (down.covers b hb)
      · exact hdown _ (ihdown c hc b hb)
    · have := ihon c hc b hb
      rwa [List.append_assoc, ← List.map_append] at this

/-- Whatever is taken up follows from the list. -/
theorem reached (h : DepthFirst place next seen l way) :
    ∀ a ∈ way, ∃ b ∈ l, ReflTransGen (fun x y => y ∈ next x) b a := by
  induction h with
  | done => exact nofun
  | pass _ _ ih =>
    intro a ha
    obtain ⟨b, hb, hba⟩ := ih a ha
    exact ⟨b, List.mem_cons_of_mem _ hb, hba⟩
  | @take seen c rest below way _ _ _ ihdown ihon =>
    intro a ha
    rcases List.mem_append.1 ha with ha | ha
    · refine ⟨c, List.mem_cons_self, ?_⟩
      rcases List.mem_cons.1 ha with rfl | ha
      · exact .refl
      · obtain ⟨b, hb, hba⟩ := ihdown a ha
        exact .head hb hba
    · obtain ⟨b, hb, hba⟩ := ihon a ha
      exact ⟨b, List.mem_cons_of_mem _ hb, hba⟩

/-- What is taken up stands on the list or follows from something else that is taken up. -/
theorem mem_next (h : DepthFirst place next seen l way) :
    ∀ a ∈ way, a ∈ l ∨ ∃ b ∈ way, a ∈ next b := by
  induction h with
  | done => exact nofun
  | pass _ _ ih => exact fun a ha => (ih a ha).imp_left (List.mem_cons_of_mem _)
  | @take seen c rest below way _ _ _ ihdown ihon =>
    intro a ha
    rcases List.mem_append.1 ha with ha | ha
    · rcases List.mem_cons.1 ha with rfl | ha
      · exact .inl List.mem_cons_self
      · rcases ihdown a ha with ha | ⟨b, hb, hab⟩
        · exact .inr ⟨c, List.mem_append_left _ List.mem_cons_self, ha⟩
        · exact .inr ⟨b, List.mem_append_left _ (List.mem_cons_of_mem _ hb), hab⟩
    · rcases ihon a ha with ha | ⟨b, hb, hab⟩
      · exact .inl (List.mem_cons_of_mem _ ha)
      · exact .inr ⟨b, List.mem_append_right _ hb, hab⟩

/-- The places on a way that begins with nothing known are those that can be reached. -/
theorem mem_places_iff {R : κ → κ → Prop} (hR : ∀ a k, R (place a) k ↔ ∃ b ∈ next a, place b = k)
    {a : α} (h : DepthFirst place next [] [a] way) (k : κ) :
    k ∈ way.map place ↔ ReflTransGen R (place a) k := by
  constructor
  · intro hk
    obtain ⟨b, hb, rfl⟩ := List.mem_map.1 hk
    obtain ⟨c, hc, hcb⟩ := h.reached b hb
    obtain rfl := List.mem_singleton.1 hc
    exact hcb.lift place fun x y hy => (hR x _).2 ⟨y, hy, rfl⟩
  · intro hk
    induction hk with
    | refl => exact h.covers a (List.mem_singleton_self a)
    | tail _ hstep ih =>
      obtain ⟨b, hb, rfl⟩ := List.mem_map.1 ih
      obtain ⟨c, hc, rfl⟩ := (hR b _).1 hstep
      exact h.closed b hb c hc

end DepthFirst
end SchemaPaths
