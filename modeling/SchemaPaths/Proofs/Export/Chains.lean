/-
The chains that an export has rows for.

The rows of elements are those of the admissible chains, one for each, and they come in the order in
which the elements stand in their contents, with every element before the ones below it.
-/
import SchemaPaths.Proofs.Export.Visiting

namespace SchemaPaths
namespace Export
namespace Paths

open Schema Walk

/-- The chains that an export promises a row for. -/
structure Admissible (s : SchemaSet) (start : List ElementId) (skip : List String) (c : Chain) :
    Prop where
  follows : Follows s start c.particles
  distinct : (names s c.particles).Nodup
  kept : ∀ n ∈ names s c.particles, n ∉ skip
  typed : HasRow s c.last.1

variable {s : SchemaSet} {skip : List String} {fuel : Nat} {outer path : List Particle}
  {x : Particle} {c : Chain}

namespace Chain

theorem particles_ne_nil : c.particles ≠ [] := by
  simp [particles]

theorem eq_of_particles (h : c.particles = outer ++ [x]) : c = ⟨outer, x⟩ := ext_particles h

end Chain

/-! ## Which chains have rows -/

/-- A chain leads on from an element inside the elements of `outer`, and all it meets from there on
may be met. -/
structure LeadsOn (s : SchemaSet) (skip : List String) (outer : List Particle) (x : Particle)
    (c : Chain) (p : List Particle) : Prop where
  particles : c.particles = outer ++ x :: p
  follows : Follows s (childrenOf s x.1) p
  distinct : (names s c.particles).Nodup
  kept : ∀ n ∈ names s (x :: p), n ∉ skip
  typed : HasRow s c.last.1

namespace LeadsOn

variable {y : Particle} {p : List Particle}

theorem new (h : LeadsOn s skip outer x c p) : nameOf s x.1 ∉ names s outer := by
  have hdistinct := h.distinct
  rw [h.particles, names_append, List.nodup_append] at hdistinct
  exact fun hmem => hdistinct.2.2 _ hmem _ List.mem_cons_self rfl

theorem particles_snoc (h : LeadsOn s skip (outer ++ [x]) y c p) :
    c.particles = outer ++ x :: y :: p := by
  rw [h.particles, List.append_assoc]
  rfl

/-- A chain that leads on from a member of the content of an element leads on from that. -/
theorem up (h : LeadsOn s skip (outer ++ [x]) y c p) (hplace : (childrenOf s x.1)[y.2]? = some y.1)
    (hkept : nameOf s x.1 ∉ skip) : LeadsOn s skip outer x c (y :: p) where
  particles := h.particles_snoc
  follows := ⟨hplace, h.follows⟩
  distinct := h.distinct
  kept := List.forall_mem_cons.2 ⟨hkept, h.kept⟩
  typed := h.typed

theorem down (h : LeadsOn s skip outer x c (y :: p)) :
    (childrenOf s x.1)[y.2]? = some y.1 ∧ LeadsOn s skip (outer ++ [x]) y c p := by
  refine ⟨h.follows.1, ?_, h.follows.2, h.distinct, ?_, h.typed⟩
  · rw [h.particles, List.append_assoc]
    rfl
  · exact fun n hn => h.kept n (List.mem_cons_of_mem _ hn)

end LeadsOn

/-- Chains that have rows lead on from where the rows were found. -/
theorem leadsOn_of_mem_rowsFrom (hw : s.Walkable) (hn : s.Named) (fuel : Nat) :
    ∀ (outer : List Particle) (x : Particle), Inside s outer → x.1 < s.declared.elements.size →
      .element c ∈ rowsFrom s skip fuel outer x → ∃ p, LeadsOn s skip outer x c p := by
  induction fuel with
  | zero =>
    intro outer x _ _ hrow
    cases hrow
  | succ fuel ih =>
    intro outer x houter hx hrow
    rw [mem_rowsFrom_succ, skips_eq_false hw hn hx] at hrow
    obtain ⟨⟨hkept, hnew⟩, ⟨hrow, heq⟩ | ⟨t, htype, hrows⟩⟩ := hrow
    · cases heq
      refine ⟨[], rfl, trivial, (houter.snoc hx hnew).nodup, fun n hmem => ?_, hrow⟩
      rw [List.mem_singleton.1 hmem]
      exact hkept
    · obtain ⟨y, hplace, hy⟩ | ⟨a, -, -, heq⟩ := mem_typeRows.1 hrows
      · have hlt := lt_of_mem_leavesOf hw.closed (List.mem_of_getElem? hplace)
        obtain ⟨p, hp⟩ := ih (outer ++ [x]) y (houter.snoc hx hnew) hlt hy
        rw [← childrenOf_eq htype] at hplace
        exact ⟨y :: p, hp.up hplace hkept⟩
      · cases heq

/-- Chains that lead on have rows, where there is fuel for all that is declared. -/
theorem mem_rowsFrom_of_leadsOn (hw : s.Walkable) (hn : s.Named) (fuel : Nat) :
    ∀ (outer : List Particle) (x : Particle) (p : List Particle), Inside s outer →
      x.1 < s.declared.elements.size → s.declared.elements.size < fuel + outer.length →
      LeadsOn s skip outer x c p → .element c ∈ rowsFrom s skip fuel outer x := by
  induction fuel with
  | zero =>
    intro outer x p houter _ hfuel _
    have := houter.length_le hw
    omega
  | succ fuel ih =>
    intro outer x p houter hx hfuel h
    have hkept : nameOf s x.1 ∉ skip := h.kept _ List.mem_cons_self
    rw [mem_rowsFrom_succ, skips_eq_false hw hn hx]
    refine ⟨⟨hkept, h.new⟩, ?_⟩
    cases p with
    | nil =>
      obtain rfl := Chain.eq_of_particles h.particles
      exact .inl ⟨h.typed, rfl⟩
    | cons y p =>
      obtain ⟨hplace, hbelow⟩ := h.down
      rcases htype : resolvedType s x.1 with _ | t
      · rw [childrenOf, htype] at hplace
        cases hplace
      · rw [childrenOf_eq htype] at hplace
        have hlt := lt_of_mem_leavesOf hw.closed (List.mem_of_getElem? hplace)
        have hroom : s.declared.elements.size < fuel + (outer ++ [x]).length := by
          rw [List.length_append, List.length_singleton]
          omega
        have hrow := ih (outer ++ [x]) y p (houter.snoc hx h.new) hlt hroom hbelow
        exact .inr ⟨t, rfl, mem_typeRows.2 (.inl ⟨y, hplace, hrow⟩)⟩

/-- The rows that begin at one of the elements of `start` are for its admissible chains. -/
theorem admissible_iff (hw : s.Walkable) (hn : s.Named) {start : List ElementId}
    (hlt : ∀ e ∈ start, e < s.declared.elements.size) :
    Admissible s start skip c ↔ ∃ x : Particle, start[x.2]? = some x.1 ∧
      .element c ∈ rowsFrom s skip (s.declared.elements.size + 1) [] x := by
  constructor
  · rintro ⟨hfollows, hdistinct, hkept, htyped⟩
    obtain ⟨x, p, hp⟩ := List.exists_cons_of_ne_nil c.particles_ne_nil
    rw [hp] at hfollows hkept
    have hx := hlt _ (List.mem_of_getElem? hfollows.1)
    have hleads : LeadsOn s skip [] x c p := ⟨hp, hfollows.2, hdistinct, hkept, htyped⟩
    exact ⟨x, hfollows.1, mem_rowsFrom_of_leadsOn hw hn _ [] x p .start hx (by simp) hleads⟩
  · rintro ⟨x, hplace, hrow⟩
    have hx := hlt _ (List.mem_of_getElem? hplace)
    obtain ⟨p, h⟩ := leadsOn_of_mem_rowsFrom hw hn _ [] x .start hx hrow
    have hp : c.particles = x :: p := h.particles
    exact ⟨hp ▸ ⟨hplace, h.follows⟩, h.distinct, hp ▸ h.kept, h.typed⟩

theorem mem_rowsBelow_iff (hw : s.Walkable) (hn : s.Named) {root : Root} (hr : IsGlobal s root) :
    .element c ∈ rowsBelow s skip root ↔ Admissible s (startOf s root) skip c := by
  cases root with
  | element e =>
    obtain ⟨q, hq⟩ := hr
    have hlt := elementId_lt hw.closed hq
    rw [startOf, admissible_iff hw hn fun e' he' => List.mem_singleton.1 he' ▸ hlt]
    constructor
    · exact fun hrow => ⟨(e, 0), rfl, hrow⟩
    · rintro ⟨⟨e', place⟩, hplace, hrow⟩
      obtain ⟨rfl, rfl⟩ : place = 0 ∧ e = e' := by
        simpa [List.getElem?_singleton] using hplace
      exact hrow
  | type t =>
    rw [startOf, admissible_iff hw hn fun e he => lt_of_mem_leavesOf hw.closed he]
    refine mem_typeRows.trans ⟨fun hrow => ?_, .inl⟩
    obtain hrow | ⟨a, -, -, heq⟩ := hrow
    · exact hrow
    · cases heq

/-! ## In which order -/

/-- Of the chains that two rows are for, the first stands before the second. -/
def Row.Before (a b : Row) : Prop :=
  ∀ c ∈ a.chain?, ∀ d ∈ b.chain?, c.positions < d.positions

theorem positions_of_chain? {row : Row} (h : row.chain? = some c) :
    c.positions = row.path.map (·.2) := by
  cases row with
  | element d =>
    cases h
    rfl
  | attr => cases h

theorem pairwise_places (l : List ElementId) : l.zipIdx.Pairwise fun y z => y.2 < z.2 := by
  have hplaces : (l.zipIdx.map Prod.snd).Pairwise (· < ·) := by
    rw [List.zipIdx_map_snd]
    exact List.pairwise_lt_range'
  exact List.pairwise_map.1 hplaces

/-- Rows below an element come before rows below an element that stands after it. -/
theorem before_of_places {a b : Row} {y z : Particle} {p q : List Particle} (hyz : y.2 < z.2)
    (ha : a.path = path ++ y :: p) (hb : b.path = path ++ z :: q) : a.Before b := by
  intro c hc d hd
  rw [positions_of_chain? hc, positions_of_chain? hd, ha, hb, List.map_append, List.map_append]
  exact List.append_left_lt (List.cons_lt_cons_iff.2 (.inl hyz))

theorem typeRows_pairwise {below : Particle → List Row} (hrows : ∀ y, (below y).Pairwise Row.Before)
    (hpath : ∀ y, ∀ row ∈ below y, ∃ p, row.path = path ++ y :: p) (t : TypeRef) :
    (typeRows s skip below path t).Pairwise Row.Before := by
  rw [typeRows, List.pairwise_append]
  refine ⟨?_, ?_, ?_⟩
  · rw [List.pairwise_flatMap]
    refine ⟨fun y _ => hrows y, (pairwise_places _).imp fun hyz a ha b hb => ?_⟩
    obtain ⟨p, hp⟩ := hpath _ a ha
    obtain ⟨q, hq⟩ := hpath _ b hb
    exact before_of_places hyz hp hq
  · rw [List.pairwise_map]
    refine List.pairwise_of_forall fun _ _ _ hc => ?_
    cases hc
  · intro a _ b hb c _ d hd
    obtain ⟨_, -, rfl⟩ := List.mem_map.1 hb
    cases hd

theorem rowsFrom_pairwise (fuel : Nat) : ∀ (outer : List Particle) (x : Particle),
    (rowsFrom s skip fuel outer x).Pairwise Row.Before := by
  induction fuel with
  | zero => exact fun _ _ => .nil
  | succ fuel ih =>
    intro outer x
    rw [rowsFrom]
    split
    · exact .nil
    · have hpath : ∀ y, ∀ row ∈ rowsFrom s skip fuel (outer ++ [x]) y,
          ∃ p, row.path = (outer ++ [x]) ++ y :: p := by
        intro y row hrow
        obtain ⟨p, hp, -⟩ := path_of_mem_rowsFrom hrow
        exact ⟨p, hp⟩
      dsimp only
      rw [List.pairwise_append]
      refine ⟨?_, ?_, ?_⟩
      · split
        · exact List.pairwise_singleton _ _
        · exact .nil
      · rcases resolvedType s x.1 with _ | t
        · exact .nil
        · rw [Option.toList_some, List.flatMap_singleton]
          exact typeRows_pairwise (ih (outer ++ [x])) hpath t
      · -- the row of an element comes before all that is below it
        intro a ha b hb c hc d hd
        obtain ⟨t, -, hb⟩ := List.mem_flatMap.1 hb
        obtain ⟨y, -, hy⟩ | ⟨_, -, -, rfl⟩ := mem_typeRows.1 hb
        · obtain ⟨p, hp⟩ := hpath y b hy
          have ha : a = .element ⟨outer, x⟩ := by
            split at ha
            · exact List.mem_singleton.1 ha
            · cases ha
          cases ha
          cases hc
          rw [positions_of_chain? hd, hp, List.map_append]
          show List.map (·.2) (outer ++ [x]) < _
          conv_lhs => rw [← List.append_nil (List.map _ _)]
          exact List.append_left_lt (List.nil_lt_cons _ _)
        · cases hd

theorem rowsBelow_pairwise (root : Root) : (rowsBelow s skip root).Pairwise Row.Before := by
  cases root with
  | element e => exact rowsFrom_pairwise _ [] (e, 0)
  | type t =>
    refine typeRows_pairwise (rowsFrom_pairwise _ []) (fun y row hrow => ?_) t
    obtain ⟨p, hp, -⟩ := path_of_mem_rowsFrom hrow
    exact ⟨p, hp⟩

/-! ## The chains of an export -/

theorem filter_records (columns : List String) (rows : List Row) :
    ((rows.map (Row.record s columns)).filter fun r => !r.isAttribute) =
      (rows.filterMap Row.chain?).map (Chain.record s columns) := by
  induction rows with
  | nil => rfl
  | cons row rows ih =>
    cases row with
    | element c =>
      have hchain : (Row.element c :: rows).filterMap Row.chain? = c :: rows.filterMap Row.chain? := rfl
      rw [hchain, List.map_cons, List.map_cons, ← ih]
      exact List.filter_cons_of_pos rfl
    | attr path a =>
      have hchain : (Row.attr path a :: rows).filterMap Row.chain? = rows.filterMap Row.chain? := rfl
      rw [hchain, List.map_cons, ← ih]
      exact List.filter_cons_of_neg Bool.false_ne_true

/-- An export writes exactly the admissible chains, each once, every element before what is below it
and what stands first before what stands after it. -/
theorem elementRecords_eq_admissible (h : s.Loaded) (hn : s.Named) {root : Root}
    (hr : IsGlobal s root) (skip columns : List String) :
    ∃ chains : List Chain, (∀ c, c ∈ chains ↔ Admissible s (startOf s root) skip c) ∧
      chains.Pairwise (fun c d => c.positions < d.positions) ∧
      (fromRoot s { skip, columns } root.node).2 = .ok () ∧
      ((fromRoot s { skip, columns } root.node).1.records.toList.filter fun r => !r.isAttribute) =
        chains.map (Chain.record s columns) := by
  have hw := h.isLinked.walkable
  obtain ⟨hok, hrecords⟩ := @fromRoot_rows s columns skip hw hn root hr
  refine ⟨(rowsBelow s skip root).filterMap Row.chain?, fun c => ?_, ?_, hok, ?_⟩
  · rw [← mem_rowsBelow_iff hw hn hr, List.mem_filterMap]
    constructor
    · rintro ⟨row, hrow, hc⟩
      cases row with
      | element d =>
        cases hc
        exact hrow
      | attr => cases hc
    · exact fun hrow => ⟨.element c, hrow, rfl⟩
  · rw [List.pairwise_filterMap]
    exact (rowsBelow_pairwise root).imp fun hbefore c hc d hd => hbefore c hc d hd
  · rw [hrecords, filter_records]

theorem nested_elementRecords : nested.Loaded ∧ nested.Named ∧ IsGlobal nested (.element 0) ∧
    ∃ chains : List Chain, (∀ c, c ∈ chains ↔ Admissible nested [0] ["c"] c) ∧
      chains.Pairwise (fun c d => c.positions < d.positions) ∧
      (fromRoot nested { skip := ["c"] } (.element 0)).2 = .ok () ∧
      ((fromRoot nested { skip := ["c"] } (.element 0)).1.records.toList.filter
        fun r => !r.isAttribute) = chains.map (Chain.record nested []) := by
  obtain ⟨-, hn, ha⟩ := nested_facts
  have hr : IsGlobal nested (.element 0) := ⟨_, ha⟩
  exact ⟨nested_loaded, hn, hr, elementRecords_eq_admissible nested_loaded hn hr ["c"] []⟩

end Paths
end Export
end SchemaPaths
