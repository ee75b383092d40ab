/-
The walk finds the rows below a root.

`Adds s columns path m rows` says that a visit `m` inside the elements of `path` succeeds, comes back
to where it started and has added `rows` by then.
-/
import SchemaPaths.Proofs.Export.Rows

namespace SchemaPaths
namespace Export
namespace Paths

open Schema Walk

/-- The path that a walk keeps, innermost first. -/
def pathOf (s : SchemaSet) (path : List Particle) : List (Option String) :=
  ((names s path).map some).reverse

def Adds (s : SchemaSet) (columns : List String) (path : List Particle) (m : Visit Unit)
    (rows : List Row) : Prop :=
  ∀ st : State, st.path = pathOf s path →
    Ensures m st (fun _ st' => st'.path = st.path ∧
      st'.records.toList = st.records.toList ++ rows.map (Row.record s columns)) fun _ _ => False

variable {s : SchemaSet} {columns skip : List String} {outer path : List Particle} {x : Particle}
  {i : ElementId}

theorem names_append (p q : List Particle) : names s (p ++ q) = names s p ++ names s q :=
  List.map_append

theorem pathOf_snoc : pathOf s (path ++ [x]) = some (nameOf s x.1) :: pathOf s path := by
  simp [pathOf, names]

theorem names?_pathOf : names? (pathOf s path) = some (names s path) := by
  have hsome : ∀ l : List String, (l.map some).mapM id = some l := by
    intro l
    induction l with
    | nil => rfl
    | cons a l ih => simp [List.mapM_cons, ih]
  rw [names?, pathOf, List.reverse_reverse, hsome]

theorem head?_pathOf : ((pathOf s path).head?.map word).getD "" = (names s path).getLast?.getD "" := by
  rw [pathOf, List.head?_reverse, List.getLast?_map, Option.map_map]
  cases (names s path).getLast? <;> rfl

theorem contains_pathOf {n : String} : (pathOf s path).contains (some n) = true ↔ n ∈ names s path := by
  rw [List.contains_iff_mem, pathOf, List.mem_reverse]
  simp

/-! ## Putting visits together -/

theorem ensures_inside {name : Option String} {m : Visit Unit} {st : State}
    {ok : Unit → State → Prop} {bad : Failure → State → Prop}
    (h : Ensures m { st with path := name :: st.path }
      (fun a st' => ok a { st' with path := st'.path.tail })
      fun e st' => bad e { st' with path := st'.path.tail }) :
    Ensures (inside name m) st ok bad := by
  unfold Ensures at h ⊢
  rcases hm : m.run.run { st with path := name :: st.path } with ⟨outcome, st'⟩
  have hrun : (inside name m).run.run st = (outcome, { st' with path := st'.path.tail }) := by
    have hm : m { st with path := name :: st.path } = (outcome, st') := hm
    show inside name m st = _
    rw [inside, hm]
  rw [hm] at h
  rw [hrun]
  cases outcome <;> exact h

namespace Adds

variable {m m' : Visit Unit} {rows rows' : List Row}

theorem nothing : Adds s columns path (pure ()) [] := by
  intro st _
  refine ensures_pure.2 ⟨rfl, ?_⟩
  simp

theorem andThen (h : Adds s columns path m rows) (h' : Adds s columns path m' rows') :
    Adds s columns path (do m; m') (rows ++ rows') := by
  intro st hst
  refine (h st hst).bind fun _ st₁ hst₁ => ?_
  refine (h' st₁ (hst₁.1.trans hst)).mono (fun _ st₂ hst₂ => ?_) fun _ _ hb => hb
  refine ⟨hst₂.1.trans hst₁.1, ?_⟩
  rw [hst₂.2, hst₁.2, List.map_append, List.append_assoc]

theorem get {f : State → Visit Unit}
    (h : ∀ st, st.path = pathOf s path → Adds s columns path (f st) rows) :
    Adds s columns path (MonadState.get >>= f) rows :=
  fun st hst => ensures_bind.2 (ensures_get.2 (h st hst st hst))

theorem forM {α : Type} {l : List α} {f : α → Visit PUnit} {rows : α → List Row}
    (h : ∀ a ∈ l, Adds s columns path (f a) (rows a)) :
    Adds s columns path (l.forM f) (l.flatMap rows) := by
  induction l with
  | nil => exact nothing
  | cons a l ih =>
    rw [List.flatMap_cons]
    exact (h a List.mem_cons_self).andThen (ih fun b hb => h b (List.mem_cons_of_mem _ hb))

/-- A visit inside one more element comes back out of it. -/
theorem inside (h : Adds s columns (path ++ [x]) m rows) :
    Adds s columns path (Paths.inside (some (nameOf s x.1)) m) rows := by
  intro st hst
  have hbody := h { st with path := some (nameOf s x.1) :: st.path } (by rw [pathOf_snoc, ← hst])
  refine ensures_inside (hbody.mono (fun _ st' hst' => ⟨?_, hst'.2⟩) fun _ _ hb => hb)
  show st'.path.tail = st.path
  rw [hst'.1]
  rfl

end Adds

/-! ## Visiting attributes and elements -/

section Visits

theorem pathNames_eq {st : State} {ok : List String → State → Prop} {bad : Failure → State → Prop}
    (hst : st.path = pathOf s path) (h : ok (names s path) st) : Ensures pathNames st ok bad := by
  unfold pathNames
  refine ensures_bind.2 (ensures_get.2 ?_)
  rw [hst, names?_pathOf]
  exact ensures_pure.2 h

theorem adds_emit {r : Record} {row : Row} (h : r = row.record s columns) :
    Adds s columns path (emit r) [row] := by
  intro st _
  refine ensures_modify.2 ⟨rfl, ?_⟩
  simp [h]

theorem adds_say (n : Notice) : Adds s columns path (say n) [] := by
  intro st _
  refine ensures_modify.2 ⟨rfl, ?_⟩
  simp

theorem attributeMeant_eq (hw : s.Walkable) {a : AttributeId}
    (ha : a < s.declared.attributes.size) :
    attributeMeant s (s.declared.attr a) = pure (attrMeant s a) := by
  unfold attributeMeant attrMeant
  rcases href : (s.declared.attr a).ref with _ | q
  · rfl
  · obtain ⟨b, hb⟩ := Option.isSome_iff_exists.1 (hw.attr a ha q href)
    simp only [hb]
    rfl

theorem adds_visitAttribute (hw : s.Walkable) {a : AttributeId}
    (ha : a < s.declared.attributes.size) :
    Adds s columns path (visitAttribute s { skip, columns } a)
      (if skips skip (attrMeant s a).name then [] else [.attr path a]) := by
  unfold visitAttribute
  dsimp only
  rw [attributeMeant_eq hw ha, pure_bind]
  by_cases hskip : skips skip (attrMeant s a).name
  · rw [if_pos hskip, show isSkipped { skip, columns } (attrMeant s a).name = true from hskip]
    exact .nothing
  · rw [if_neg hskip, if_neg (show ¬ isSkipped { skip, columns } (attrMeant s a).name from hskip)]
    intro st hst
    refine ensures_bind.2 (pathNames_eq hst ?_)
    refine ensures_bind.2 (ensures_get.2 ?_)
    refine adds_emit ?_ st hst
    rw [hst, head?_pathOf]
    rfl

theorem adds_type (hw : s.Walkable) {visit : ElementId → Visit Unit} {below : Particle → List Row}
    (h : ∀ y : Particle, y.1 < s.declared.elements.size →
      Adds s columns path (visit y.1) (below y)) (t : TypeRef) :
    Adds s columns path ((steps s [] (.type t)).forM (perform s { skip, columns } visit))
      (typeRows s skip below path t) := by
  have hplaces : (leavesOf s.declared t).map Step.element =
      (leavesOf s.declared t).zipIdx.map fun y => Step.element y.1 := by
    rw [← List.zipIdx_map_fst 0 (leavesOf s.declared t), List.map_map, List.zipIdx_map_fst]
    rfl
  have hrows : ((usesOf s.declared t).filter fun a => !skips skip (attrMeant s a).name).map
      (Row.attr path) = (usesOf s.declared t).flatMap fun a =>
        if skips skip (attrMeant s a).name then [] else [.attr path a] := by
    induction usesOf s.declared t with
    | nil => rfl
    | cons a as ih =>
      rw [List.flatMap_cons, ← ih, List.filter_cons]
      by_cases hskip : skips skip (attrMeant s a).name <;> simp [hskip]
  rw [steps_type hw, hplaces, List.forM_eq_forM, List.forM_append, List.forM_map, List.forM_map,
    typeRows, hrows]
  refine .andThen (.forM fun y hy => h y ?_) (.forM fun a ha => ?_)
  · exact lt_of_mem_leavesOf hw.closed (List.mem_of_getElem? (List.mem_zipIdx_iff_getElem?.1 hy))
  · exact adds_visitAttribute hw (lt_of_mem_usesOf hw.closed ha)

end Visits

/-! ## Visiting elements -/

section Elements

theorem meantId_lt (hw : s.Walkable) (hi : i < s.declared.elements.size) :
    meantId s i < s.declared.elements.size := by
  unfold meantId
  rcases href : (s.declared.element i).ref with _ | q
  · exact hi
  · obtain ⟨j, hj⟩ := Option.isSome_iff_exists.1 (hw.ref i hi q href)
    simp only [hj, Option.getD_some]
    exact elementId_lt hw.closed hj

theorem elementMeant_eq (hw : s.Walkable) (hi : i < s.declared.elements.size) :
    elementMeant s (s.declared.element i) = pure (meant s i) := by
  unfold elementMeant meant meantId
  rcases href : (s.declared.element i).ref with _ | q
  · rfl
  · obtain ⟨j, hj⟩ := Option.isSome_iff_exists.1 (hw.ref i hi q href)
    simp only [hj]
    rfl

/-- The elements that a walk is inside of are declared and go by different names. -/
structure Inside (s : SchemaSet) (outer : List Particle) : Prop where
  lt : ∀ x ∈ outer, x.1 < s.declared.elements.size
  nodup : (names s outer).Nodup

theorem Inside.start : Inside s [] := ⟨nofun, .nil⟩

theorem Inside.snoc (h : Inside s outer) (hx : x.1 < s.declared.elements.size)
    (hnew : nameOf s x.1 ∉ names s outer) : Inside s (outer ++ [x]) where
  lt y hy := (List.mem_append.1 hy).elim (h.lt y) fun hy => List.mem_singleton.1 hy ▸ hx
  nodup := by
    rw [names_append, List.nodup_append]
    refine ⟨h.nodup, List.nodup_singleton _, fun a ha b hb hab => ?_⟩
    have hb : b = nameOf s x.1 := List.mem_singleton.1 hb
    rw [hab, hb] at ha
    exact hnew ha

/-- Different names come from different declarations, so there are no more than are declared. -/
theorem Inside.length_le (hw : s.Walkable) (h : Inside s outer) :
    outer.length ≤ s.declared.elements.size := by
  have hnames : names s outer =
      (outer.map fun x => meantId s x.1).map fun j => word (s.declared.element j).name := by
    rw [List.map_map]
    rfl
  have hnodup : (outer.map fun x => meantId s x.1).Nodup := .of_map _ (hnames ▸ h.nodup)
  have hlt : ∀ j ∈ outer.map fun x => meantId s x.1, j < s.declared.elements.size := by
    intro j hj
    obtain ⟨x, hx, rfl⟩ := List.mem_map.1 hj
    exact meantId_lt hw (h.lt x hx)
  simpa using length_le_of_nodup hnodup hlt

theorem name_meant (hw : s.Walkable) (hn : s.Named) (hi : i < s.declared.elements.size) :
    (meant s i).name = some (nameOf s i) := by
  obtain ⟨n, hname⟩ := Option.isSome_iff_exists.1 (hn _ (meantId_lt hw hi))
  rw [nameOf, show (meant s i).name = some n from hname]
  rfl

theorem skips_meant (hw : s.Walkable) (hn : s.Named) (hi : i < s.declared.elements.size) :
    skips skip (meant s i).name = skip.contains (nameOf s i) := by
  rw [name_meant hw hn hi]
  rfl

theorem skips_eq_false (hw : s.Walkable) (hn : s.Named) {i : ElementId}
    (hi : i < s.declared.elements.size) :
    skips skip (meant s i).name = false ↔ nameOf s i ∉ skip := by
  rw [skips_meant hw hn hi, List.contains_eq_mem, decide_eq_false_iff_not]

theorem adds_emitElement {e : Element} {t : TypeRef} (he : e = meant s x.1) (ht : e.type = some t) :
    Adds s columns (path ++ [x])
      (emitElement s.declared { skip, columns } (s.declared.element x.1).occurs e t)
      [.element ⟨path, x⟩] := by
  intro st hst
  unfold emitElement
  refine ensures_bind.2 (pathNames_eq hst ?_)
  refine ensures_bind.2 (ensures_get.2 ?_)
  refine adds_emit ?_ st hst
  subst he
  rw [hst, pathOf_snoc, List.tail_cons, head?_pathOf]
  simp only [Row.record, Chain.record, ht]
  rfl

theorem adds_reportRecursion (n : Option String) :
    Adds s columns path (reportRecursion n) [] := by
  intro st hst
  unfold reportRecursion
  exact ensures_bind.2 (pathNames_eq hst (adds_say _ st hst))

theorem adds_visitFrom (hw : s.Walkable) (hn : s.Named) (fuel : Nat) :
    ∀ (outer : List Particle) (x : Particle), Inside s outer → x.1 < s.declared.elements.size →
      s.declared.elements.size < fuel + outer.length →
      Adds s columns outer (visitFrom s { skip, columns } fuel x.1)
        (rowsFrom s skip fuel outer x) := by
  induction fuel with
  | zero =>
    intro outer x houter _ hfuel
    have := houter.length_le hw
    omega
  | succ fuel ih =>
    intro outer x houter hx hfuel
    have hname := name_meant hw hn hx
    unfold visitFrom rowsFrom
    dsimp only
    rw [elementMeant_eq hw hx, pure_bind, hname]
    by_cases hskip : skips skip (some (nameOf s x.1))
    · have hpassed : skips skip (some (nameOf s x.1)) || (names s outer).contains (nameOf s x.1) := by
        rw [hskip, Bool.true_or]
      rw [if_pos (show isSkipped { skip, columns } (some (nameOf s x.1)) = true from hskip),
        if_pos hpassed]
      exact .nothing
    · rw [if_neg (show ¬ isSkipped { skip, columns } (some (nameOf s x.1)) = true from hskip)]
      refine .get fun st hst => ?_
      rw [hst]
      by_cases hmet : nameOf s x.1 ∈ names s outer
      · have hpassed : skips skip (some (nameOf s x.1)) || (names s outer).contains (nameOf s x.1) := by
          rw [List.contains_iff_mem.2 hmet, Bool.or_true]
        rw [if_pos (contains_pathOf.2 hmet), if_pos hpassed]
        exact (adds_reportRecursion _).andThen .nothing
      · have hentered :
            ¬ (skips skip (some (nameOf s x.1)) || (names s outer).contains (nameOf s x.1)) := by
          simpa using ⟨Bool.eq_false_iff.2 hskip, hmet⟩
        rw [if_neg fun h => hmet (contains_pathOf.1 h), if_neg hentered]
        have hroom : s.declared.elements.size < fuel + (outer ++ [x]).length := by
          rw [List.length_append, List.length_singleton]
          omega
        have hinner := houter.snoc hx hmet
        have htype : ∀ t, Adds s columns (outer ++ [x])
            ((steps s [] (.type t)).forM
              (perform s { skip, columns } (visitFrom s { skip, columns } fuel)))
            (typeRows s skip (rowsFrom s skip fuel (outer ++ [x])) (outer ++ [x]) t) :=
          adds_type hw fun y hy => ih (outer ++ [x]) y hinner hy hroom
        refine .inside ?_
        rcases hinline : (meant s x.1).inline with _ | t
        · rcases htyped : (meant s x.1).type with _ | t
          · have hnone : ¬ HasRow s x.1 := by simp [HasRow, htyped]
            rw [if_neg hnone, resolvedType, hinline, htyped]
            exact .nothing
          · have hrow : HasRow s x.1 := ⟨hinline, by rw [htyped]; rfl⟩
            rw [if_pos hrow, resolvedType, hinline, htyped]
            refine (adds_emitElement rfl htyped).andThen ?_
            rw [Option.none_or, Option.toList_some, List.flatMap_singleton]
            exact htype t
        · have hnone : ¬ HasRow s x.1 := by simp [HasRow, hinline]
          rw [if_neg hnone, resolvedType, hinline, Option.some_or, Option.toList_some,
            List.flatMap_singleton, List.nil_append]
          exact htype t

end Elements

/-! ## Roots -/

section Roots

/-- An element or a type that a name leads to. -/
def IsGlobal (s : SchemaSet) : Root → Prop
  | .element e => ∃ q, s.element? q = some e
  | .type t => ∃ q, s.type? q = some t

theorem adds_visit (hw : s.Walkable) (hn : s.Named) {root : Root} (hr : IsGlobal s root) :
    Adds s columns [] (visit s { skip, columns } root.node) (rowsBelow s skip root) := by
  have hbelow : ∀ y : Particle, y.1 < s.declared.elements.size →
      Adds s columns [] (visitElement s { skip, columns } y.1)
        (rowsFrom s skip (s.declared.elements.size + 1) [] y) :=
    fun y hy => adds_visitFrom hw hn _ [] y .start hy (by simp)
  cases root with
  | element e =>
    obtain ⟨q, hq⟩ := hr
    have hone := (hbelow (e, 0) (elementId_lt hw.closed hq)).andThen .nothing
    rw [List.append_nil] at hone
    show Adds s columns [] ((steps s [] (.element e)).forM _) _
    rw [steps_element]
    exact hone
  | type t => exact adds_type hw hbelow t

/-- An export succeeds and writes the rows below its root, in their order. -/
theorem fromRoot_rows (hw : s.Walkable) (hn : s.Named) {root : Root} (hr : IsGlobal s root) :
    (fromRoot s { skip, columns } root.node).2 = .ok () ∧
      (fromRoot s { skip, columns } root.node).1.records.toList =
        (rowsBelow s skip root).map (Row.record s columns) := by
  have hvisit : Adds s columns [] (visitRoot s { skip, columns } root.node) (rowsBelow s skip root) := by
    rw [← List.append_nil (rowsBelow s skip root)]
    exact (adds_visit hw hn hr).andThen (.get fun st _ => adds_say _)
  have hrun := hvisit {} rfl
  unfold Ensures at hrun
  unfold fromRoot
  split at hrun
  · rename_i u st heq
    rw [heq]
    refine ⟨rfl, ?_⟩
    rw [hrun.2]
    rfl
  · exact hrun.elim

end Roots
end Paths
end Export
end SchemaPaths
