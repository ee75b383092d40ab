/-
Skipping is leaving rows out.

What is skipped is passed over with all it holds, and nothing else changes: the rows that are left
are the ones of the whole export that do not mention what is skipped.
-/
import SchemaPaths.Proofs.Export.Visiting

namespace SchemaPaths
namespace Export
namespace Paths

open Schema Walk

/-- The name of the attribute that a row is for, if it is for one that has a name. -/
def Row.attrName? (s : SchemaSet) : Row → Option String
  | .element _ => none
  | .attr _ a => (attrMeant s a).name

/-- Neither an element on the path of a row nor the attribute it is for is skipped. -/
def avoids (s : SchemaSet) (skip : List String) (row : Row) : Bool :=
  (names s row.path).all (fun n => !skip.contains n) && !skips skip (row.attrName? s)

variable {s : SchemaSet} {skip : List String} {path outer : List Particle} {x : Particle}

theorem skips_nil (name : Option String) : skips [] name = false := by
  cases name <;> rfl

theorem avoids_of_path (hpath : ∀ n ∈ names s path, n ∉ skip) {row : Row} (hrow : row.path = path) :
    avoids s skip row = !skips skip (row.attrName? s) := by
  have hall : (names s row.path).all (fun n => !skip.contains n) = true := by
    rw [hrow, List.all_eq_true]
    intro n hn
    simpa using hpath n hn
  rw [avoids, hall, Bool.true_and]

theorem not_avoids {row : Row} {n : String} (hn : n ∈ names s row.path) (hskip : n ∈ skip) :
    avoids s skip row = false := by
  have hall : (names s row.path).all (fun n => !skip.contains n) = false := by
    rw [List.all_eq_false]
    exact ⟨n, hn, by simpa using hskip⟩
  rw [avoids, hall, Bool.false_and]

theorem typeRows_filter (hs : s.Closed) {below whole : Particle → List Row}
    (h : ∀ y : Particle, y.1 < s.declared.elements.size →
      below y = (whole y).filter (avoids s skip))
    (hpath : ∀ n ∈ names s path, n ∉ skip) (t : TypeRef) :
    typeRows s skip below path t = (typeRows s [] whole path t).filter (avoids s skip) := by
  have helements : (leavesOf s.declared t).zipIdx.flatMap below =
      ((leavesOf s.declared t).zipIdx.flatMap whole).filter (avoids s skip) := by
    rw [List.filter_flatMap]
    refine List.flatMap_congr fun y hy => h y ?_
    exact lt_of_mem_leavesOf hs (List.mem_of_getElem? (List.mem_zipIdx_iff_getElem?.1 hy))
  have hattrs : ∀ as : List AttributeId,
      (as.filter fun a => !skips skip (attrMeant s a).name).map (Row.attr path) =
        ((as.filter fun a => !skips [] (attrMeant s a).name).map (Row.attr path)).filter
          (avoids s skip) := by
    intro as
    rw [List.filter_map]
    congr 1
    rw [List.filter_filter]
    refine List.filter_congr fun a _ => ?_
    rw [skips_nil, Function.comp_apply, avoids_of_path hpath rfl]
    simp [Row.attrName?]
  rw [typeRows, typeRows, List.filter_append, helements, hattrs]

/-- Nothing is left of the rows from an element that is skipped. -/
theorem filter_rowsFrom_of_mem {fuel : Nat} (hskip : nameOf s x.1 ∈ skip) :
    (rowsFrom s [] fuel outer x).filter (avoids s skip) = [] := by
  rw [List.filter_eq_nil_iff]
  intro row hrow
  obtain ⟨p, hp, -⟩ := path_of_mem_rowsFrom hrow
  have hmem : nameOf s x.1 ∈ names s row.path := by
    rw [hp, names_append]
    exact List.mem_append_right _ List.mem_cons_self
  rw [not_avoids hmem hskip]
  exact Bool.false_ne_true

theorem rowsFrom_filter (hw : s.Walkable) (hn : s.Named) (fuel : Nat) :
    ∀ (outer : List Particle) (x : Particle), x.1 < s.declared.elements.size →
      (∀ n ∈ names s outer, n ∉ skip) →
      rowsFrom s skip fuel outer x = (rowsFrom s [] fuel outer x).filter (avoids s skip) := by
  induction fuel with
  | zero => exact fun _ _ _ _ => rfl
  | succ fuel ih =>
    intro outer x hx houter
    by_cases hskip : nameOf s x.1 ∈ skip
    · have hskips : skips skip (meant s x.1).name = true := by
        rw [skips_meant hw hn hx]
        exact List.contains_iff_mem.2 hskip
      rw [filter_rowsFrom_of_mem hskip, rowsFrom, hskips, Bool.true_or, if_pos rfl]
    · rw [rowsFrom, rowsFrom, (skips_eq_false hw hn hx).2 hskip, skips_nil]
      by_cases hmet : (false || (names s outer).contains (nameOf s x.1)) = true
      · rw [if_pos hmet, if_pos hmet]
        rfl
      · rw [if_neg hmet, if_neg hmet]
        have hpath : ∀ n ∈ names s (outer ++ [x]), n ∉ skip := by
          intro n hmem
          rw [names_append, List.mem_append] at hmem
          rcases hmem with hmem | hmem
          · exact houter n hmem
          · rw [List.mem_singleton.1 hmem]
            exact hskip
        have hown : (if HasRow s x.1 then [Row.element ⟨outer, x⟩] else []) =
            (if HasRow s x.1 then [Row.element ⟨outer, x⟩] else []).filter (avoids s skip) := by
          have htrue : avoids s skip (.element ⟨outer, x⟩) = true := avoids_of_path hpath rfl
          split
          · rw [List.filter_singleton, htrue]
            rfl
          · rfl
        dsimp only
        rw [List.filter_append, ← hown, List.filter_flatMap]
        congr 1
        refine List.flatMap_congr fun t _ => ?_
        exact typeRows_filter hw.closed (fun y hy => ih (outer ++ [x]) y hy hpath) hpath t

theorem rowsBelow_filter (hw : s.Walkable) (hn : s.Named) {root : Root} (hr : IsGlobal s root) :
    rowsBelow s skip root = (rowsBelow s [] root).filter (avoids s skip) := by
  have hstart : ∀ n ∈ names s [], n ∉ skip := fun n hmem => (List.not_mem_nil hmem).elim
  have hfrom : ∀ x : Particle, x.1 < s.declared.elements.size →
      rowsFrom s skip (s.declared.elements.size + 1) [] x =
        (rowsFrom s [] (s.declared.elements.size + 1) [] x).filter (avoids s skip) :=
    fun x hx => rowsFrom_filter hw hn _ [] x hx hstart
  cases root with
  | element e =>
    obtain ⟨q, hq⟩ := hr
    exact hfrom (e, 0) (elementId_lt hw.closed hq)
  | type t => exact typeRows_filter hw.closed hfrom hstart t

/-- Of the rows of a whole export, the export that skips has those that avoid what is skipped, in
the same order and with the same fields. -/
theorem skipping_is_filtering (h : s.Loaded) (hn : s.Named) {root : Root} (hr : IsGlobal s root) :
    ∃ rows : List Row, (∀ row ∈ rows, Follows s (startOf s root) row.path) ∧
      ∀ columns,
        ((fromRoot s { skip := [], columns } root.node).2 = .ok () ∧
          (fromRoot s { skip := [], columns } root.node).1.records.toList =
            rows.map (Row.record s columns)) ∧
        ∀ skip, (fromRoot s { skip, columns } root.node).2 = .ok () ∧
          (fromRoot s { skip, columns } root.node).1.records.toList =
            (rows.filter (avoids s skip)).map (Row.record s columns) := by
  have hw := h.isLinked.walkable
  refine ⟨rowsBelow s [] root, fun row hrow => follows_of_mem_rowsBelow hrow, fun columns => ?_⟩
  refine ⟨fromRoot_rows hw hn hr, fun skip => ?_⟩
  rw [← rowsBelow_filter hw hn hr]
  exact fromRoot_rows hw hn hr

theorem nested_skipping : nested.Loaded ∧ nested.Named ∧ IsGlobal nested (.element 0) ∧
    ∃ rows : List Row, (∀ row ∈ rows, Follows nested [0] row.path) ∧
      ∀ columns,
        ((fromRoot nested { skip := [], columns } (.element 0)).2 = .ok () ∧
          (fromRoot nested { skip := [], columns } (.element 0)).1.records.toList =
            rows.map (Row.record nested columns)) ∧
        ∀ skip, (fromRoot nested { skip, columns } (.element 0)).2 = .ok () ∧
          (fromRoot nested { skip, columns } (.element 0)).1.records.toList =
            (rows.filter (avoids nested skip)).map (Row.record nested columns) := by
  obtain ⟨-, hn, ha⟩ := nested_facts
  have hr : IsGlobal nested (.element 0) := ⟨_, ha⟩
  exact ⟨nested_loaded, hn, hr, skipping_is_filtering nested_loaded hn hr⟩

end Paths
end Export
end SchemaPaths
