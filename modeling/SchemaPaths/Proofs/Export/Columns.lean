/-
The columns of an export.

The header leaves out each additional column that goes by the name of a fixed one; the rows of
elements have a field for it all the same.  So the rows line up with the header exactly if there is
no such column.
-/
import SchemaPaths.Export.Csv
import SchemaPaths.Proofs.Graph.Searching
import SchemaPaths.Proofs.Traversal

namespace SchemaPaths

open Schema

/-! ## Names without repeats -/

/-- Names are collected as the nodes of a graph are. -/
theorem Schema.distinct_eq (l : List String) : distinct l = l.foldl Graph.addNew [] := rfl

theorem Schema.mem_distinct {l : List String} {a : String} : a ∈ distinct l ↔ a ∈ l := by
  rw [distinct_eq, Graph.mem_foldl_addNew]
  exact or_iff_right List.not_mem_nil

/-- Names that differ, from each other and from what is there already, are all added. -/
theorem Schema.foldl_addNew_of_nodup {l before : List String} (h : (before ++ l).Nodup) :
    l.foldl Graph.addNew before = before ++ l := by
  induction l generalizing before with
  | nil => exact (List.append_nil before).symm
  | cons a l ih =>
    have hsplit : before ++ a :: l = before ++ [a] ++ l := by simp
    rw [hsplit] at h ⊢
    have hnew : a ∉ before := by
      have hdisjoint := (List.nodup_append.1 (List.nodup_append.1 h).1).2.2
      exact fun ha => hdisjoint a ha a (List.mem_singleton_self a) rfl
    have hadd : Graph.addNew before a = before ++ [a] := by simp [Graph.addNew, hnew]
    rw [List.foldl_cons, hadd]
    exact ih h

theorem Schema.distinct_of_nodup {l : List String} (h : l.Nodup) : distinct l = l :=
  foldl_addNew_of_nodup h

theorem Schema.distinct_distinct (l : List String) : distinct (distinct l) = distinct l :=
  distinct_of_nodup (Graph.nodup_foldl_addNew .nil)

/-- Added behind others, names without repeats are those of them that are not among the others. -/
theorem Schema.foldl_addNew_filter (first l before : List String) :
    l.foldl Graph.addNew (first ++ before.filter (!first.contains ·)) =
      first ++ (l.foldl Graph.addNew before).filter (!first.contains ·) := by
  induction l generalizing before with
  | nil => rfl
  | cons a l ih =>
    rw [List.foldl_cons, List.foldl_cons, ← ih]
    congr 1
    unfold Graph.addNew
    by_cases hfirst : a ∈ first
    · by_cases hbefore : a ∈ before <;> simp [hfirst, hbefore]
    · by_cases hbefore : a ∈ before <;> simp [hfirst, hbefore]

namespace Export

/-! ## The header -/

/-- The additional columns that the header has. -/
def newColumns (columns : List String) : List String :=
  (distinct columns).filter (!fixedColumns.contains ·)

/-- The additional columns that go by the name of a fixed one. -/
def takenColumns (columns : List String) : List String :=
  (distinct columns).filter fixedColumns.contains

theorem header_eq (columns : List String) : header columns = fixedColumns ++ newColumns columns := by
  have hfixed : fixedColumns.foldl Graph.addNew [] = fixedColumns := by decide
  rw [header, distinct_eq, List.foldl_append, hfixed]
  exact foldl_addNew_filter fixedColumns columns []

theorem header_distinct (columns : List String) : header (distinct columns) = header columns := by
  rw [header_eq, header_eq, newColumns, newColumns, distinct_distinct]

theorem length_columns (columns : List String) :
    (distinct columns).length = (newColumns columns).length + (takenColumns columns).length := by
  have hsplit : (distinct columns).length = ((distinct columns).filter fixedColumns.contains).length +
      ((distinct columns).filter (!fixedColumns.contains ·)).length :=
    List.length_eq_length_filter_add fixedColumns.contains
  unfold newColumns takenColumns
  omega

theorem takenColumns_eq_nil {columns : List String} :
    takenColumns columns = [] ↔ ∀ k ∈ columns, k ∉ fixedColumns := by
  simp [takenColumns, mem_distinct]

theorem newColumns_of_taken {columns : List String} (h : takenColumns columns = []) :
    newColumns columns = distinct columns := by
  rw [newColumns, List.filter_eq_self]
  intro k hk
  have hnot : ¬ fixedColumns.contains k := List.filter_eq_nil_iff.1 h k hk
  simpa using hnot

namespace Paths

open Walk

/-! ## Rows that were written -/

variable {s : SchemaSet} {columns skip : List String} {start here : List ElementId}
  {path : List Particle}

/-- The row of some chain that leads down from the start, or one for an attribute. -/
def Traced (s : SchemaSet) (columns : List String) (start : List ElementId) (st : State) : Prop :=
  ∀ r ∈ st.records, r.isAttribute = false →
    ∃ c : Chain, Follows s start c.particles ∧ r = c.record s columns

/-- The path that a walk keeps, where some elements may be without a name. -/
def keptPath (s : SchemaSet) (path : List Particle) : List (Option String) :=
  (path.map fun x => (meant s x.1).name).reverse

/-- A visit inside the elements of a path writes rows of chains only, also when it fails. -/
def Traces (s : SchemaSet) (columns : List String) (start : List ElementId) (path : List Particle)
    (m : Visit Unit) : Prop :=
  ∀ st : State, st.path = keptPath s path → Traced s columns start st →
    Ensures m st (fun _ st' => st'.path = st.path ∧ Traced s columns start st')
      fun _ st' => Traced s columns start st'

theorem keptPath_snoc {x : Particle} :
    keptPath s (path ++ [x]) = (meant s x.1).name :: keptPath s path := by
  simp [keptPath]

/-- A path without an unnamed element is made of the names. -/
theorem names_of_keptPath {ns : List String} (h : names? (keptPath s path) = some ns) :
    keptPath s path = pathOf s path ∧ ns = names s path := by
  have hnames : ∀ (l : List Particle) (ns : List String),
      (l.map fun x => (meant s x.1).name).mapM id = some ns →
        (l.map fun x => (meant s x.1).name) = (names s l).map some ∧ ns = names s l := by
    intro l
    induction l with
    | nil =>
      intro ns hns
      cases hns
      exact ⟨rfl, rfl⟩
    | cons x l ih =>
      intro ns hns
      rw [List.map_cons, List.mapM_cons] at hns
      obtain ⟨n, hn, hns⟩ := Option.bind_eq_some_iff.1 hns
      obtain ⟨ns', hns', heq⟩ := Option.bind_eq_some_iff.1 hns
      cases heq
      obtain ⟨hl, rfl⟩ := ih ns' hns'
      have hword : nameOf s x.1 = n := by rw [nameOf, show (meant s x.1).name = some n from hn]; rfl
      refine ⟨?_, by rw [← hword]; rfl⟩
      rw [List.map_cons, hl, show (meant s x.1).name = some n from hn, ← hword]
      rfl
  rw [names?, keptPath, List.reverse_reverse] at h
  obtain ⟨hpath, hns⟩ := hnames path ns h
  exact ⟨by rw [keptPath, hpath, pathOf], hns⟩

namespace Traces

variable {m m' : Visit Unit}

theorem nothing : Traces s columns start path (pure ()) := fun _ _ h => ensures_pure.2 ⟨rfl, h⟩

theorem fails (f : Failure) : Traces s columns start path (throw f) := fun _ _ h => ensures_throw.2 h

theorem andThen (h : Traces s columns start path m) (h' : Traces s columns start path m') :
    Traces s columns start path (do m; m') := by
  intro st hst htraced
  refine (h st hst htraced).bind fun _ st₁ h₁ => ?_
  refine (h' st₁ (h₁.1.trans hst) h₁.2).mono (fun _ st₂ h₂ => ?_) fun _ _ hb => hb
  exact ⟨h₂.1.trans h₁.1, h₂.2⟩

theorem get {f : State → Visit Unit} (h : ∀ st, Traces s columns start path (f st)) :
    Traces s columns start path (MonadState.get >>= f) :=
  fun st hst htraced => ensures_bind.2 (ensures_get.2 (h st st hst htraced))

/-- What needs the names of the path goes on only if every element on it has one. -/
theorem named {f : List String → Visit Unit}
    (h : ∀ st, st.path = pathOf s path → Traced s columns start st →
      Ensures (f (names s path)) st (fun _ st' => st'.path = st.path ∧ Traced s columns start st')
        fun _ st' => Traced s columns start st') :
    Traces s columns start path (pathNames >>= f) := by
  intro st hst htraced
  unfold pathNames
  refine ensures_bind.2 (ensures_bind.2 (ensures_get.2 ?_))
  rcases hns : names? st.path with _ | ns
  · exact ensures_throw.2 htraced
  · rw [hst] at hns
    obtain ⟨hpath, rfl⟩ := names_of_keptPath hns
    exact ensures_pure.2 (h st (hst.trans hpath) htraced)

theorem forM {α : Type} {l : List α} {f : α → Visit PUnit}
    (h : ∀ a ∈ l, Traces s columns start path (f a)) : Traces s columns start path (l.forM f) := by
  induction l with
  | nil => exact nothing
  | cons a l ih =>
    exact (h a List.mem_cons_self).andThen (ih fun b hb => h b (List.mem_cons_of_mem _ hb))

theorem inside {x : Particle} (h : Traces s columns start (path ++ [x]) m) :
    Traces s columns start path (Paths.inside (meant s x.1).name m) := by
  intro st hst htraced
  have hbody := h { st with path := (meant s x.1).name :: st.path }
    (by rw [keptPath_snoc, ← hst]) htraced
  refine ensures_inside (hbody.mono (fun _ st' hst' => ⟨?_, hst'.2⟩) fun _ _ hb => hb)
  show st'.path.tail = st.path
  rw [hst'.1]
  rfl

end Traces

theorem Traced.push {st : State} {r : Record} (h : Traced s columns start st)
    (hr : r.isAttribute = false → ∃ c : Chain, Follows s start c.particles ∧ r = c.record s columns) :
    Traced s columns start { st with records := st.records.push r } := by
  intro r' hr'
  rcases Array.mem_push.1 hr' with hr' | rfl
  · exact h r' hr'
  · exact hr

theorem traces_visitAttribute (a : AttributeId) :
    Traces s columns start path (visitAttribute s { skip, columns } a) := by
  unfold visitAttribute attributeMeant
  have hrest : ∀ declaration : Attribute, Traces s columns start path (do
      if isSkipped { skip, columns } declaration.name then return
      let ns ← pathNames
      let outer := (((← MonadState.get).path.head?).map word).getD ""
      emit {
        node := outer ++ "@" ++ word declaration.name
        path := "/" ++ "/".intercalate ns ++ "@" ++ word declaration.name
        notes := " ".intercalate declaration.notes
        type := if (s.declared.attr a).typeText == "" then declaration.typeText
          else (s.declared.attr a).typeText
        isAttribute := true }) := by
    intro declaration
    split
    · exact .nothing
    · exact .named fun st hst htraced => ensures_bind.2 (ensures_get.2
        (ensures_modify.2 ⟨rfl, htraced.push nofun⟩))
  dsimp only
  split
  · exact hrest _
  · split
    · exact hrest _
    · exact .fails _

theorem traces_emitElement {x : Particle} {t : TypeRef} (hx : Follows s start (path ++ [x]))
    (ht : (meant s x.1).type = some t) :
    Traces s columns start (path ++ [x])
      (emitElement s.declared { skip, columns } (s.declared.element x.1).occurs (meant s x.1) t) := by
  unfold emitElement
  refine .named fun st hst htraced => ?_
  refine ensures_bind.2 (ensures_get.2 (ensures_modify.2 ⟨rfl, htraced.push fun _ => ?_⟩))
  refine ⟨⟨path, x⟩, hx, ?_⟩
  rw [hst, pathOf_snoc, List.tail_cons, head?_pathOf]
  simp only [Chain.record, ht]
  rfl

theorem traces_reportRecursion (n : Option String) :
    Traces s columns start path (reportRecursion n) :=
  .named fun _ _ htraced => ensures_modify.2 ⟨rfl, htraced⟩

theorem traces_type (hw : s.Walkable) {visit : ElementId → Visit Unit} {t : TypeRef}
    (h : ∀ y : Particle, (leavesOf s.declared t)[y.2]? = some y.1 →
      Traces s columns start path (visit y.1)) :
    Traces s columns start path ((steps s [] (.type t)).forM (perform s { skip, columns } visit)) := by
  rw [steps_type hw]
  refine .forM fun step hstep => ?_
  rcases List.mem_append.1 hstep with hstep | hstep
  · obtain ⟨e, he, rfl⟩ := List.mem_map.1 hstep
    obtain ⟨j, hj⟩ := List.mem_iff_getElem?.1 he
    exact h (e, j) hj
  · obtain ⟨a, -, rfl⟩ := List.mem_map.1 hstep
    exact traces_visitAttribute a

/-- By induction on the fuel; `here` is where the element stands, so that a way down from it goes on
behind the path. -/
theorem traces_visitFrom (hw : s.Walkable) (fuel : Nat) :
    ∀ (path : List Particle) (here : List ElementId) (x : Particle), here[x.2]? = some x.1 →
      x.1 < s.declared.elements.size →
      (∀ p, Follows s here p → Follows s start (path ++ p)) →
      Traces s columns start path (visitFrom s { skip, columns } fuel x.1) := by
  induction fuel with
  | zero => exact fun _ _ _ _ _ _ => .fails _
  | succ fuel ih =>
    intro path here x hplace hx hway
    have hinner : ∀ t, resolvedType s x.1 = some t → Traces s columns start (path ++ [x])
        ((steps s [] (.type t)).forM
          (perform s { skip, columns } (visitFrom s { skip, columns } fuel))) := by
      intro t ht
      refine traces_type hw fun y hy => ih (path ++ [x]) (childrenOf s x.1) y ?_ ?_ fun p hp => ?_
      · rw [childrenOf_eq ht]
        exact hy
      · exact lt_of_mem_leavesOf hw.closed (List.mem_of_getElem? hy)
      · rw [List.append_assoc]
        exact hway (x :: p) ⟨hplace, hp⟩
    unfold visitFrom
    dsimp only
    rw [elementMeant_eq hw hx, pure_bind]
    split
    · exact .nothing
    · refine .get fun st => ?_
      split
      · exact (traces_reportRecursion _).andThen .nothing
      · refine .inside ?_
        rcases hinline : (meant s x.1).inline with _ | t
        · rcases htype : (meant s x.1).type with _ | t
          · exact .nothing
          · have ht : resolvedType s x.1 = some t := by rw [resolvedType, hinline, htype]; rfl
            exact (traces_emitElement (hway [x] ⟨hplace, trivial⟩) htype).andThen (hinner t ht)
        · exact hinner t (by rw [resolvedType, hinline]; rfl)

/-- Whether or not a walk comes to its end, the rows it has for elements are those of chains that
lead down from its root. -/
theorem records_traced (hw : s.Walkable) {root : Root} (hr : IsGlobal s root) :
    Traced s columns (startOf s root) (fromRoot s { skip, columns } root.node).1 := by
  have hvisit : Traces s columns (startOf s root) [] (visit s { skip, columns } root.node) := by
    cases root with
    | element e =>
      obtain ⟨q, hq⟩ := hr
      show Traces s columns [e] [] ((steps s [] (.element e)).forM _)
      rw [steps_element]
      have hone : Traces s columns [e] [] (visitElement s { skip, columns } e) :=
        traces_visitFrom hw _ [] [e] (e, 0) rfl (elementId_lt hw.closed hq) fun _ hp => hp
      exact hone.andThen .nothing
    | type t =>
      refine traces_type hw fun y hy => ?_
      exact traces_visitFrom hw _ [] _ y hy
        (lt_of_mem_leavesOf hw.closed (List.mem_of_getElem? hy)) fun _ hp => hp
  have hroot : Traces s columns (startOf s root) [] (visitRoot s { skip, columns } root.node) :=
    hvisit.andThen (.get fun st _ _ htraced => ensures_modify.2 ⟨rfl, htraced⟩)
  have hrun := hroot {} rfl fun _ hr' => absurd hr' (Array.not_mem_empty _)
  unfold Ensures at hrun
  unfold fromRoot
  split at hrun
  · rename_i u st heq
    rw [heq]
    exact hrun.2
  · rename_i e st heq
    rw [heq]
    exact hrun

end Paths

/-! ## The rows of an export -/

open Paths

/-- What an element says in an additional column. -/
def valueOf (e : Element) (column : String) : String := (e.extra.lookup column).getD ""

/-- The rows that an export writes, also where it does not come to its end. -/
def rows (s : SchemaSet) (o : Order) : List Record :=
  match (start s o).2 with
  | .error _ => []
  | .ok begun => (fromRoot s ⟨o.skip, distinct o.columns, []⟩ begun.root.node).1.records.toList

/-- A row has a field for each column of the header, and each one behind the fixed ones is what the
element says in the column it stands in. -/
def LinesUp (header fields : List String) (e : Element) : Prop :=
  fields.length = header.length ∧
    ∀ j k, fixedColumns.length ≤ j → header[j]? = some k → fields[j]? = some (valueOf e k)

variable {s : SchemaSet} {o : Order}

theorem write_text (s : SchemaSet) (o : Order) : (write s o).text = match (start s o).2 with
    | .error _ => ""
    | .ok _ => asLine (header o.columns) ++ String.join ((rows s o).map fun r => r.line ++ "\n") := by
  unfold write rows
  rcases start s o with ⟨before, e | begun⟩
  · rfl
  · dsimp only
    rw [header_distinct]

theorem isGlobal_of_start {begun : Start} (h : (start s o).2 = .ok begun) :
    IsGlobal s begun.root := by
  unfold start at h
  dsimp only at h
  split at h
  · cases h
  · split at h
    · cases h
    · rename_i hfind
      cases h
      exact Root.isGlobal_of_find hfind

theorem fields_record (c : Chain) (columns : List String) :
    ∃ fixed : List String, fixed.length = fixedColumns.length ∧
      (c.record s columns).fields = fixed ++ columns.map (valueOf (meant s c.last.1)) :=
  let r := c.record s columns
  ⟨[r.node, r.path, quoted r.notes, r.type, if r.optional.getD false then "true" else "false"],
    rfl, rfl⟩

theorem linesUp_iff (columns : List String) (e : Element) {fixed : List String}
    (hfixed : fixed.length = fixedColumns.length) :
    LinesUp (header columns) (fixed ++ (distinct columns).map (valueOf e)) e ↔
      takenColumns columns = [] := by
  have hcount := length_columns columns
  constructor
  · intro h
    have hlength := h.1
    rw [header_eq, List.length_append, List.length_append, List.length_map] at hlength
    exact List.eq_nil_of_length_eq_zero (by omega)
  · intro hnone
    rw [header_eq, newColumns_of_taken hnone]
    refine ⟨by simp [hfixed], fun j k hj hk => ?_⟩
    rw [List.getElem?_append_right hj] at hk
    rw [List.getElem?_append_right (hfixed ▸ hj), List.getElem?_map, hfixed, hk]
    rfl

/-- What an export writes is its header and then its rows.  Each row of an element is longer than
the header by the additional columns that go by the name of a fixed one, and lines up with the
header exactly if there are none of these. -/
theorem rows_line_up_iff (h : s.Loaded) (o : Order) :
    ((write s o).text = match (start s o).2 with
      | .error _ => ""
      | .ok _ => asLine (header o.columns) ++ String.join ((rows s o).map fun r => r.line ++ "\n")) ∧
    ∀ r ∈ rows s o, r.isAttribute = false →
      ∃ (begun : Start) (c : Chain), (start s o).2 = .ok begun ∧ Follows s (startOf s begun.root) c.particles ∧
        r = c.record s (distinct o.columns) ∧
        r.fields.length = (header o.columns).length + (takenColumns o.columns).length ∧
        (LinesUp (header o.columns) r.fields (meant s c.last.1) ↔
          ∀ k ∈ o.columns, k ∉ fixedColumns) := by
  refine ⟨write_text s o, fun r hr hrow => ?_⟩
  rw [rows] at hr
  split at hr
  · cases hr
  · rename_i begun hstart
    have htraced : Traced s (distinct o.columns) (startOf s begun.root)
        (fromRoot s ⟨o.skip, distinct o.columns, []⟩ begun.root.node).1 :=
      records_traced h.isLinked.walkable (isGlobal_of_start hstart)
    obtain ⟨c, hfollows, rfl⟩ := htraced r (Array.mem_toList_iff.1 hr) hrow
    obtain ⟨fixed, hfixed, hfields⟩ := fields_record (s := s) c (distinct o.columns)
    have hcount := length_columns o.columns
    refine ⟨begun, c, hstart, hfollows, rfl, ?_, ?_⟩
    · rw [hfields, header_eq, List.length_append, List.length_append, List.length_map]
      omega
    · rw [hfields, linesUp_iff _ _ hfixed, takenColumns_eq_nil]

theorem nested_rows_line_up : nested.Loaded ∧
    ∃ r ∈ rows nested { root := some "a", columns := ["k", "k", "l"] }, r.isAttribute = false ∧
      r.fields.length = 7 ∧ ∃ e, LinesUp (header ["k", "k", "l"]) r.fields e := by
  obtain ⟨r, hr, hrow, hlength⟩ : ∃ r ∈ rows nested { root := some "a", columns := ["k", "k", "l"] },
      r.isAttribute = false ∧ r.fields.length = 7 := by
    rw [nested_eq, SchemaSet.ofText_eq]
    decide +kernel
  obtain ⟨-, hrows⟩ := rows_line_up_iff nested_loaded
    { root := some "a", columns := ["k", "k", "l"] }
  obtain ⟨begun, c, -, -, -, -, hiff⟩ := hrows r hr hrow
  exact ⟨nested_loaded, r, hr, hrow, hlength, _, hiff.2 (by decide)⟩

/-- A column that goes by the name of a fixed one is not in the header, but in the row. -/
theorem row_longer_than_header : nested.Loaded ∧
    (header ["Node"]).length = 5 ∧
    ∃ r ∈ rows nested { root := some "a", columns := ["Node"] },
      r.isAttribute = false ∧ r.fields.length = 6 := by
  refine ⟨nested_loaded, by decide, ?_⟩
  rw [nested_eq, SchemaSet.ofText_eq]
  decide +kernel

end Export
end SchemaPaths
