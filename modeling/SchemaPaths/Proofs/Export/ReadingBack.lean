/-
What comes back from the text of an export.

Each row stands in the text as one line, its annotation in quotes and its other fields as they are.
So a reader gets the rows back, whatever their annotations are, if all the other fields are plain;
what an additional column says comes back only if it is plain itself.
-/
import SchemaPaths.Proofs.Export.Columns
import SchemaPaths.Proofs.Export.Decoding

namespace SchemaPaths
namespace Export

open Schema Paths Decoding

/-- What the fields of a row say, the annotation without its quotes. -/
def Record.values (r : Record) : List String :=
  let common := [r.node, r.path, r.notes, r.type]
  if r.isAttribute then common
  else common ++ [if r.optional.getD false then "true" else "false"] ++ r.extra

/-- The names and the texts that rows are made of are plain, apart from annotations and from what
elements say in additional columns. -/
structure PlainWords (s : SchemaSet) (columns : List String) : Prop where
  column : ∀ k ∈ columns, Plain k
  element : ∀ i < s.declared.elements.size, ∀ n ∈ (s.declared.element i).name, Plain n
  attr : ∀ i < s.declared.attributes.size, ∀ n ∈ (s.declared.attr i).name, Plain n
  type : ∀ i < s.declared.elements.size, ∀ t ∈ (s.declared.element i).type,
    Plain (typeText s.declared t)
  attrType : ∀ i < s.declared.attributes.size, Plain (s.declared.attr i).typeText

instance (s : SchemaSet) (columns : List String) : Decidable (PlainWords s columns) :=
  decidable_of_iff
    ((∀ k ∈ columns, Plain k) ∧
      (∀ i < s.declared.elements.size, ∀ n ∈ (s.declared.element i).name, Plain n) ∧
      (∀ i < s.declared.attributes.size, ∀ n ∈ (s.declared.attr i).name, Plain n) ∧
      (∀ i < s.declared.elements.size, ∀ t ∈ (s.declared.element i).type,
        Plain (typeText s.declared t)) ∧
      ∀ i < s.declared.attributes.size, Plain (s.declared.attr i).typeText)
    ⟨fun ⟨column, element, attr, type, attrType⟩ => ⟨column, element, attr, type, attrType⟩,
      fun h => ⟨h.column, h.element, h.attr, h.type, h.attrType⟩⟩

/-! ## Lines -/

theorem toList_asLine (fields : List String) :
    (asLine fields).toList = rowChars (fields.map String.toList) := by
  rw [asLine, String.toList_append, String.toList_intercalate]
  rfl

theorem encodes_of_plain {v : String} (h : Plain v) : Encodes v.toList v.toList := encodes_plain h

theorem encodes_of_quoted (v : String) : Encodes (quoted v).toList v.toList := by
  have hquoted : (quoted v).toList = '"' :: quoteChars v.toList ++ ['"'] := by
    simp [quoted]
  rw [hquoted]
  exact encodes_quoted v.toList

/-- The fields of a row that are plain on every export. -/
structure Record.Plain (r : Record) : Prop where
  node : Decoding.Plain r.node
  path : Decoding.Plain r.path
  type : Decoding.Plain r.type

variable {r : Record}

theorem Record.Plain.encodes (h : r.Plain) : List.Forall₂ Encodes
    ([r.node, r.path, quoted r.notes, r.type].map String.toList)
    ([r.node, r.path, r.notes, r.type].map String.toList) :=
  .cons (encodes_of_plain h.node) (.cons (encodes_of_plain h.path)
    (.cons (encodes_of_quoted r.notes) (.cons (encodes_of_plain h.type) .nil)))

theorem plain_flag (b : Bool) : Plain (if b then "true" else "false") := by
  cases b <;> decide

theorem forall₂_append_same {R : List Char → List Char → Prop} {encs vs extra : Fields}
    (h : List.Forall₂ R encs vs) :
    List.Forall₂ R (encs ++ extra) (vs ++ extra) ↔ ∀ v ∈ extra, R v v := by
  induction h with
  | nil => exact List.forall₂_same
  | cons hd _ ih => rw [List.cons_append, List.cons_append, List.forall₂_cons, ih, and_iff_right hd]

/-- What the additional columns of a row say; a row for an attribute has none. -/
def Record.additional (r : Record) : List String := if r.isAttribute then [] else r.extra

/-- The fields of a row are some that are encoded and then the additional ones, as they are. -/
theorem Record.Plain.split (h : r.Plain) : ∃ encs vs : Fields, encs ≠ [] ∧
    List.Forall₂ Encodes encs vs ∧
    r.fields.map String.toList = encs ++ r.additional.map String.toList ∧
    r.values.map String.toList = vs ++ r.additional.map String.toList := by
  unfold Record.additional Record.fields Record.values
  cases r.isAttribute with
  | true => exact ⟨_, _, List.cons_ne_nil _ _, h.encodes, rfl, rfl⟩
  | false =>
    have hflag := encodes_of_plain (plain_flag (r.optional.getD false))
    exact ⟨_, _, List.cons_ne_nil _ _, List.rel_append h.encodes (.cons hflag .nil), rfl, rfl⟩

theorem Record.Plain.fits (h : r.Plain) : r.fields.map String.toList ≠ [] ∧
    List.Forall₂ Fits (r.fields.map String.toList) (r.values.map String.toList) := by
  obtain ⟨encs, vs, hne, hencodes, hfields, hvalues⟩ := h.split
  rw [hfields, hvalues, forall₂_append_same (hencodes.imp fun _ _ => .inl)]
  exact ⟨List.append_ne_nil_of_left_ne_nil hne _, fun _ _ => .inr rfl⟩

theorem Record.Plain.encodes_iff (h : r.Plain) :
    List.Forall₂ Encodes (r.fields.map String.toList) (r.values.map String.toList) ↔
      ∀ v ∈ r.additional, Decoding.Plain v := by
  obtain ⟨encs, vs, -, hencodes, hfields, hvalues⟩ := h.split
  rw [hfields, hvalues, forall₂_append_same hencodes, List.forall_mem_map]
  exact forall₂_congr fun _ _ => encodes_self_iff

/-! ## Whole texts -/

/-- The header and rows that are plain come back if what the additional columns say is plain, too. -/
theorem rowsOfText?_lines_iff {first : List String} {records : List Record} (hne : first ≠ [])
    (hfirst : ∀ k ∈ first, Plain k) (h : ∀ r ∈ records, r.Plain) :
    rowsOfText? (asLine first ++ String.join (records.map fun r => r.line ++ "\n")) =
        some (first :: records.map Record.values) ↔
      ∀ r ∈ records, ∀ v ∈ r.additional, Plain v := by
  let pair (r : Record) : Fields × Fields := (r.fields.map String.toList, r.values.map String.toList)
  let header : Fields × Fields := (first.map String.toList, first.map String.toList)
  have htext : (asLine first ++ String.join (records.map fun r => r.line ++ "\n")).toList =
      (header :: records.map pair).flatMap fun row => rowChars row.1 := by
    rw [String.toList_append, String.toList_join, toList_asLine, List.flatMap_cons,
      List.flatMap_map, List.flatMap_map]
    exact congrArg _ (List.flatMap_congr fun r _ => toList_asLine r.fields)
  have hheader : List.Forall₂ Encodes header.1 header.2 :=
    List.forall₂_same.2 (List.forall_mem_map.2 fun k hk => encodes_of_plain (hfirst k hk))
  have hfits : ∀ row ∈ header :: records.map pair, row.1 ≠ [] ∧ List.Forall₂ Fits row.1 row.2 := by
    refine List.forall_mem_cons.2 ⟨⟨?_, hheader.imp fun _ _ => .inl⟩, ?_⟩
    · simpa [header] using hne
    · exact List.forall_mem_map.2 fun r hr => (h r hr).fits
  have hrows : (first :: records.map Record.values).map (fun row => row.map String.toList) =
      (header :: records.map pair).map (·.2) := by
    simp [header, pair, Function.comp_def]
  rw [rowsOfText?_eq_some, htext, hrows, readAll_rows_iff hfits, List.forall_mem_cons,
    and_iff_right hheader, List.forall_mem_map]
  exact forall₂_congr fun r hr => (h r hr).encodes_iff

/-! ## The rows of a schema set -/

theorem forall_getD {α : Type} {a : Array α} {fill : α} {p : α → Prop}
    (h : ∀ i < a.size, p (a.getD i fill)) (hfill : p fill) (i : Nat) : p (a.getD i fill) := by
  rcases Nat.lt_or_ge i a.size with hi | hi
  · exact h i hi
  · rwa [getD_of_le hi]

variable {s : SchemaSet} {o : Order} {columns : List String}

namespace PlainWords

variable (h : PlainWords s columns)
include h

theorem elements (i : ElementId) : Plain (word (s.declared.element i).name) ∧
    ∀ t ∈ (s.declared.element i).type, Plain (typeText s.declared t) := by
  refine forall_getD (p := fun e : Element => Plain (word e.name) ∧ ∀ t ∈ e.type,
    Plain (typeText s.declared t)) (fun i hi => ⟨?_, h.type i hi⟩) ⟨by decide, nofun⟩ i
  have hname := h.element i hi
  unfold Declarations.element at hname
  cases hn : (s.declared.elements.getD i {}).name with
  | none => decide
  | some n => exact hname n hn

theorem attributes (a : AttributeId) :
    Plain (word (s.declared.attr a).name) ∧ Plain (s.declared.attr a).typeText := by
  refine forall_getD (p := fun a : Attribute => Plain (word a.name) ∧ Plain a.typeText)
    (fun a ha => ⟨?_, h.attrType a ha⟩) ⟨by decide, by decide⟩ a
  have hname := h.attr a ha
  unfold Declarations.attr at hname
  cases hn : (s.declared.attributes.getD a {}).name with
  | none => decide
  | some n => exact hname n hn

theorem names (path : List Particle) : ∀ n ∈ Paths.names s path, Plain n :=
  List.forall_mem_map.2 fun x _ => (h.elements (meantId s x.1)).1

theorem outer (path : List Particle) : Plain ((Paths.names s path).getLast?.getD "") := by
  cases hlast : (Paths.names s path).getLast? with
  | none => decide
  | some n => exact h.names path n (List.mem_of_getLast? hlast)

theorem way (path : List Particle) : Plain ("/" ++ "/".intercalate (Paths.names s path)) :=
  .append (by decide) (.intercalate (by decide) (h.names path))

theorem plain_chain (c : Chain) (columns' : List String) : (c.record s columns').Plain where
  node := ((h.outer c.outer).append (by decide)).append (h.elements (meantId s c.last.1)).1
  path := h.way c.particles
  type := by
    have htype := (h.elements (meantId s c.last.1)).2
    change Plain (((meant s c.last.1).type.map (typeText s.declared)).getD "")
    cases ht : (meant s c.last.1).type with
    | none => exact nofun
    | some t => exact htype t ht

theorem plain_attr (path : List Particle) (a : AttributeId) : (Row.attrRecord s path a).Plain := by
  obtain ⟨b, hb⟩ : ∃ b, attrMeant s a = s.declared.attr b := by
    unfold attrMeant
    split
    · exact ⟨a, rfl⟩
    · rename_i q _
      cases hq : s.attr? q with
      | none => exact ⟨a, rfl⟩
      | some b => exact ⟨b, rfl⟩
  obtain ⟨hname, htype⟩ := h.attributes b
  refine ⟨?_, ?_, ?_⟩
  · exact ((h.outer path).append (by decide)).append (hb ▸ hname)
  · exact ((h.way path).append (by decide)).append (hb ▸ hname)
  · dsimp only [Row.attrRecord]
    split
    · exact hb ▸ htype
    · exact (h.attributes a).2

theorem plain_row (row : Row) (columns' : List String) : (row.record s columns').Plain := by
  cases row with
  | element c => exact h.plain_chain c columns'
  | attr path a => exact h.plain_attr path a

end PlainWords

/-- The rows of an export are those below its root. -/
theorem rows_eq (h : s.Loaded) (hn : s.Named) {begun : Start} (hstart : (start s o).2 = .ok begun) :
    (write s o).outcome = .ok ⟨begun, (rows s o).length⟩ ∧
      rows s o = (rowsBelow s o.skip begun.root).map (Row.record s (distinct o.columns)) := by
  obtain ⟨hok, hrows⟩ := @fromRoot_rows s (distinct o.columns) o.skip h.isLinked.walkable hn _
    (isGlobal_of_start hstart)
  have hlist : rows s o =
      (fromRoot s ⟨o.skip, distinct o.columns, []⟩ begun.root.node).1.records.toList := by
    rw [rows, hstart]
  refine ⟨?_, hlist.trans hrows⟩
  have hwrite : (write s o).outcome =
      (fromRoot s ⟨o.skip, distinct o.columns, []⟩ begun.root.node).2.map fun _ =>
        ⟨begun, (fromRoot s ⟨o.skip, distinct o.columns, []⟩ begun.root.node).1.records.size⟩ := by
    unfold write
    dsimp only
    rw [hstart]
  rw [hwrite, hok, hlist]
  rfl

/-- What the additional columns of a row say, if it is the row of an element. -/
theorem additional_record (row : Row) {columns : List String} {p : String → Prop} :
    (∀ v ∈ (row.record s (distinct columns)).additional, p v) ↔
      ∀ c : Chain, row = .element c → ∀ k ∈ columns, p (valueOf (meant s c.last.1) k) := by
  cases row with
  | element c =>
    have hadditional : ((Row.element c).record s (distinct columns)).additional =
        (distinct columns).map (valueOf (meant s c.last.1)) := rfl
    rw [hadditional, List.forall_mem_map]
    constructor
    · intro h c' hc k hk
      cases hc
      exact h k (mem_distinct.2 hk)
    · exact fun h k hk => h c rfl k (mem_distinct.1 hk)
  | attr path a => exact ⟨fun _ _ => nofun, fun _ => nofun⟩

theorem rowsOfText?_write_iff (h : s.Loaded) (hn : s.Named) (hp : PlainWords s o.columns)
    {begun : Start} (hstart : (start s o).2 = .ok begun) :
    rowsOfText? (write s o).text = some (header o.columns :: (rows s o).map Record.values) ↔
      ∀ r ∈ rows s o, ∀ v ∈ r.additional, Plain v := by
  have hheader : ∀ k ∈ header o.columns, Plain k := by
    intro k hk
    rcases List.mem_append.1 (mem_distinct.1 hk) with hk | hk
    · have hfixed : ∀ k ∈ fixedColumns, Plain k := by decide
      exact hfixed k hk
    · exact hp.column k hk
  have hplain : ∀ r ∈ rows s o, r.Plain := by
    rw [(rows_eq h hn hstart).2]
    exact List.forall_mem_map.2 fun row _ => hp.plain_row row _
  rw [write_text, hstart]
  refine rowsOfText?_lines_iff ?_ hheader hplain
  rw [header_eq]
  exact List.cons_ne_nil _ _

/-! ## An element with an annotation and attributes of its own -/

/-- The annotation has a comma, a line end and quotes in it, and one of the attributes a comma. -/
def notedText : String :=
  "<s:schema xmlns:s=\"" ++ xsSpace ++ "\" xmlns:p=\"urn:p\"><s:element name=\"a\" type=\"s:int\" " ++
    "p:k=\"x,y\" p:m=\"z\"><s:annotation><s:documentation>b,\n\"c\"</s:documentation>" ++
    "</s:annotation></s:element></s:schema>"

def noted : SchemaSet := .ofText notedText

def notedOrder (columns : List String) : Order := { root := some "a", columns }

theorem noted_facts : (Loader.ofText notedText).2 = .ok () ∧ noted.Named ∧
    PlainWords noted ["p:k"] ∧ (start noted (notedOrder ["p:k"])).2.isOk ∧
    (rows noted (notedOrder [])).map Record.values =
      [["/a", "/a", "b,\n\"c\"", "Int", "false"]] ∧
    (rows noted (notedOrder ["p:k"])).map Record.values =
      [["/a", "/a", "b,\n\"c\"", "Int", "false", "x,y"]] ∧
    rowsOfText? (write noted (notedOrder ["p:k"])).text =
      some [fixedColumns ++ ["p:k"], ["/a", "/a", "b,\n\"c\"", "Int", "false", "x", "y"]] := by
  rw [noted, SchemaSet.ofText_eq, Loader.ofText_eq]
  decide +kernel

theorem noted_plain_column :
    (∀ i < noted.declared.elements.size, Plain (valueOf (noted.declared.element i) "p:m")) ∧
      (rows noted (notedOrder ["p:m"])).map Record.values =
        [["/a", "/a", "b,\n\"c\"", "Int", "false", "z"]] := by
  rw [noted, SchemaSet.ofText_eq]
  decide +kernel

theorem noted_loaded : noted.Loaded := SchemaSet.loaded_ofText noted_facts.1

theorem noted_start (columns : List String) :
    ∃ begun, (start noted (notedOrder columns)).2 = .ok begun := by
  have hok : (start noted (notedOrder columns)).2.isOk := noted_facts.2.2.2.1
  cases hstart : (start noted (notedOrder columns)).2 with
  | ok begun => exact ⟨begun, rfl⟩
  | error e =>
    rw [hstart] at hok
    cases hok

/-! ## What comes back -/

/-- The text of an export holds its header and then its rows, one for each row below the root and in
their order, whatever the annotations are, if all other words are plain.  The number that is reported
is the number of these rows. -/
theorem rows_come_back (h : s.Loaded) (hn : s.Named) (hp : PlainWords s o.columns)
    (extra : ∀ i < s.declared.elements.size, ∀ k ∈ o.columns,
      Plain (valueOf (s.declared.element i) k))
    {begun : Start} (hstart : (start s o).2 = .ok begun) :
    rowsOfText? (write s o).text = some (header o.columns :: (rows s o).map Record.values) ∧
      rows s o = (rowsBelow s o.skip begun.root).map (Row.record s (distinct o.columns)) ∧
      (write s o).outcome = .ok ⟨begun, (rows s o).length⟩ := by
  obtain ⟨houtcome, hrows⟩ := rows_eq h hn hstart
  refine ⟨(rowsOfText?_write_iff h hn hp hstart).2 ?_, hrows, houtcome⟩
  rw [hrows, List.forall_mem_map]
  intro row hrow
  refine (additional_record row).2 fun c _ k hk => ?_
  exact forall_getD (p := fun e : Element => Plain (valueOf e k)) (fun i hi => extra i hi k hk)
    (show Plain "" by decide) _

theorem noted_rows_come_back : noted.Loaded ∧ noted.Named ∧ PlainWords noted [] ∧
    rowsOfText? (write noted (notedOrder [])).text =
      some [fixedColumns, ["/a", "/a", "b,\n\"c\"", "Int", "false"]] := by
  obtain ⟨-, hn, hp, -, hvalues, -⟩ := noted_facts
  have hp : PlainWords noted (notedOrder []).columns := { hp with column := nofun }
  obtain ⟨begun, hstart⟩ := noted_start []
  obtain ⟨htext, -⟩ := rows_come_back noted_loaded hn hp (fun _ _ => nofun) hstart
  rw [hvalues] at htext
  exact ⟨noted_loaded, hn, hp, htext⟩

/-- Where all other words are plain, the text of an export holds its rows exactly if whatever an
element with a row says in an additional column is plain. -/
theorem additional_come_back_iff (h : s.Loaded) (hn : s.Named) (hp : PlainWords s o.columns)
    {begun : Start} (hstart : (start s o).2 = .ok begun) :
    rowsOfText? (write s o).text = some (header o.columns :: (rows s o).map Record.values) ↔
      ∀ c : Chain, .element c ∈ rowsBelow s o.skip begun.root →
        ∀ k ∈ o.columns, Plain (valueOf (meant s c.last.1) k) := by
  rw [rowsOfText?_write_iff h hn hp hstart, (rows_eq h hn hstart).2, List.forall_mem_map]
  constructor
  · exact fun hall c hc => (additional_record (.element c)).1 (hall _ hc) c rfl
  · rintro hall row hrow
    refine (additional_record row).2 fun c hc => hall c ?_
    rwa [← hc]

theorem noted_additional_come_back : noted.Loaded ∧ noted.Named ∧
    (PlainWords noted ["p:m"] ∧ rowsOfText? (write noted (notedOrder ["p:m"])).text =
      some [fixedColumns ++ ["p:m"], ["/a", "/a", "b,\n\"c\"", "Int", "false", "z"]]) ∧
    PlainWords noted ["p:k"] ∧ ∃ begun, (start noted (notedOrder ["p:k"])).2 = .ok begun ∧
      ¬ ∀ c : Chain, .element c ∈ rowsBelow noted [] begun.root →
        ∀ k ∈ ["p:k"], Plain (valueOf (meant noted c.last.1) k) := by
  obtain ⟨-, hn, hp, -, -, hvalues, htext⟩ := noted_facts
  obtain ⟨begun, hstart⟩ := noted_start ["p:k"]
  refine ⟨noted_loaded, hn, ?_, hp, begun, hstart, fun hplain => ?_⟩
  · obtain ⟨hextra, hvalues⟩ := noted_plain_column
    obtain ⟨begun, hstart⟩ := noted_start ["p:m"]
    have hp' : PlainWords noted ["p:m"] :=
      { hp with column := List.forall_mem_singleton.2 (by decide) }
    have hplain (c : Chain) : ∀ k ∈ ["p:m"], Plain (valueOf (meant noted c.last.1) k) := by
      refine List.forall_mem_singleton.2 ?_
      exact forall_getD (p := fun e : Element => Plain (valueOf e "p:m")) hextra
        (show Plain "" by decide) _
    have hback := (additional_come_back_iff noted_loaded hn hp' hstart).2 fun c _ => hplain c
    rw [hvalues] at hback
    exact ⟨hp', hback⟩
  · have hback := (additional_come_back_iff noted_loaded hn hp hstart).2 hplain
    rw [htext, hvalues] at hback
    revert hback
    decide

/-- A comma in what an element says in an additional column parts it in two. -/
theorem noted_column_parted : noted.Loaded ∧
    (rows noted (notedOrder ["p:k"])).map Record.values =
      [["/a", "/a", "b,\n\"c\"", "Int", "false", "x,y"]] ∧
    rowsOfText? (write noted (notedOrder ["p:k"])).text =
      some [fixedColumns ++ ["p:k"], ["/a", "/a", "b,\n\"c\"", "Int", "false", "x", "y"]] :=
  ⟨noted_loaded, noted_facts.2.2.2.2.2⟩

end Export
end SchemaPaths
