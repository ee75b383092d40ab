/-
The names at the top of a document.

A document lists what is declared at its top, kind by kind and in its order, and all of it is found
in the tables of the set that the document enters.
-/
import SchemaPaths.Proofs.Schema.Sets
import SchemaPaths.Proofs.Schema.Tops

namespace SchemaPaths
namespace Schema

open Markup (Name Tree)

/-- The name that a value refers to, without its prefix. -/
def localName? (value : Option String) : Option String :=
  value.bind fun v =>
    if v == "" then none
    else match Text.cut? ':' (Text.trim v) with
      | some (_, rest) => some rest
      | none => some (Text.trim v)

/-- The name of an element or an attribute at the top.  A reference goes by the name it refers
to. -/
def nameOrRef? (as : Attributes) : Option String :=
  (localName? (valueOf? as "ref")).or (valueOf? as "name")

/-- What is declared by a construct at the top of a document, and its name. -/
def Construct.declares? (as : Attributes) : Construct → Option (Symbol × Option String)
  | .element => some (.element, nameOrRef? as)
  | .complexType => some (.type, valueOf? as "name")
  | .simpleType => some (.type, valueOf? as "name")
  | .group => some (.group, valueOf? as "name")
  | .attr => some (.attr, nameOrRef? as)
  | .attrGroup => some (.attrGroup, valueOf? as "name")
  | _ => none

def declared? : Tree → Option (Symbol × Option String)
  | .text _ => none
  | .element n as _ => (Construct.ofName? n).bind (Construct.declares? as)

/-- The names of one kind among the trees at the top of a document. -/
def namesAt (what : Symbol) (content : List Tree) : List (Option String) :=
  (content.filterMap declared?).filterMap fun p => if p.1 = what then some p.2 else none

theorem namesAt_cons (what : Symbol) (t : Tree) (ts : List Tree) :
    namesAt what (t :: ts) = namesAt what [t] ++ namesAt what ts := by
  unfold namesAt
  rw [← List.filterMap_append, ← List.filterMap_append, List.singleton_append]

theorem namesAt_of_some {what w : Symbol} {t : Tree} {n : Option String}
    (h : declared? t = some (w, n)) : namesAt what [t] = if w = what then [n] else [] := by
  unfold namesAt
  rw [List.filterMap_cons_some h, List.filterMap_nil]
  split <;> rename_i hw <;> simp [hw]

theorem namesAt_of_none {what : Symbol} {t : Tree} (h : declared? t = none) :
    namesAt what [t] = [] := by
  unfold namesAt
  rw [List.filterMap_cons_none h]
  rfl

/-- The names that a document lists. -/
def Document.names (doc : Document) (d : Declarations) : Symbol → List (Option String)
  | .element => doc.elements.map fun i => (d.element i).name
  | .type => doc.types.map d.typeName
  | .group => doc.groups.map fun i => (d.group i).name
  | .attr => doc.attributes.map fun i => (d.attr i).name
  | .attrGroup => doc.attributeGroups.map fun i => (d.attributeGroup i).name

theorem GoodDocument.names_kept {d e : Declarations} {doc : Document} (h : GoodDocument d doc)
    (hk : d.Kept e) (what : Symbol) : doc.names e what = doc.names d what := by
  cases what with
  | element => exact List.map_congr_left fun i hi => by rw [hk.element i (h.elements i hi)]
  | type => exact List.map_congr_left fun t ht => hk.typeName t (h.types t ht)
  | group => exact List.map_congr_left fun i hi => by rw [hk.group i (h.groups i hi)]
  | attr => exact List.map_congr_left fun i hi => by rw [hk.attr i (h.attributes i hi)]
  | attrGroup =>
    exact List.map_congr_left fun i hi => by rw [hk.attributeGroup i (h.attributeGroups i hi).1]

/-! ## The names of declarations -/

namespace Declaring

section Names

variable {s : Setting} {d : Declarations} {as : Attributes} {content : List Tree}

theorem qname_name (value : Option String) :
    Ensures (qname s value) d (fun q _ => q.bind QName.name = localName? value ∧
      q.isSome = (localName? value).isSome) fun _ _ => True := by
  unfold qname refuse
  cases value with
  | none => exact ensures_pure.2 ⟨rfl, rfl⟩
  | some v =>
    dsimp only [localName?, Option.bind_some]
    by_cases hv : (v == "") = true
    · rw [if_pos hv, if_pos hv]
      exact ensures_pure.2 ⟨rfl, rfl⟩
    · rw [if_neg hv, if_neg hv]
      generalize Text.trim v = v
      rcases Text.cut? ':' v with _ | ⟨p, rest⟩
      · exact ensures_pure.2 ⟨rfl, rfl⟩
      · dsimp only
        rcases s.prefixes.lookup p with _ | space
        · exact ensures_throw.2 trivial
        · exact ensures_pure.2 ⟨rfl, rfl⟩

theorem identity_name {isGlobal : Bool} {form : String} {ref : Option QName}
    (h : ref.bind QName.name = localName? (valueOf? as "ref") ∧
      ref.isSome = (localName? (valueOf? as "ref")).isSome) :
    (identity s isGlobal form as ref).2 = nameOrRef? as := by
  unfold nameOrRef?
  obtain ⟨hname, hsome⟩ := h
  cases ref with
  | none =>
    rw [← hname]
    rfl
  | some q =>
    obtain ⟨n, hn⟩ := Option.isSome_iff_exists.1 hsome.symm
    rw [hn] at hname ⊢
    exact hname

theorem element_name (isGlobal : Bool) :
    Ensures (element s isGlobal as content) d
      (fun i e => (e.element i).name = nameOrRef? as) fun _ _ => True := by
  unfold element elementOf
  refine ensures_any.bind fun o d₁ _ => ensures_any.bind fun inline d₂ _ => ?_
  refine (qname_name _).bind fun ref d₃ href => ?_
  refine ensures_any.bind fun typeName d₄ _ => ensures_any.bind fun sub d₅ _ => ?_
  refine ensures_modifyGet.2 ?_
  rw [Declarations.element_addElement, if_pos (by rfl)]
  exact identity_name href

theorem attr_name (isGlobal : Bool) :
    Ensures (attr s isGlobal as content) d
      (fun i e => (e.attr i).name = nameOrRef? as) fun _ _ => True := by
  unfold attr
  refine ensures_any.bind fun inline d₁ _ => (qname_name _).bind fun ref d₂ href => ?_
  refine ensures_any.bind fun typeName d₃ _ => ensures_modifyGet.2 ?_
  rw [Declarations.attr_addAttribute, if_pos (by rfl)]
  exact identity_name href

theorem complexType_name (name : Option String) :
    Ensures (complexType s name as content) d
      (fun i e => e.typeName (.complex (.declared i)) = name) fun _ _ => True := by
  unfold complexType complexTypeOf
  refine ensures_any.bind fun m d₁ _ => ?_
  cases m with
  | some m =>
    refine ensures_modifyGet.2 ?_
    exact congrArg ComplexType.name
      ((Declarations.complexType_addComplexType _ _).trans (if_pos rfl))
  | none =>
    refine ensures_any.bind fun p d₂ _ => ensures_any.bind fun u d₃ _ => ensures_modifyGet.2 ?_
    exact congrArg ComplexType.name
      ((Declarations.complexType_addComplexType _ _).trans (if_pos rfl))

theorem group_name :
    Ensures (group s as content) d
      (fun i e => (e.group i).name = valueOf? as "name") fun _ _ => True := by
  unfold group
  refine ensures_any.bind fun p d₁ _ => ensures_modifyGet.2 ?_
  rw [Declarations.group_addGroup, if_pos (by rfl)]

theorem attributeGroup_name :
    Ensures (attributeGroup s as content) d
      (fun i e => (e.attributeGroup i).name = valueOf? as "name") fun _ _ => True := by
  unfold attributeGroup
  refine ensures_any.bind fun u d₁ _ => ensures_modifyGet.2 ?_
  rw [Declarations.attributeGroup_addAttributeGroup, if_pos (by rfl)]

theorem simpleType_name (hd : d.Closed) (name : Option String) :
    Ensures (simpleType s name content) d
      (fun i e => e.typeName (.simple (.declared i)) = name) fun _ _ => True :=
  (reads_simpleType d (.refl d) hd).mono (fun _ _ h => h.2.2.2) fun _ _ _ => trivial

end Names

/-! ## Documents -/

section Documents

variable {s : Setting} {d : Declarations}

theorem topLevel_lists (n : Name) (as : Attributes) (content : List Tree) (hd : d.Closed)
    (doc : Document) (directives : List Directive) :
    Ensures (topLevel s n as content doc directives) d
      (fun r e => ∀ what, r.1.names e what =
        doc.names e what ++ namesAt what [.element n as content]) fun _ _ => True := by
  have silent {c : Construct} (h : Construct.ofName? n = some c) (hc : c.declares? as = none)
      (e : Declarations) (what : Symbol) :
      doc.names e what = doc.names e what ++ namesAt what [.element n as content] := by
    rw [namesAt_of_none (by rw [declared?, h, Option.bind_some, hc]), List.append_nil]
  have naming {c : Construct} {w : Symbol} {name : Option String}
      (h : Construct.ofName? n = some c) (hc : c.declares? as = some (w, name)) (what : Symbol) :
      namesAt what [.element n as content] = if w = what then [name] else [] :=
    namesAt_of_some (by rw [declared?, h, Option.bind_some, hc])
  unfold topLevel
  split <;> rename_i h
  · exact ensures_pure.2 (silent h rfl d)
  · exact ensures_pure.2 (silent h rfl d)
  · exact ensures_pure.2 (silent h rfl d)
  · refine (element_name true).bind fun i e hi => ensures_pure.2 fun what => ?_
    rw [naming h rfl]
    cases what <;> simp [Document.names, hi]
  · refine (complexType_name _).bind fun i e hi => ensures_pure.2 fun what => ?_
    rw [naming h rfl]
    cases what <;> simp [Document.names, hi]
  · refine (simpleType_name hd _).bind fun i e hi => ensures_pure.2 fun what => ?_
    rw [naming h rfl]
    cases what <;> simp [Document.names, hi]
  · refine group_name.bind fun i e hi => ensures_pure.2 fun what => ?_
    rw [naming h rfl]
    cases what <;> simp [Document.names, hi]
  · refine (attr_name true).bind fun i e hi => ensures_pure.2 fun what => ?_
    rw [naming h rfl]
    cases what <;> simp [Document.names, hi]
  · refine attributeGroup_name.bind fun i e hi => ensures_pure.2 fun what => ?_
    rw [naming h rfl]
    cases what <;> simp [Document.names, hi]
  · refine ensures_pure.2 fun what => ?_
    rcases hc : Construct.ofName? n with _ | c
    · rw [namesAt_of_none (by rw [declared?, hc]; rfl), List.append_nil]
    · cases c <;> first | exact silent hc rfl d what | contradiction

theorem topLevels_lists (content : List Tree) (hd : d.Closed) {doc : Document} {directives : List Directive}
    (hdoc : GoodDocument d doc) (hspace : doc.space = s.space) :
    Ensures (topLevels s doc directives content) d
      (fun r e => ∀ what, r.1.names e what = doc.names d what ++ namesAt what content)
      fun _ _ => True := by
  induction content generalizing d doc directives with
  | nil => exact ensures_pure.2 fun what => (List.append_nil _).symm
  | cons t ts ih =>
    cases t with
    | text v =>
      refine (ih hd hdoc hspace).mono (fun r e h what => ?_) fun _ _ _ => trivial
      rw [namesAt_cons, namesAt_of_none rfl, List.nil_append]
      exact h what
    | element n as inner =>
      have hstep := (reads_topLevel hdoc hspace d (.refl d) hd).and
        (topLevel_lists n as inner hd doc directives)
      refine ensures_bind.2 (hstep.mono (fun r e hr => ?_) fun _ _ _ => trivial)
      obtain ⟨⟨he, hgrows, hgood, hspace'⟩, hlists⟩ := hr
      refine (ih he hgood hspace').mono (fun r' e' h what => ?_) fun _ _ _ => trivial
      rw [h what, hlists what, hdoc.names_kept hgrows.toKept, List.append_assoc, ← namesAt_cons]

/-- A document lists the names at its top. -/
theorem document_lists (content : List Tree) (hd : d.Closed) :
    Ensures (document s content) d (fun r e => ∀ what, r.1.names e what = namesAt what content)
      fun _ _ => True := by
  unfold document
  refine (topLevels_lists content hd ?_ rfl).mono (fun r e h what => ?_) fun _ _ _ => trivial
  · exact ⟨nofun, nofun, nofun, nofun, nofun, nofun⟩
  · rw [h what]
    cases what <;> rfl

end Documents

end Declaring

/-! ## Tables -/

theorem Table.isSome_find?_foldl_put_of_mem_map {α β : Type} {t : Table α} {l : List β}
    {space : String} {name : β → Option String} {val : β → α} {n : Option String}
    (h : n ∈ l.map name) :
    ((l.foldl (fun t x => t.put ⟨space, name x⟩ (val x)) t).find? ⟨space, n⟩).isSome := by
  obtain ⟨x, hx, rfl⟩ := List.mem_map.1 h
  exact isSome_find?_foldl_put_of_mem (fun x => ⟨space, name x⟩) hx

namespace SchemaSet

variable {s : SchemaSet} {what : Symbol} {q : QName}

/-- A name stands in the table of its kind. -/
def Files (s : SchemaSet) (q : QName) : Symbol → Prop
  | .element => (s.elements.find? q).isSome
  | .type => (s.types.find? q).isSome
  | .group => (s.groups.find? q).isSome
  | .attr => (s.attributes.find? q).isSome
  | .attrGroup => (s.attributeGroups.find? q).isSome

/-- A name is found by the look-up of its kind. -/
def Finds (s : SchemaSet) (q : QName) : Symbol → Prop
  | .element => (s.element? q).isSome
  | .type => (s.type? q).isSome
  | .group => (s.group? q).isSome
  | .attr => (s.attr? q).isSome
  | .attrGroup => (s.attributeGroup? q).isSome

instance (s : SchemaSet) (q : QName) : DecidablePred (s.Finds q)
  | .element => inferInstanceAs (Decidable (_ = true))
  | .type => inferInstanceAs (Decidable (_ = true))
  | .group => inferInstanceAs (Decidable (_ = true))
  | .attr => inferInstanceAs (Decidable (_ = true))
  | .attrGroup => inferInstanceAs (Decidable (_ = true))

/-- All but a type is found where it stands in a table; the types of the schema language itself
stand in the way of others in its namespace. -/
theorem Files.finds (h : s.Files q what) (hspace : what = .type → q.space ≠ xsSpace) :
    s.Finds q what := by
  cases what with
  | type =>
    change (s.type? q).isSome
    rw [type?, if_neg (by simpa using hspace rfl)]
    exact h
  | _ => exact h

theorem Files.add (h : s.Files q what) (doc : Document) : (s.add doc).Files q what := by
  cases what <;> exact Table.isSome_find?_foldl_put h

theorem files_add {doc : Document} {n : Option String} (h : n ∈ doc.names s.declared what) :
    (s.add doc).Files ⟨doc.space, n⟩ what := by
  cases what <;> exact Table.isSome_find?_foldl_put_of_mem_map h

/-- A document that is read into a set files the names at its top, and takes none away. -/
theorem read_files (h : s.Closed) {setting : Setting} {content : List Tree} {s' : SchemaSet}
    {directives : List Directive} (hread : s.read setting content = (s', .ok directives)) :
    (∀ what q, s.Files q what → s'.Files q what) ∧
      ∀ what, ∀ n ∈ namesAt what content, s'.Files ⟨setting.space, n⟩ what := by
  have hrun := (Declaring.document_directives (s := setting) (d := s.declared) content).and
    (Declaring.document_lists (s := setting) content h.declared)
  unfold Ensures at hrun
  unfold SchemaSet.read at hread
  split at hrun <;> rename_i heq <;> rw [heq] at hread
  · rename_i r d
    obtain ⟨⟨-, hspace, -⟩, hlists⟩ := hrun
    obtain rfl : _ = s' := congrArg Prod.fst hread
    refine ⟨fun what q hq => Files.add (s := { s with declared := d }) ?_ r.1, fun what n hn => ?_⟩
    · cases what <;> exact hq
    · rw [← hspace]
      exact files_add (s := { s with declared := d }) ((hlists what).symm ▸ hn)
  · cases congrArg Prod.snd hread

end SchemaSet
end Schema
end SchemaPaths
