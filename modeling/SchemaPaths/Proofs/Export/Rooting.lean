/-
Roots that are found by their names.

A name without a colon means the element of that name in the first namespace that has one.  In any
other name the last colon parts the namespace from the rest, so a namespace may hold colons itself;
a type goes before an element.  Main statement: in a loaded set the elements and types at the top
are found in this way and nothing else is, and each candidate for a root without a colon in its name
is the name of an element that is found by it.
-/
import Mathlib.Data.List.TakeWhile
import SchemaPaths.Proofs.Export.Columns

namespace SchemaPaths

open Schema

/-! ## Names with colons -/

namespace Text

variable {c : Char} {before after : List Char}

theorem ne_of_mem_reverse (h : c ∉ after) : ∀ a ∈ after.reverse, (a != c) = true := by
  intro a ha
  rw [bne_iff_ne]
  exact fun heq => h (heq ▸ List.mem_reverse.1 ha)

theorem takeWhile_reverse_of_not_mem (h : c ∉ after) :
    (before ++ c :: after).reverse.takeWhile (· != c) = after.reverse := by
  rw [List.reverse_append, List.reverse_cons, List.append_assoc,
    List.takeWhile_append_of_pos (ne_of_mem_reverse h)]
  simp

theorem cutLast?_of_not_mem {s : String} (h : c ∉ s.toList) : cutLast? c s = none := by
  have hall : s.toList.reverse.takeWhile (· != c) = s.toList.reverse :=
    List.takeWhile_eq_self_iff.2 (ne_of_mem_reverse h)
  simp [cutLast?, hall]

/-- A text is cut at its last mark, whatever stands before that. -/
theorem cutLast?_append {s t : String} (h : c ∉ t.toList) :
    cutLast? c (s ++ String.singleton c ++ t) = some (s, t) := by
  have hlist : (s ++ String.singleton c ++ t).toList = s.toList ++ c :: t.toList := by simp
  have hsplit : s.toList ++ c :: t.toList = (s.toList ++ [c]) ++ t.toList := by simp
  have hrest : (s.toList ++ c :: t.toList).take
      ((s.toList ++ c :: t.toList).length - t.toList.length) = s.toList ++ [c] := by
    rw [hsplit, List.length_append, Nat.add_sub_cancel, List.take_left]
  unfold cutLast?
  dsimp only
  rw [hlist, takeWhile_reverse_of_not_mem h, List.reverse_reverse, hrest, List.reverse_append]
  simp

end Text

/-! ## What reading and linking keep -/

namespace Schema

/-- What is kept by reading the documents of a source and by linking holds of every loader. -/
theorem Loader.Reached.keepsFrom {p : Source → SchemaSet → Prop} (hempty : ∀ source, p source {})
    (hread : ∀ source s setting content, s.Closed → source.Offers setting content →
      p source s → p source (s.read setting content).1)
    (hlink : ∀ source s, s.Closed → p source s → p source s.link.1) {l : Loader}
    (hl : l.Reached) : p l.source l.set := by
  have hsteps : Steps fun l l' => l.set.Closed ∧ p l.source l.set →
      l'.set.Closed ∧ p l'.source l'.set :=
    { refl := fun _ h => h
      trans := fun h h' hl => h' (h hl)
      say := fun _ _ h => h
      enter := fun l setting content hoffers h =>
        ⟨h.1.read setting content, hread l.source l.set setting content h.1 hoffers h.2⟩ }
  induction hl with
  | fresh source => exact hempty source
  | @load l hl primary ih =>
    refine load_left (fun l' => p l'.source l'.set) ?_
    refine ((leads_readAll hsteps primary l).mono (fun _ _ h => h ⟨hl.closed, ih⟩)
      fun _ _ h => (h ⟨hl.closed, ih⟩).2).bind fun _ l' hl' => ?_
    have hlinked := hlink l'.source l'.set hl'.1 hl'.2
    have hend := (ensures_linkAll_set l').and (ensures_linkAll_outcome l')
    exact hend.mono (fun _ l'' h => h.1.1 ▸ h.2.1 ▸ hlinked) fun _ l'' h => h.1.1 ▸ h.2.1 ▸ hlinked

theorem Loader.Reached.keeps {p : SchemaSet → Prop} (hempty : p {})
    (hread : ∀ s setting content, s.Closed → p s → p (s.read setting content).1)
    (hlink : ∀ s, s.Closed → p s → p s.link.1) {l : Loader} (hl : l.Reached) : p l.set :=
  hl.keepsFrom (p := fun _ => p) (fun _ => hempty)
    (fun _ s setting content hs _ => hread s setting content hs) fun _ => hlink

namespace SchemaSet

variable {s : SchemaSet}

/-- What reading and linking keep holds of every loaded set. -/
theorem Loaded.keeps {p : SchemaSet → Prop} (hempty : p {})
    (hread : ∀ s setting content, s.Closed → p s → p (s.read setting content).1)
    (hlink : ∀ s, s.Closed → p s → p s.link.1) (h : s.Loaded) : p s := by
  obtain ⟨l, primary, hl, -, rfl⟩ := h
  exact (hl.load primary).keeps hempty hread hlink

/-- No element at the top of a document is missing from the table of elements, though another of
its name may stand in its place. -/
def FilesElements (s : SchemaSet) : Prop :=
  ∀ doc ∈ s.documents, ∀ e ∈ doc.elements,
    (s.element? ⟨doc.space, (s.declared.element e).name⟩).isSome

theorem FilesElements.add (h : s.FilesElements) (doc : Document) : (s.add doc).FilesElements := by
  intro doc' hdoc' e he
  rcases List.mem_append.1 hdoc' with hdoc' | hdoc'
  · exact Table.isSome_find?_foldl_put (h doc' hdoc' e he)
  · obtain rfl := List.mem_singleton.1 hdoc'
    exact Table.isSome_find?_foldl_put_of_mem
      (fun i => ⟨doc'.space, (s.declared.element i).name⟩) he

theorem FilesElements.read (hs : s.Closed) (h : s.FilesElements) (setting : Setting)
    (content : List Markup.Tree) : (s.read setting content).1.FilesElements := by
  obtain ⟨d, -, hgrows, hcase⟩ := read_cases hs setting content
  have hkept : ({ s with declared := d } : SchemaSet).FilesElements := fun doc hdoc e he => by
    rw [hgrows.toKept.element e ((hs.documents doc hdoc).elements e he)]
    exact h doc hdoc e he
  obtain ⟨heq, -⟩ | ⟨doc, directives, -, heq⟩ := hcase
  · rw [heq]
    exact hkept
  · rw [heq]
    exact hkept.add doc

theorem FilesElements.link (hs : s.Closed) (h : s.FilesElements) : s.link.1.FilesElements := by
  intro doc hdoc e he
  have hname : (s.link.1.declared.element e).name = (s.declared.element e).name :=
    (congrArg Element.name ((Frame.of_link hs).element e) :)
  rw [hname]
  exact h doc hdoc e he

theorem Loaded.filesElements (h : s.Loaded) : s.FilesElements :=
  h.keeps nofun (fun _ setting content hs hp => hp.read hs setting content) fun _ hs hp => hp.link hs

/-- An element at the top of some document goes by the name. -/
def HasTop (s : SchemaSet) (n : String) : Prop :=
  ∃ doc ∈ s.documents, ∃ e ∈ doc.elements, (s.declared.element e).name = some n

section Names

variable {n space : String} {e : ElementId}

/-- What is found under a name has that name, and its namespace is one of the set. -/
theorem Closed.found (hs : s.Closed) (h : s.element? ⟨space, some n⟩ = some e) :
    space ∈ s.namespaces ∧ s.HasTop n ∧ (s.declared.element e).name = some n := by
  obtain ⟨doc, hdoc, htop, hkey⟩ := hs.filed.elements _ (Table.mem_of_find? h)
  obtain ⟨hspace, hname⟩ : space = doc.space ∧ some n = (s.declared.element e).name := by
    simpa using hkey
  refine ⟨mem_distinct.2 (List.mem_flatMap.2 ⟨doc, hdoc, ?_⟩), ⟨doc, hdoc, e, htop, hname.symm⟩,
    hname.symm⟩
  rw [hspace]
  exact List.mem_cons_self

/-- The names of the elements at the top of documents are those that the table has in some
namespace. -/
theorem Loaded.hasTop_iff (h : s.Loaded) :
    s.HasTop n ↔ ∃ space e, s.element? ⟨space, some n⟩ = some e := by
  constructor
  · rintro ⟨doc, hdoc, e, he, hname⟩
    have hsome := h.filesElements doc hdoc e he
    rw [hname] at hsome
    obtain ⟨e', he'⟩ := Option.isSome_iff_exists.1 hsome
    exact ⟨doc.space, e', he'⟩
  · rintro ⟨space, e, he⟩
    exact (h.closed.found he).2.1

theorem exists_found_of_mem_names (h : some n ∈ s.elements.names.map (·.name)) :
    ∃ space e, s.element? ⟨space, some n⟩ = some e := by
  obtain ⟨q, hq, hname⟩ := List.mem_map.1 h
  obtain ⟨entry, hentry, rfl⟩ := List.mem_map.1 hq
  have hsome : (s.element? entry.1).isSome :=
    List.lookup_isSome_iff.2 ⟨entry, hentry, beq_self_eq_true _⟩
  obtain ⟨e, he⟩ := Option.isSome_iff_exists.1 hsome
  refine ⟨entry.1.space, e, ?_⟩
  rw [← hname]
  exact he

end Names
end SchemaSet
end Schema

/-! ## Names of roots -/

namespace Export
namespace Root

variable {s : SchemaSet} {n space : String} {e : ElementId}

/-- The element of the name in the first namespace that has one. -/
def IsFirst (s : SchemaSet) (n space : String) (e : ElementId) : Prop :=
  ∃ before after, s.namespaces = before ++ space :: after ∧
    (∀ other ∈ before, s.element? ⟨other, some n⟩ = none) ∧ s.element? ⟨space, some n⟩ = some e

theorem unqualified?_eq_some_iff :
    unqualified? s n = some (space, e) ↔ IsFirst s n space e := by
  unfold unqualified? IsFirst
  rw [List.findSome?_eq_some_iff]
  constructor
  · rintro ⟨before, other, after, hsplit, hfound, hbefore⟩
    obtain ⟨e', he', heq⟩ := Option.map_eq_some_iff.1 hfound
    cases heq
    exact ⟨before, after, hsplit, fun x hx => Option.map_eq_none_iff.1 (hbefore x hx), he'⟩
  · rintro ⟨before, after, hsplit, hbefore, hfound⟩
    refine ⟨before, space, after, hsplit, by rw [hfound]; rfl, fun x hx => ?_⟩
    rw [hbefore x hx]
    rfl

theorem unqualified?_eq_none_iff (hs : s.Closed) :
    unqualified? s n = none ↔ ∀ space, s.element? ⟨space, some n⟩ = none := by
  unfold unqualified?
  rw [List.findSome?_eq_none_iff]
  constructor
  · intro h space
    by_contra hne
    obtain ⟨e, he⟩ := Option.ne_none_iff_exists'.1 hne
    have hnone := Option.map_eq_none_iff.1 (h space (hs.found he).1)
    rw [he] at hnone
    cases hnone
  · intro h space _
    rw [h space]
    rfl

theorem find_of_no_colon (h : ':' ∉ n.toList) :
    find s n = match unqualified? s n with
      | some (space, e) => .ok (.element e, [.rootFound n space])
      | none => .error (.schema (.rootMissing n)) := by
  have hcut : Text.cutLast? ':' n = none := Text.cutLast?_of_not_mem h
  unfold find
  generalize Text.cutLast? ':' n = cut at hcut ⊢
  subst hcut
  rfl

theorem find_of_colon (h : ':' ∉ n.toList) :
    find s (space ++ ":" ++ n) = match qualified? s space n with
      | some r => .ok (r, [])
      | none => .error (.schema (.rootMissing (space ++ ":" ++ n))) := by
  have hcut : Text.cutLast? ':' (space ++ ":" ++ n) = some (space, n) := Text.cutLast?_append h
  unfold find
  generalize Text.cutLast? ':' (space ++ ":" ++ n) = cut at hcut ⊢
  subst hcut
  rfl

/-- The type of a name in the tables, or else the element. -/
def atTop? (s : SchemaSet) (q : QName) : Option Root :=
  match s.types.find? q with
  | some t => some (.type t)
  | none => (s.elements.find? q).map .element

/-- A namespace that is no prefix stands for itself. -/
theorem qualified?_of_space (hspace : space ≠ xsSpace)
    (hunbound : s.prefixes.lookup space = none) :
    qualified? s space n = atTop? s ⟨space, some n⟩ := by
  have htype : s.type? ⟨space, some n⟩ = s.types.find? ⟨space, some n⟩ := by
    rw [SchemaSet.type?, if_neg]
    simpa using hspace
  rw [qualified?, hunbound, Option.getD_none, htype]
  rfl

/-- The element that is found is the first of its name, and there is one exactly if some element at
the top has the name. -/
theorem find_element (h : s.Loaded) (hn : ':' ∉ n.toList) :
    (s.HasTop n → ∃ space e, IsFirst s n space e ∧
      find s n = .ok (.element e, [.rootFound n space])) ∧
    (¬ s.HasTop n → find s n = .error (.schema (.rootMissing n))) := by
  rw [find_of_no_colon hn]
  cases hfirst : unqualified? s n with
  | none =>
    have hnone : ¬ s.HasTop n := fun htop => by
      obtain ⟨space, e, he⟩ := h.hasTop_iff.1 htop
      rw [(unqualified?_eq_none_iff h.closed).1 hfirst space] at he
      cases he
    exact ⟨fun htop => absurd htop hnone, fun _ => rfl⟩
  | some found =>
    obtain ⟨space, e⟩ := found
    have hisFirst := unqualified?_eq_some_iff.1 hfirst
    have htop : s.HasTop n := by
      obtain ⟨-, -, -, -, he⟩ := hisFirst
      exact (h.closed.found he).2.1
    exact ⟨fun _ => ⟨space, e, hisFirst, rfl⟩, fun hnone => absurd htop hnone⟩

/-! ## Loaded sets -/

/-- A name without a colon is found exactly if an element at the top of some document has it, and
then in the first namespace that has such an element.  A namespace before the last colon, unless it
is a prefix or that of the schema language, has its type found, or else its element, or nothing.  So
every candidate without a colon is found, as an element of that name. -/
theorem names_resolve (h : s.Loaded) :
    (∀ n, ':' ∉ n.toList →
      (s.HasTop n → ∃ space e, IsFirst s n space e ∧
        find s n = .ok (.element e, [.rootFound n space])) ∧
      (¬ s.HasTop n → find s n = .error (.schema (.rootMissing n)))) ∧
    (∀ space n, ':' ∉ n.toList → space ≠ xsSpace → s.prefixes.lookup space = none →
      find s (space ++ ":" ++ n) = match atTop? s ⟨space, some n⟩ with
        | some root => .ok (root, [])
        | none => .error (.schema (.rootMissing (space ++ ":" ++ n)))) ∧
    ∀ groups, ∃ edges, Graph.ofSchemaSet s groups = .ok edges ∧
      ∀ n, some n ∈ candidates s edges → ':' ∉ n.toList →
        ∃ e notices, find s n = .ok (.element e, notices) ∧
          (s.declared.element e).name = some n := by
  refine ⟨fun n hn => find_element h hn, fun space n hn hspace hunbound => ?_, fun groups => ?_⟩
  · rw [find_of_colon hn, qualified?_of_space hspace hunbound]
  · obtain ⟨edges, hedges⟩ := Graph.ofSchemaSet_succeeds h.isLinked.walkable groups
    refine ⟨edges, hedges, fun n hcandidate hn => ?_⟩
    have hname : some n ∈ s.elements.names.map (·.name) := by
      simpa using (List.mem_filter.1 hcandidate).2
    have htop := h.hasTop_iff.2 (SchemaSet.exists_found_of_mem_names hname)
    obtain ⟨space, e, ⟨-, -, -, -, he⟩, hfind⟩ := (find_element h hn).1 htop
    exact ⟨e, _, hfind, (h.closed.found he).2.2⟩

/-- A type and an element of one name in a namespace with a colon. -/
def sharedNameText : String :=
  "<s:schema xmlns:s=\"" ++ xsSpace ++ "\" targetNamespace=\"urn:t\"><s:element name=\"a\"/>" ++
    "<s:complexType name=\"a\"/><s:element name=\"b\"/></s:schema>"

def sharedName : SchemaSet := .ofText sharedNameText

theorem sharedName_facts : (Loader.ofText sharedNameText).2 = .ok () ∧
    sharedName.prefixes.lookup "urn:t" = none ∧
    atTop? sharedName ⟨"urn:t", some "a"⟩ = some (.type (.complex (.declared 0))) ∧
    atTop? sharedName ⟨"urn:t", some "b"⟩ = some (.element 1) ∧
    sharedName.element? ⟨"urn:t", some "a"⟩ = some 0 := by
  rw [sharedName, SchemaSet.ofText_eq, Loader.ofText_eq]
  decide +kernel

theorem sharedName_loaded : sharedName.Loaded := SchemaSet.loaded_ofText sharedName_facts.1

theorem sharedName_resolves : sharedName.Loaded ∧
    find sharedName "urn:t:a" = .ok (.type (.complex (.declared 0)), []) ∧
    find sharedName "urn:t:b" = .ok (.element 1, []) ∧
    ∃ space e, IsFirst sharedName "a" space e ∧
      find sharedName "a" = .ok (.element e, [.rootFound "a" space]) := by
  obtain ⟨-, hunbound, htype, helement, hfound⟩ := sharedName_facts
  obtain ⟨hplain, hqualified, -⟩ := names_resolve sharedName_loaded
  refine ⟨sharedName_loaded, ?_, ?_, ?_⟩
  · have hfind := hqualified "urn:t" "a" (by decide) (by decide) hunbound
    rw [htype] at hfind
    exact hfind
  · have hfind := hqualified "urn:t" "b" (by decide) (by decide) hunbound
    rw [helement] at hfind
    exact hfind
  · exact (hplain "a" (by decide)).1 (sharedName_loaded.closed.found hfound).2.1

end Root
end Export
end SchemaPaths
