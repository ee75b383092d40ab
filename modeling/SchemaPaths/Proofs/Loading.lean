/-
Sets that were loaded.

A loader reads documents into its set and links all of it, load after load, and what it read before
a failure stays.  Its set is closed all the while; after a load that succeeded it is linked, too.
-/
import SchemaPaths.Proofs.Linking.Whole
import SchemaPaths.Proofs.Loading.Stepping

namespace SchemaPaths
namespace Schema
namespace Loader

theorem steps_closed : Steps fun l l' => l.set.Closed → l'.set.Closed where
  refl _ := id
  trans h h' hl := h' (h hl)
  say _ _ := id
  enter _ setting content _ hl := hl.read setting content

end Loader

/-! ## Loaded sets -/

/-- A set that is linked: every name leads to a declaration of a closed set with what linking found
out about it. -/
def SchemaSet.IsLinked (s : SchemaSet) : Prop :=
  ∃ s₀ : SchemaSet, s₀.Closed ∧ Linked s₀ s.declared ∧ s = { s₀ with declared := s.declared }

namespace Loader

theorem ensures_linkAll {l : Loader} (hl : l.set.Closed) :
    Ensures linkAll l (fun _ l' => l'.set.Closed ∧ l'.set.IsLinked) fun _ l' => l'.set.Closed := by
  unfold linkAll
  refine ensures_bind.2 (ensures_get.2 ?_)
  have hclosed := hl.link
  have hcases := link_cases hl
  have hsame : l.set.link.1 = { l.set with declared := l.set.link.1.declared } := rfl
  rcases hrun : l.set.link with ⟨linked, outcome⟩
  rw [hrun] at hclosed hcases hsame
  refine ensures_bind.2 (ensures_modify.2 (ensures_bind.2 ?_))
  rcases hcases with ⟨rfl, hlinked⟩ | ⟨f, rfl, -⟩
  · exact ⟨hclosed, l.set, hl, hlinked, hsame⟩
  · exact hclosed

/-- A load that fails leaves a closed set; one that succeeds has linked it, too. -/
theorem load_cases {l : Loader} (hl : l.set.Closed) (primary : String) :
    (l.load primary).1.set.Closed ∧
      ((l.load primary).2 = .ok () → (l.load primary).1.set.IsLinked) := by
  have hrun : Ensures (loadAll primary) l (fun _ l' => l'.set.Closed ∧ l'.set.IsLinked)
      fun _ l' => l'.set.Closed :=
    ((leads_readAll steps_closed primary l).mono (fun _ _ h => h hl) fun _ _ h => h hl).bind
      fun _ l' hl' => ensures_linkAll hl'
  refine ⟨load_left _ (hrun.mono (fun _ _ h => h.1) fun _ _ h => h), fun hok => ?_⟩
  exact (load_ok hrun hok).2

/-- What a loader can become: new, or after any loads, whether they succeeded or not. -/
inductive Reached : Loader → Prop
  | fresh (source : Source) : Reached { source }
  | load {l : Loader} (h : Reached l) (primary : String) : Reached (l.load primary).1

theorem Reached.closed {l : Loader} (h : Reached l) : l.set.Closed := by
  induction h with
  | fresh source => exact SchemaSet.closed_empty
  | load _ primary ih => exact (load_cases ih primary).1

end Loader

/-- A set that a load which succeeded left behind. -/
def SchemaSet.Loaded (s : SchemaSet) : Prop :=
  ∃ (l : Loader) (primary : String), l.Reached ∧ (l.load primary).2 = .ok () ∧
    (l.load primary).1.set = s

variable {s : SchemaSet}

theorem SchemaSet.Loaded.closed (h : s.Loaded) : s.Closed := by
  obtain ⟨l, primary, hl, -, rfl⟩ := h
  exact (Loader.load_cases hl.closed primary).1

theorem SchemaSet.Loaded.isLinked (h : s.Loaded) : s.IsLinked := by
  obtain ⟨l, primary, hl, hok, rfl⟩ := h
  exact (Loader.load_cases hl.closed primary).2 hok

/-- The set that a loader has after a load. -/
def Loader.left (l : Loader) (primary : String) : SchemaSet := (l.load primary).1.set

theorem Loader.Reached.loaded_left {l : Loader} (hl : l.Reached) {primary : String}
    (h : (l.load primary).2 = .ok ()) : (l.left primary).Loaded := ⟨l, primary, hl, h, rfl⟩

/-! ## Single documents -/

/-- What becomes of a new loader when it is given a single document. -/
def Loader.ofText (text : String) : Loader × Except Failure Unit :=
  Loader.load { source := .upload [("a.xsd", text.toUTF8.toList)] } "a.xsd"

def SchemaSet.ofText (text : String) : SchemaSet := (Loader.ofText text).1.set

theorem toList_loop (bs : ByteArray) (i : Nat) (done : List UInt8) :
    ByteArray.toList.loop bs i done = done.reverse ++ bs.data.toList.drop i := by
  fun_induction ByteArray.toList.loop bs i done with
  | case1 i done h ih =>
    have hlt : i < bs.data.toList.length := by simpa using h
    have hget : bs.get! i = bs.data.toList[i] := getElem!_pos bs.data i h
    rw [ih, List.drop_eq_getElem_cons hlt, hget, List.reverse_cons, List.append_assoc]
    rfl
  | case2 i done h =>
    have hle : bs.data.toList.length ≤ i := by simpa using h
    rw [List.drop_eq_nil_of_le hle, List.append_nil]

/-- The bytes of a text, which are otherwise taken out of the array one by one. -/
theorem utf8_eq (text : String) : text.toUTF8.toList = text.toByteArray.data.toList :=
  toList_loop text.toUTF8 0 []

-- a fixed text is evaluated several times faster in this form
theorem Loader.ofText_eq (text : String) : Loader.ofText text =
    Loader.load { source := .upload [("a.xsd", text.toByteArray.data.toList)] } "a.xsd" := by
  rw [Loader.ofText, utf8_eq]

theorem SchemaSet.ofText_eq (text : String) : ofText text =
    (Loader.load { source := .upload [("a.xsd", text.toByteArray.data.toList)] } "a.xsd").1.set := by
  rw [ofText, Loader.ofText_eq]

theorem SchemaSet.ofText_left (text : String) : ofText text =
    Loader.left { source := .upload [("a.xsd", text.toUTF8.toList)] } "a.xsd" := rfl

theorem SchemaSet.loaded_ofText {text : String} (h : (Loader.ofText text).2 = .ok ()) :
    (ofText text).Loaded := (Loader.Reached.fresh _).loaded_left h

/-- Every element has a name. -/
def SchemaSet.Named (s : SchemaSet) : Prop :=
  ∀ i < s.declared.elements.size, (s.declared.element i).name.isSome

instance (s : SchemaSet) : Decidable s.Named := inferInstanceAs (Decidable (∀ i < _, _))

/-! ## An element inside itself -/

/-- The element `a` stands in the content of its own type, before another element. -/
def nestedText : String :=
  "<s:schema xmlns:s=\"" ++ xsSpace ++ "\"><s:element name=\"a\" type=\"t\"/>" ++
    "<s:complexType name=\"t\"><s:sequence><s:element ref=\"a\"/>" ++
    "<s:element name=\"b\" type=\"s:int\"/></s:sequence></s:complexType></s:schema>"

def nestedLoader : Loader := { source := .upload [("a.xsd", nestedText.toUTF8.toList)] }

def nested : SchemaSet := (nestedLoader.load "a.xsd").1.set

theorem nested_eq : nested = SchemaSet.ofText nestedText := by
  rw [nested, SchemaSet.ofText, nestedLoader, Loader.ofText]

theorem nested_facts : (nestedLoader.load "a.xsd").2 = .ok () ∧ nested.Named ∧
    nested.element? ⟨"", some "a"⟩ = some 0 := by
  rw [nested_eq, SchemaSet.ofText_eq, nestedLoader, utf8_eq]
  decide +kernel

theorem nested_loaded : nested.Loaded := by
  rw [nested_eq]
  exact SchemaSet.loaded_ofText nested_facts.1

end Schema
end SchemaPaths
