/-
A load of a document that is there.

Every document stands at a location in plain form, so its location, given to the loader, is that of
a document it has.  Such a load reads nothing and links what is linked already: it succeeds, and
nothing in the set is changed by it.
-/
import SchemaPaths.Proofs.Linking.Relinking
import SchemaPaths.Proofs.Loading.Plain
import SchemaPaths.Proofs.Loading.Retrying

namespace SchemaPaths
namespace Schema
namespace Loader

/-! ## Where the documents of a loader are -/

/-- A loader of a certain source, all of whose documents stand at locations in plain form. -/
structure Plain (source : Source) (l : Loader) : Prop where
  source_eq : l.source = source
  plain : ∀ x ∈ l.locations, source.normalize x = .ok x

/-- Reading one document keeps the locations plain, with so much fuel. -/
def KeepsPlain (source : Source) (fuel : Nat) : Prop :=
  ∀ (location : String) (adopted : Option String) (l : Loader), Plain source l →
    source.normalize location = .ok location →
    Ensures (loadDocument fuel location adopted) l (fun _ l' => Plain source l')
      fun _ l' => Plain source l'

section Plain

variable {source : Source} {l : Loader}

theorem Plain.of_same {l' : Loader} (h : Plain source l) (hsource : l'.source = l.source)
    (hlocations : l'.locations = l.locations) : Plain source l' := by
  constructor
  · rw [hsource, h.source_eq]
  · rw [hlocations]
    exact h.plain

theorem Plain.noticed (h : Plain source l) (notices : List Notice) :
    Plain source { l with notices } := h.of_same rfl rfl

theorem ensures_enter_plain (h : Plain source l) {setting : Setting}
    (hsetting : source.normalize setting.source = .ok setting.source)
    (content : List Markup.Tree) :
    Ensures (enter setting content) l (fun _ l' => Plain source l') fun _ l' => Plain source l' := by
  obtain ⟨d, e, -, hread⟩ | ⟨d, doc, hdoc, -, hread⟩ := read_places l.set setting content
  · exact (ensures_enter_of_error hread).2 ⟨h.source_eq, h.plain⟩
  · refine (ensures_enter_of_ok hread).2 ⟨h.source_eq, fun x hx => ?_⟩
    have hlocations : x ∈ l.locations ++ [doc.source] := by
      simpa [locations, SchemaSet.add] using hx
    rcases List.mem_append.1 hlocations with hx | hx
    · exact h.plain x hx
    · rw [List.mem_singleton.1 hx, hdoc, hsetting]

variable (hsource : source.Placed)
include hsource

theorem ensures_follow_plain {fuel : Nat} (ih : KeepsPlain source fuel) (h : Plain source l)
    {location : String} (hlocation : source.normalize location = .ok location) (space : String)
    (d : Directive) :
    Ensures (follow fuel location space d) l (fun _ l' => Plain source l')
      fun _ l' => Plain source l' := by
  unfold follow
  split
  · split
    · exact ensures_modify.2 (h.noticed _)
    · exact ensures_throw.2 h
  · refine ensures_bind.2 (ensures_get.2 (ensures_bind.2 ?_))
    rw [h.source_eq]
    refine ensures_lift (fun child hchild => ?_) fun _ _ => h
    have hplain := Source.normalize_of_resolve hsource hlocation hchild
    exact ensures_bind.2 (ensures_modify.2 (ih child _ _ (h.noticed _) hplain))

theorem keepsPlain (fuel : Nat) : KeepsPlain source fuel := by
  induction fuel with
  | zero => exact fun _ _ _ h _ => ensures_throw.2 h
  | succ fuel ih =>
    intro location adopted l h hlocation
    by_cases hknown : location ∈ l.locations
    · exact ensures_known hknown h.noticed
    refine ensures_new hknown (ensures_bind.2 (ensures_get.2 (ensures_bind.2 ?_)))
    refine ensures_lift (fun bytes _ => ensures_bind.2 ?_) fun _ _ => h
    refine ensures_lift (fun tree _ => ensures_bind.2 ?_) fun _ _ => h
    refine (ensures_enter_plain h hlocation tree.content).mono (fun directives l₁ h₁ => ?_)
      fun _ _ h₁ => h₁
    exact ensures_forM (fun _ => Plain source) h₁ fun _ d _ t _ ht =>
      ensures_follow_plain hsource ih ht hlocation _ d

theorem ensures_readAll_plain (h : Plain source l) (primary : String) :
    Ensures (readAll primary) l (fun _ l' => Plain source l') fun _ l' => Plain source l' := by
  unfold readAll
  refine ensures_bind.2 (ensures_get.2 (ensures_bind.2 ?_))
  rw [h.source_eq]
  refine ensures_lift (fun location hlocation => ?_) fun _ _ => h
  have hplain := Source.normalize_of_normalize hsource hlocation
  refine ensures_bind.2 (ensures_get.2 (ensures_bind.2 ?_))
  refine (keepsPlain hsource _ location none l h hplain).mono (fun _ l' h' => ?_) fun _ _ h' => h'
  exact ensures_bind.2 (ensures_get.2 (ensures_modify.2 (h'.noticed _)))

theorem Plain.load (h : Plain source l) (primary : String) :
    Plain source (l.load primary).1 := by
  apply load_left (Plain source)
  apply (ensures_readAll_plain hsource h primary).bind
  intro _ l₁ h₁
  exact (ensures_linkAll_outcome l₁).mono (fun _ _ h => h₁.of_same h.1 h.2.1)
    fun _ _ h => h₁.of_same h.1 h.2.1

end Plain

/-- A loader keeps its source. -/
theorem load_source (l : Loader) (primary : String) : (l.load primary).1.source = l.source := by
  apply load_left fun l' => l'.source = l.source
  apply ((leads_readAll steps_advances primary l).mono (fun _ _ h => h.1) fun _ _ h => h.1).bind
  intro _ l₁ h₁
  exact (ensures_linkAll_outcome l₁).mono (fun _ _ h => h.1.trans h₁) fun _ _ h => h.1.trans h₁

theorem Reached.plain {l : Loader} (h : l.Reached) (hsource : l.source.Placed) :
    Plain l.source l := by
  induction h with
  | fresh source =>
    constructor
    · rfl
    · intro x hx
      cases hx
  | @load l h primary ih =>
    rw [load_source] at hsource ⊢
    exact (ih hsource).load hsource primary

/-! ## A load after one that succeeded -/

section Again

variable {l : Loader} {primary path : String}

/-- After a load that succeeded, a load of a document that was read succeeds and changes nothing in
the set. -/
theorem load_read_again (hl : l.Reached) (hok : (l.load primary).2 = .ok ())
    (hread : HasRead path (l.load primary).1) :
    ((l.load primary).1.load path).2 = .ok () ∧
      ((l.load primary).1.load path).1.set = (l.load primary).1.set := by
  obtain ⟨hset, hlink⟩ := load_known hread
  have hagain := SchemaSet.IsLinked.link_again ((load_cases hl.closed primary).2 hok)
  rw [hset, hlink, hagain]
  exact ⟨rfl, rfl⟩

/-- After a load that succeeded, a load of any document that the loader has succeeds.  The documents,
the tables and the declarations, with all that linking found out about them, are as before. -/
theorem reload_idempotent (hl : l.Reached) (hsource : l.source.Placed)
    (hok : (l.load primary).2 = .ok ()) {location : String}
    (hknown : location ∈ (l.load primary).1.locations) :
    ((l.load primary).1.load location).2 = .ok () ∧
      ((l.load primary).1.load location).1.set = (l.load primary).1.set := by
  have hplain : Plain l.source (l.load primary).1 := (hl.plain hsource).load hsource primary
  apply load_read_again hl hok
  refine ⟨location, ?_, hknown⟩
  rw [load_source]
  exact hplain.plain location hknown

end Again

/-! ## A type that extends one of another document -/

def derivedFiles : List (String × List UInt8) :=
  [("a", schemaBytes " targetNamespace=\"u\" xmlns:u=\"u\""
      ("<include schemaLocation=\"x/../b\"/><complexType name=\"t\"><complexContent>" ++
        "<extension base=\"u:s\"><sequence><element name=\"d\" type=\"int\"/></sequence>" ++
        "</extension></complexContent></complexType>")),
    ("b", schemaBytes " xmlns:u=\"u\""
      ("<group name=\"g\"><sequence><element name=\"c\"/></sequence></group>" ++
        "<complexType name=\"s\"><group ref=\"u:g\"/><attribute name=\"k\"/></complexType>"))]

theorem derived_facts : ((ofUpload derivedFiles).load "a").2 = .ok () ∧
    "b" ∈ ((ofUpload derivedFiles).load "a").1.locations := by
  rw [derivedFiles, schemaBytes, schemaBytes, utf8_eq, utf8_eq]
  decide +kernel

theorem derived_reload : (ofUpload derivedFiles).source.Placed ∧
    ((ofUpload derivedFiles).load "a").2 = .ok () ∧
    "b" ∈ ((ofUpload derivedFiles).load "a").1.locations ∧
    (((ofUpload derivedFiles).load "a").1.load "b").2 = .ok () ∧
    (((ofUpload derivedFiles).load "a").1.load "b").1.set =
      ((ofUpload derivedFiles).load "a").1.set :=
  have hplaced : (ofUpload derivedFiles).source.Placed := trivial
  ⟨hplaced, derived_facts.1, derived_facts.2,
    reload_idempotent (.fresh _) hplaced derived_facts.1 derived_facts.2⟩

end Loader
end Schema
end SchemaPaths
