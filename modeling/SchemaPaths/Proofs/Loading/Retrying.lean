/-
A load after one that failed.

What was read before a failure stays read, and a document that is there is passed over with all that
it refers to.  So a second try fails like the first unless the first came as far as to read the
primary document: then the second reads nothing, links what is there, and may well succeed, though
documents that the set refers to are missing from it.
-/
import SchemaPaths.Proofs.Loading
import SchemaPaths.Proofs.Loading.Following

namespace SchemaPaths
namespace Schema
namespace Loader

/-! ## What a try leaves behind -/

/-- A loader keeps its source and has more documents. -/
def Advances (l l' : Loader) : Prop := l'.source = l.source ∧ l.locations ⊆ l'.locations

theorem locations_read (s : SchemaSet) (setting : Setting) (content : List Markup.Tree) :
    s.documents.map (·.source) ⊆ (s.read setting content).1.documents.map (·.source) := by
  obtain ⟨d, e, -, hread⟩ | ⟨d, doc, -, -, hread⟩ := read_places s setting content
  · rw [hread]
    exact fun _ h => h
  · rw [hread]
    exact List.map_subset _ fun _ h => List.mem_append_left _ h

theorem steps_advances : Steps Advances where
  refl _ := ⟨rfl, fun _ h => h⟩
  trans h h' := ⟨h'.1.trans h.1, fun _ hx => h'.2 (h.2 hx)⟩
  say _ _ := ⟨rfl, fun _ h => h⟩
  enter l setting content _ := ⟨rfl, locations_read l.set setting content⟩

/-- A computation fails for a certain reason. -/
def FailsWith {α : Type} (e : Failure) (m : Load α) (l : Loader) : Prop :=
  Ensures m l (fun _ _ => False) fun e' _ => e' = e

section Failing

variable {α β : Type} {e : Failure} {l l₂ : Loader} {location : String}

theorem FailsWith.bind {m : Load α} (h : FailsWith e m l) (f : α → Load β) :
    FailsWith e (m >>= f) l :=
  ensures_bind.2 (h.mono (fun _ _ h => h.elim) fun _ _ h => h)

theorem failsWith_lift {r : Except Failure α} (h : r = .error e) : FailsWith e (lift r) l := by
  rw [h]
  exact ensures_throw.2 rfl

/-- Whether a document can be read does not depend on what was read before. -/
theorem read_again {s : SchemaSet} {setting : Setting} {content : List Markup.Tree}
    (h : (s.read setting content).2 = .error e) (s₂ : SchemaSet) :
    ∃ s', s₂.read setting content = (s', .error e) := by
  have halike := Declaring.alike_document (s := setting) content s.declared s₂.declared
  unfold Ensures at halike
  unfold SchemaSet.read at h ⊢
  split at halike <;> rename_i heq <;> rw [heq] at h
  · cases h
  · obtain ⟨-, hsame⟩ := halike
    split at hsame <;> rename_i heq₂ <;> rw [heq₂]
    · exact hsame.elim
    · rw [hsame]
      exact ⟨_, congrArg _ h⟩

theorem enter_again (setting : Setting) (content : List Markup.Tree) (l : Loader) :
    Ensures (enter setting content) l (fun _ l' => setting.source ∈ l'.locations)
      fun e _ => ∀ l₂, FailsWith e (enter setting content) l₂ := by
  unfold enter FailsWith
  refine ensures_bind.2 (ensures_get.2 ?_)
  obtain ⟨d, e, -, hread⟩ | ⟨d, doc, hsource, -, hread⟩ := read_places l.set setting content
  · rw [hread]
    intro l₂
    obtain ⟨s', hs'⟩ := read_again (congrArg Prod.snd hread) l₂.set
    refine ensures_bind.2 (ensures_get.2 ?_)
    rw [hs']
    rfl
  · rw [hread]
    exact List.mem_map.2 ⟨doc, List.mem_append_right _ (List.mem_singleton_self doc), hsource⟩

/-- A document that was not read is refused the next time for the same reason. -/
theorem readNew_again (fuel : Nat) (location : String) (adopted : Option String) (l : Loader) :
    Ensures (readNew fuel location adopted) l (fun _ l' => location ∈ l'.locations)
      fun e l' => location ∈ l'.locations ∨ ∀ l₂ fuel₂, l₂.source = l.source →
        FailsWith e (readNew fuel₂ location adopted) l₂ := by
  unfold readNew
  refine ensures_bind.2 (ensures_get.2 (ensures_bind.2 ?_))
  refine ensures_lift (fun bytes hbytes => ?_) fun e he => .inr fun l₂ fuel₂ hsource => ?_
  swap
  · refine ensures_bind.2 (ensures_get.2 ?_)
    rw [hsource]
    exact (failsWith_lift he).bind _
  refine ensures_bind.2 (ensures_lift (fun tree htree => ?_) fun e he =>
    .inr fun l₂ fuel₂ hsource => ?_)
  swap
  · refine ensures_bind.2 (ensures_get.2 ?_)
    rw [hsource, hbytes]
    exact ensures_bind.2 ((failsWith_lift he).bind _)
  refine ensures_bind.2 ((enter_again _ tree.content l).mono (fun directives l' hl' => ?_)
    fun e _ he => .inr fun l₂ fuel₂ hsource => ?_)
  · have hrest : Leads Advances
        (directives.forM (follow fuel location (spaceOf tree adopted))) :=
      .forM steps_advances fun d => leads_follow steps_advances
        (fun _ _ => leads_loadDocument steps_advances fuel _ _) location _ d
    exact (hrest l').mono (fun _ _ h => h.2 hl') fun _ _ h => .inl (h.2 hl')
  · refine ensures_bind.2 (ensures_get.2 ?_)
    rw [hsource, hbytes]
    refine ensures_bind.2 (ensures_bind.2 ?_)
    rw [htree]
    exact (he l₂).bind _

end Failing

/-! ## Whole loads -/

/-- The primary document was read. -/
def HasRead (primary : String) (l : Loader) : Prop :=
  ∃ location, l.source.normalize primary = .ok location ∧ location ∈ l.locations

section Loads

variable {primary : String} {l : Loader}

theorem loadDocument_again (fuel : Nat) (location : String) (adopted : Option String)
    (l : Loader) :
    Ensures (loadDocument (fuel + 1) location adopted) l (fun _ l' => location ∈ l'.locations)
      fun e l' => location ∈ l'.locations ∨ ∀ l₂, l₂.source = l.source → location ∉ l₂.locations →
        FailsWith e (loadDocument (fuel + 1) location adopted) l₂ := by
  by_cases hknown : location ∈ l.locations
  · exact ensures_known hknown fun _ => hknown
  · exact ensures_new hknown ((readNew_again fuel location adopted l).mono (fun _ _ h => h)
      fun e l' h => h.imp_right fun h l₂ hsource hnew => ensures_new hnew (h l₂ fuel hsource))

theorem readAll_again (primary : String) (l : Loader) :
    Ensures (readAll primary) l (fun _ l' => HasRead primary l')
      fun e l' => HasRead primary l' ∨ FailsWith e (readAll primary) l' := by
  unfold readAll
  refine ensures_bind.2 (ensures_get.2 (ensures_bind.2 ?_))
  refine ensures_lift (fun location hlocation => ?_) fun e he => .inr ?_
  swap
  · exact ensures_bind.2 (ensures_get.2 ((failsWith_lift he).bind _))
  have hagain := (loadDocument_again (l.source.fileCount + 1) location none l).and
    (leads_loadDocument steps_advances _ location none l)
  refine ensures_bind.2 (ensures_get.2 (ensures_bind.2 (hagain.mono ?_ ?_)))
  · rintro - l' ⟨hread, hsource, -⟩
    refine ensures_bind.2 (ensures_get.2 (ensures_modify.2 ⟨location, ?_, hread⟩))
    rw [← hlocation]
    exact congrArg (fun source => source.normalize primary) hsource
  · rintro e l' ⟨hagain, hsource, -⟩
    have hlocation' : l'.source.normalize primary = .ok location := by rw [hsource, hlocation]
    by_cases hread : location ∈ l'.locations
    · exact .inl ⟨location, hlocation', hread⟩
    · refine .inr (ensures_bind.2 (ensures_get.2 ?_))
      rw [hlocation']
      refine ensures_bind.2 (ensures_bind.2 (ensures_get.2 ?_))
      rw [hsource]
      exact ((hagain.resolve_left hread) l' hsource hread).bind _

theorem ensures_readAll_known (h : HasRead primary l) :
    Ensures (readAll primary) l (fun _ l' => l'.set = l.set) fun _ _ => False := by
  obtain ⟨location, hlocation, hknown⟩ := h
  unfold readAll
  refine ensures_bind.2 (ensures_get.2 ?_)
  rw [hlocation]
  refine ensures_bind.2 (ensures_bind.2 (ensures_get.2 (ensures_bind.2 ?_)))
  exact ensures_known hknown fun notices => rfl

/-- A load of a document that was read does nothing but link. -/
theorem load_known (h : HasRead primary l) :
    (l.load primary).1.set = l.set.link.1 ∧ (l.load primary).2 = l.set.link.2 := by
  have hrun : Ensures (loadAll primary) l
      (fun _ l' => l'.set = l.set.link.1 ∧ l.set.link.2 = .ok ())
      fun e l' => l'.set = l.set.link.1 ∧ l.set.link.2 = .error e := by
    refine ensures_bind.2 ((ensures_readAll_known h).mono ?_ fun _ _ h => h.elim)
    rintro - l' hset
    rw [← hset]
    exact ensures_linkAll_set l'
  cases houtcome : (l.load primary).2 with
  | ok u =>
    obtain ⟨hset, hlink⟩ := load_ok hrun houtcome
    exact ⟨hset, hlink.symm⟩
  | error e =>
    obtain ⟨hset, hlink⟩ := load_error hrun houtcome
    exact ⟨hset, hlink.symm⟩

/-- After a load that failed the next one succeeds just in case the first has read the primary
document and what there is can be linked. -/
theorem load_again_iff {e : Failure} (hfail : (l.load primary).2 = .error e) :
    ((l.load primary).1.load primary).2 = .ok () ↔
      HasRead primary (l.load primary).1 ∧ (l.load primary).1.set.link.2 = .ok () := by
  have hrun : Ensures (loadAll primary) l (fun _ _ => True)
      fun e l' => HasRead primary l' ∨ FailsWith e (loadAll primary) l' := by
    refine ensures_bind.2 ((readAll_again primary l).mono ?_ fun e l' h =>
      h.imp_right fun h => h.bind _)
    rintro - l₁ ⟨location, hlocation, hread⟩
    refine (ensures_linkAll_outcome l₁).mono (fun _ _ _ => trivial) fun e l' hl' => .inl ?_
    exact ⟨location, hl'.1 ▸ hlocation, hl'.2.1 ▸ hread⟩
  constructor
  · intro hok
    rcases load_error hrun hfail with hread | hagain
    · exact ⟨hread, (load_known hread).2.symm.trans hok⟩
    · exact (load_ok hagain hok).elim
  · rintro ⟨hread, hlink⟩
    exact (load_known hread).2.trans hlink

end Loads

/-! ## A document that includes a missing one -/

def missingFiles : List (String × List UInt8) :=
  [("a", schemaBytes "" "<include schemaLocation=\"b\"/>")]

theorem missing_fails : ((ofUpload missingFiles).load "a").2 =
    .error (.load .notUploaded (some "b")) := by decide +kernel

theorem load_again_missing :
    ((ofUpload missingFiles).load "a").2 = .error (.load .notUploaded (some "b")) ∧
    ((((ofUpload missingFiles).load "a").1.load "a").2 = .ok () ↔
      HasRead "a" ((ofUpload missingFiles).load "a").1 ∧
        ((ofUpload missingFiles).load "a").1.set.link.2 = .ok ()) :=
  ⟨missing_fails, load_again_iff missing_fails⟩

/-- The second try succeeds, and the set lacks the document that is included. -/
theorem missing_then_loaded :
    ((ofUpload missingFiles).load "a").2 = .error (.load .notUploaded (some "b")) ∧
    (((ofUpload missingFiles).load "a").1.load "a").2 = .ok () ∧
    (((ofUpload missingFiles).load "a").1.load "a").1.locations = ["a"] := by
  refine ⟨missing_fails, ?_⟩
  decide +kernel

end Loader
end Schema
end SchemaPaths
