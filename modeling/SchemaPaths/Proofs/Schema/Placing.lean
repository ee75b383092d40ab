/-
Documents that lie elsewhere.

A set knows where its documents lie, so as not to read them again and to say which it is about when
it refuses one.  Nothing else depends on it: read into a set whose documents lie elsewhere, a
document makes of it what it would have made of the set, and linking does the same to both.
-/
import SchemaPaths.Proofs.Schema.Moving
import SchemaPaths.Proofs.Schema.Tops
import SchemaPaths.Schema.Loading

namespace SchemaPaths
namespace Schema

open Linking (Link)

/-- The set with its documents where `place` says. -/
def SchemaSet.placed (place : String → String) (s : SchemaSet) : SchemaSet :=
  { s with documents := s.documents.map fun doc => doc.movedTo (place doc.source) }

section Reading

open Declaring

/-- A document is read from where it lies, whatever that may be. -/
theorem run_document_movedTo (s : Setting) (place : String) (content : List Markup.Tree)
    (d : Declarations) :
    (document (s.movedTo place) content).run.run d =
      match (document s content).run.run d with
      | (.ok r, e) => (.ok (r.1.movedTo place, r.2), e)
      | (.error f, e) => (.error (f.movedTo place), e) := by
  have hmoves : Moves {} place (fun r => ((r.1.rename (Declarations.shift {})).movedTo place, r.2))
      (document s content) (document (s.movedTo place) content) := moves_topLevels content _ []
  have hrun := hmoves d
  rw [Declarations.empty_append] at hrun
  rw [hrun]
  rcases (document s content).run.run d with ⟨_ | r, e⟩
  · simp only [behind, Declarations.empty_append]
  · simp only [behind, Declarations.empty_append, Declarations.shift_empty, Document.rename_same]

/-- What becomes of a set with its documents elsewhere when a document is read into it. -/
theorem read_placed {place : String → String} (s : SchemaSet) (setting : Setting)
    (content : List Markup.Tree) :
    (s.placed place).read (setting.movedTo (place setting.source)) content =
      ((s.read setting content).1.placed place,
        match (s.read setting content).2 with
        | .ok directives => .ok directives
        | .error f => .error (f.movedTo (place setting.source))) := by
  have hsource := document_directives (s := setting) (d := s.declared) content
  have hdeclared : (s.placed place).declared = s.declared := rfl
  unfold Ensures at hsource
  unfold SchemaSet.read
  rw [hdeclared, run_document_movedTo]
  rcases hrun : (document setting content).run.run s.declared with ⟨f | r, e⟩
  · rfl
  · rw [hrun] at hsource
    have hplaced : (s.documents ++ [r.1]).map (fun doc => doc.movedTo (place doc.source)) =
        s.documents.map (fun doc => doc.movedTo (place doc.source)) ++
          [r.1.movedTo (place setting.source)] := by
      rw [List.map_append, List.map_singleton, hsource.1]
    simp only [SchemaSet.placed, SchemaSet.add, hplaced]
    rfl

end Reading

section Linking

variable (s : SchemaSet) (docs : List Document)

theorem groupContent_documents (fuel : Nat) (outer : List GroupId) (g : GroupId) :
    Linking.groupContent { s with documents := docs } fuel outer g =
      Linking.groupContent s fuel outer g := by
  induction fuel generalizing outer g with
  | zero => rfl
  | succ fuel ih =>
    simp only [Linking.groupContent, ih]
    rfl

theorem simpleTypeFrom_documents (fuel : Nat) (derived : List SimpleId) (i : SimpleId) :
    Linking.simpleTypeFrom { s with documents := docs } fuel derived i =
      Linking.simpleTypeFrom s fuel derived i := by
  induction fuel generalizing derived i with
  | zero => rfl
  | succ fuel ih =>
    simp only [Linking.simpleTypeFrom, ih]
    rfl

theorem attributesOfGroups_documents (fuel : Nat) (seen qs : List QName) :
    Linking.attributesOfGroups { s with documents := docs } fuel seen qs =
      Linking.attributesOfGroups s fuel seen qs := by
  induction fuel generalizing seen qs with
  | zero => rfl
  | succ fuel ih =>
    cases qs with
    | nil => rfl
    | cons q qs =>
      simp only [Linking.attributesOfGroups, ih]
      rfl

theorem fillComplex_documents (i : ComplexId) (t : ComplexType) (base : TypeRef) :
    Linking.fillComplex { s with documents := docs } i t base = Linking.fillComplex s i t base := by
  have hgroups : Linking.attributesOfGroup { s with documents := docs } =
      Linking.attributesOfGroup s := funext fun q => attributesOfGroups_documents s docs _ [] [q]
  have hexpand : Linking.expand { s with documents := docs } = Linking.expand s := by
    simp only [Linking.expand, Linking.expandGroup, groupContent_documents]
    rfl
  simp only [Linking.fillComplex, hexpand, Linking.declaredUses, hgroups]

theorem complexTypeFrom_documents (fuel : Nat) (derived : List ComplexId) (i : ComplexId) :
    Linking.complexTypeFrom { s with documents := docs } fuel derived i =
      Linking.complexTypeFrom s fuel derived i := by
  induction fuel generalizing derived i with
  | zero => rfl
  | succ fuel ih =>
    simp only [Linking.complexTypeFrom, ih, fillComplex_documents]
    rfl

theorem checkHeads_documents (fuel : Nat) (seen : List ElementId) (i : ElementId) :
    Linking.checkHeads { s with documents := docs } fuel seen i =
      Linking.checkHeads s fuel seen i := by
  induction fuel generalizing seen i with
  | zero => rfl
  | succ fuel ih =>
    simp only [Linking.checkHeads, ih]
    rfl

theorem elementFrom_documents (fuel : Nat) (i : ElementId) :
    Linking.elementFrom { s with documents := docs } fuel i = Linking.elementFrom s fuel i := by
  induction fuel generalizing i with
  | zero => rfl
  | succ fuel ih =>
    have hhead : Linking.headOf { s with documents := docs } = Linking.headOf s := by
      funext i q
      cases q with
      | none => rfl
      | some q =>
        simp only [Linking.headOf, checkHeads_documents]
        rfl
    simp only [Linking.elementFrom, ih, hhead]
    rfl

theorem all_documents : Linking.all { s with documents := docs } = Linking.all s := by
  have hsimple : Linking.simpleType { s with documents := docs } = Linking.simpleType s := by
    funext i
    simp only [Linking.simpleType, simpleTypeFrom_documents]
  have hcomplex : Linking.complexType { s with documents := docs } = Linking.complexType s := by
    funext i
    simp only [Linking.complexType, complexTypeFrom_documents]
  have hattr : Linking.attr { s with documents := docs } = Linking.attr s := rfl
  have helement : Linking.element { s with documents := docs } = Linking.element s := by
    funext i
    simp only [Linking.element, elementFrom_documents]
  have hgroup : Linking.expandGroup { s with documents := docs } = Linking.expandGroup s := by
    funext g
    simp only [Linking.expandGroup, groupContent_documents]
  simp only [Linking.all, hsimple, hcomplex, hattr, helement, hgroup]

/-- Linking does not look at the documents. -/
theorem link_documents :
    ({ s with documents := docs } : SchemaSet).link =
      ({ s.link.1 with documents := docs }, s.link.2) := by
  rw [SchemaSet.link, all_documents]
  rfl

end Linking
end Schema
end SchemaPaths
