/-
What stands at the top of a schema document.

The references of a document to others are what the trees at its top say, whatever was read before,
and its location and its namespace are those that it is read under.
-/
import SchemaPaths.Proofs.Ensures
import SchemaPaths.Schema.Declaring

namespace SchemaPaths
namespace Schema

open Markup (Name Tree)

def Construct.isDirective : Construct → Bool
  | .includes => true
  | .imports => true
  | .redefines => true
  | _ => false

/-- The reference to another document that a tree is, if it is one. -/
def Directive.ofTree? : Tree → Option Directive
  | .text _ => none
  | .element n as _ =>
    (Construct.ofName? n).bind fun c =>
      if c.isDirective then some ⟨c, valueOf? as "schemaLocation", valueOf? as "namespace"⟩
      else none

/-- The references to other documents among the trees at the top of one, in their order. -/
def directivesOf (content : List Tree) : List Directive := content.filterMap Directive.ofTree?

namespace Declaring

variable {s : Setting} {d : Declarations}

/-- Two states of a document while it is read. -/
def SamePlace (doc doc' : Document) : Prop := doc'.source = doc.source ∧ doc'.space = doc.space

theorem topLevel_directives (n : Name) (as : Attributes) (content : List Tree) (doc : Document)
    (directives : List Directive) :
    Ensures (topLevel s n as content doc directives) d
      (fun r _ => SamePlace doc r.1 ∧
        r.2 = directives ++ (Directive.ofTree? (.element n as content)).toList)
      fun _ _ => True := by
  have declares {c : Construct} (h : Construct.ofName? n = some c) (hc : c.isDirective = false) :
      directives = directives ++ (Directive.ofTree? (.element n as content)).toList := by
    simp [Directive.ofTree?, h, hc]
  have refers {c : Construct} (h : Construct.ofName? n = some c) (hc : c.isDirective) :
      directives ++ [⟨(Construct.ofName? n).getD .includes, valueOf? as "schemaLocation",
          valueOf? as "namespace"⟩] =
        directives ++ (Directive.ofTree? (.element n as content)).toList := by
    simp [Directive.ofTree?, h, hc]
  unfold topLevel
  split <;> rename_i h
  · exact ensures_pure.2 ⟨⟨rfl, rfl⟩, refers h rfl⟩
  · exact ensures_pure.2 ⟨⟨rfl, rfl⟩, refers h rfl⟩
  · exact ensures_pure.2 ⟨⟨rfl, rfl⟩, refers h rfl⟩
  · exact ensures_any.bind fun _ _ _ => ensures_pure.2 ⟨⟨rfl, rfl⟩, declares h rfl⟩
  · exact ensures_any.bind fun _ _ _ => ensures_pure.2 ⟨⟨rfl, rfl⟩, declares h rfl⟩
  · exact ensures_any.bind fun _ _ _ => ensures_pure.2 ⟨⟨rfl, rfl⟩, declares h rfl⟩
  · exact ensures_any.bind fun _ _ _ => ensures_pure.2 ⟨⟨rfl, rfl⟩, declares h rfl⟩
  · exact ensures_any.bind fun _ _ _ => ensures_pure.2 ⟨⟨rfl, rfl⟩, declares h rfl⟩
  · exact ensures_any.bind fun _ _ _ => ensures_pure.2 ⟨⟨rfl, rfl⟩, declares h rfl⟩
  · refine ensures_pure.2 ⟨⟨rfl, rfl⟩, ?_⟩
    rcases hc : Construct.ofName? n with _ | c
    · simp [Directive.ofTree?, hc]
    · cases c <;> first | exact declares hc rfl | contradiction

theorem topLevels_directives (content : List Tree) (doc : Document)
    (directives : List Directive) :
    Ensures (topLevels s doc directives content) d
      (fun r _ => SamePlace doc r.1 ∧ r.2 = directives ++ directivesOf content) fun _ _ => True := by
  induction content generalizing doc directives d with
  | nil => exact ensures_pure.2 ⟨⟨rfl, rfl⟩, (List.append_nil _).symm⟩
  | cons t ts ih =>
    cases t with
    | text v => exact ih doc directives
    | element n as inner =>
      refine (topLevel_directives n as inner doc directives).bind fun r e hr => ?_
      obtain ⟨⟨hsource, hspace⟩, hdirectives⟩ := hr
      refine (ih r.1 r.2).mono (fun r' _ hr' => ?_) fun _ _ _ => trivial
      obtain ⟨⟨hsource', hspace'⟩, hdirectives'⟩ := hr'
      refine ⟨⟨hsource'.trans hsource, hspace'.trans hspace⟩, ?_⟩
      rw [hdirectives', hdirectives, List.append_assoc, directivesOf, directivesOf]
      rcases hhere : Directive.ofTree? (.element n as inner) with _ | here
      · rw [List.filterMap_cons_none hhere]
        rfl
      · rw [List.filterMap_cons_some hhere]
        rfl

/-- A document is read at its place and in its namespace, with the references at its top. -/
theorem document_directives (content : List Tree) :
    Ensures (document s content) d
      (fun r _ => r.1.source = s.source ∧ r.1.space = s.space ∧ r.2 = directivesOf content)
      fun _ _ => True :=
  (topLevels_directives content _ []).mono
    (fun _ _ h => ⟨h.1.1, h.1.2, h.2⟩) fun _ _ _ => trivial

end Declaring
end Schema
end SchemaPaths
