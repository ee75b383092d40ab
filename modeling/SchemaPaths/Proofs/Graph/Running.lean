/-
How a run is put together.

A run takes steps one after another, and whether something holds of it is a matter of single steps and
of taking some steps after others.  So what `Composes` holds of the whole run as soon as it holds of
expanding an element.
-/
import SchemaPaths.Graph.Dependencies
import SchemaPaths.Proofs.Ensures

namespace SchemaPaths
namespace Graph
namespace Dependencies

open Schema Walk

/-- The steps that a run starts with for a document. -/
def documentSteps (s : SchemaSet) (groups : Bool) (doc : Document) : List Step :=
  (if groups then doc.groups.flatMap fun g => steps s.declared [] none (.group g) else []) ++
    doc.elements.flatMap fun e => steps s.declared [] none (.element e)

def startSteps (s : SchemaSet) (groups : Bool) : List Step :=
  s.documents.flatMap (documentSteps s groups)

/-- A relation between steps and computations that take them.  What a computation does besides, it does
to neither the elements that are expanded nor the edges. -/
structure Composes (P : List Step → Collect Unit → Prop) : Prop where
  nothing : P [] (pure ())
  aside : ∀ f : Collection → Collection,
    (∀ c, (f c).expanded = c.expanded ∧ (f c).edges = c.edges) → P [] (modify f)
  note : ∀ x, P [.note x] (modify fun c => { c with sightings := c.sightings ++ [x] })
  edge : ∀ source target, P [.edge source target] (addEdge source target)
  stop : ∀ f, P [.stop f] (throw f)
  andThen : ∀ {a b : List Step} {m m' : Collect Unit}, P a m → P b m' →
    P (a ++ b) (do m; m')

namespace Composes

variable {P : List Step → Collect Unit → Prop} {s : SchemaSet}

theorem forM (hP : Composes P) {α : Type} {l : List α} {f : α → Collect PUnit}
    {steps : α → List Step} (h : ∀ a, P (steps a) (f a)) : P (l.flatMap steps) (l.forM f) := by
  induction l with
  | nil => exact hP.nothing
  | cons a l ih =>
    rw [List.flatMap_cons]
    exact hP.andThen (h a) ih

theorem perform (hP : Composes P) {expand : ElementId → NodeName → Collect Unit}
    (h : ∀ e user, P [.expand e user] (expand e user)) (steps : List Step) :
    P steps (steps.forM (perform expand)) := by
  have hone : P (steps.flatMap fun x => [x]) (steps.forM (Dependencies.perform expand)) := by
    refine hP.forM fun x => ?_
    cases x with
    | note x => exact hP.note x
    | edge source target => exact hP.edge source target
    | expand e user => exact h e user
    | stop f => exact hP.stop f
  rwa [List.flatMap_singleton'] at hone

theorem visitDocument (hP : Composes P)
    (h : ∀ e user, P [.expand e user] (expand s [] e user)) (groups : Bool) (doc : Document) :
    P (documentSteps s groups doc) (visitDocument s groups doc) := by
  have hvisit : ∀ n, P (steps s.declared [] none n) (visit s [] n none) :=
    fun n => hP.perform h _
  have helements := hP.forM (l := doc.elements) fun e => hvisit (.element e)
  have hgroups := hP.forM (l := doc.groups) fun g => hvisit (.group g)
  have hsaid := hP.aside (fun c => { c with notices := c.notices ++ [.collecting doc.source] })
    fun _ => ⟨rfl, rfl⟩
  unfold Dependencies.visitDocument documentSteps
  cases groups with
  | true =>
    have hrun := hP.andThen hsaid (hP.andThen hgroups helements)
    exact hrun
  | false =>
    have hrun := hP.andThen hsaid helements
    exact hrun

end Composes

/-! ## Documents in any order -/

section Documents

variable {s : SchemaSet}

/-- Which documents a set holds plays no part in expanding an element. -/
theorem expandFrom_documents (docs : List Document) (watch : Watch) (fuel : Nat) :
    expandFrom { s with documents := docs } watch fuel = expandFrom s watch fuel := by
  induction fuel with
  | zero => rfl
  | succ fuel ih =>
    funext e user
    rw [expandFrom, ih]
    rfl

theorem visitDocument_documents (docs : List Document) (groups : Bool) (doc : Document) :
    visitDocument { s with documents := docs } groups doc = visitDocument s groups doc := by
  have hvisit : visit { s with documents := docs } [] = visit s [] := by
    funext n user
    unfold visit expand
    rw [expandFrom_documents]
  unfold visitDocument
  rw [hvisit]

theorem Composes.visitAll {P : List Step → Collect Unit → Prop} (hP : Composes P)
    (h : ∀ e user, P [.expand e user] (expand s [] e user)) (groups : Bool) (docs : List Document) :
    P (docs.flatMap (documentSteps s groups))
      (visitAll { s with documents := docs } groups) := by
  have hdocs : P (docs.flatMap (documentSteps s groups))
      (docs.forM (Dependencies.visitDocument { s with documents := docs } groups)) := by
    refine hP.forM fun doc => ?_
    rw [visitDocument_documents]
    exact hP.visitDocument h groups doc
  have hsaid := hP.aside (fun c => { c with
    notices := c.notices ++ [.graphBuilt c.edges.length] }) fun _ => ⟨rfl, rfl⟩
  have hrun := hP.andThen hdocs hsaid
  rwa [List.append_nil] at hrun

end Documents
end Dependencies
end Graph
end SchemaPaths
