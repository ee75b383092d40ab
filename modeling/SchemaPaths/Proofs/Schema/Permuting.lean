/-
Documents whose declarations stand in another order.

Each tree at the top of a document is read for itself: what it declares goes behind what was read
before, and the document lists it.  So reading trees in another order declares the same in other
places, and fails if and only if reading them in the first order does.
-/
import SchemaPaths.Proofs.Schema.Rearranging
import SchemaPaths.Proofs.Schema.Sets

namespace SchemaPaths
namespace Schema

open Markup (Name Tree)
open Renaming

/-! ## Documents -/

namespace Document

/-- The documents list the same, each in an order of its own. -/
structure Alike (doc doc' : Document) : Prop where
  source : doc'.source = doc.source
  space : doc'.space = doc.space
  prefixes : doc'.prefixes = doc.prefixes
  elements : doc'.elements.Perm doc.elements
  types : doc'.types.Perm doc.types
  groups : doc'.groups.Perm doc.groups
  attributes : doc'.attributes.Perm doc.attributes
  attributeGroups : doc'.attributeGroups.Perm doc.attributeGroups

/-- The document with what another lists behind what it lists itself. -/
def join (doc r : Document) : Document :=
  { doc with
    elements := doc.elements ++ r.elements
    types := doc.types ++ r.types
    groups := doc.groups ++ r.groups
    attributes := doc.attributes ++ r.attributes
    attributeGroups := doc.attributeGroups ++ r.attributeGroups }

variable {doc doc' doc'' r r' : Document} {ρ σ : Renaming}

theorem Alike.refl (doc : Document) : Alike doc doc :=
  ⟨rfl, rfl, rfl, .refl _, .refl _, .refl _, .refl _, .refl _⟩

theorem Alike.symm (h : Alike doc doc') : Alike doc' doc :=
  ⟨h.source.symm, h.space.symm, h.prefixes.symm, h.elements.symm, h.types.symm, h.groups.symm,
    h.attributes.symm, h.attributeGroups.symm⟩

theorem Alike.trans (h : Alike doc doc') (h' : Alike doc' doc'') : Alike doc doc'' where
  source := h'.source.trans h.source
  space := h'.space.trans h.space
  prefixes := h'.prefixes.trans h.prefixes
  elements := h'.elements.trans h.elements
  types := h'.types.trans h.types
  groups := h'.groups.trans h.groups
  attributes := h'.attributes.trans h.attributes
  attributeGroups := h'.attributeGroups.trans h.attributeGroups

theorem Alike.rename (h : Alike doc doc') (ρ : Renaming) : Alike (doc.rename ρ) (doc'.rename ρ) where
  source := h.source
  space := h.space
  prefixes := h.prefixes
  elements := h.elements.map _
  types := h.types.map _
  groups := h.groups.map _
  attributes := h.attributes.map _
  attributeGroups := h.attributeGroups.map _

theorem Alike.join (h : Alike doc doc') (hr : Alike r r') : Alike (doc.join r) (doc'.join r') where
  source := h.source
  space := h.space
  prefixes := h.prefixes
  elements := h.elements.append hr.elements
  types := h.types.append hr.types
  groups := h.groups.append hr.groups
  attributes := h.attributes.append hr.attributes
  attributeGroups := h.attributeGroups.append hr.attributeGroups

theorem join_rename (doc r : Document) (ρ : Renaming) :
    (doc.join r).rename ρ = (doc.rename ρ).join (r.rename ρ) := by
  simp only [join, rename, List.map_append]

theorem join_assoc (doc r r' : Document) : (doc.join r).join r' = doc.join (r.join r') := by
  simp only [join, List.append_assoc]

/-- Of two listings in a document either can come first. -/
theorem alike_join_comm (doc r r' : Document) :
    Alike (doc.join (r.join r')) (doc.join (r'.join r)) where
  source := rfl
  space := rfl
  prefixes := rfl
  elements := List.perm_append_comm.append_left _
  types := List.perm_append_comm.append_left _
  groups := List.perm_append_comm.append_left _
  attributes := List.perm_append_comm.append_left _
  attributeGroups := List.perm_append_comm.append_left _

theorem rename_congr {d : Declarations} (h : Agree d.extent ρ σ) (hdoc : GoodDocument d doc) :
    doc.rename ρ = doc.rename σ := by
  have helements : doc.elements.map (ρ .element) = doc.elements.map (σ .element) :=
    List.map_congr_left fun i hi => h .element i (hdoc.elements i hi)
  have htypes : doc.types.map (·.rename ρ) = doc.types.map (·.rename σ) :=
    List.map_congr_left fun t ht => TypeRef.rename_congr h (hdoc.types t ht)
  have hgroups : doc.groups.map (ρ .group) = doc.groups.map (σ .group) :=
    List.map_congr_left fun i hi => h .group i (hdoc.groups i hi)
  have hattributes : doc.attributes.map (ρ .attr) = doc.attributes.map (σ .attr) :=
    List.map_congr_left fun i hi => h .attr i (hdoc.attributes i hi)
  have hattributeGroups : doc.attributeGroups.map (ρ .attributeGroup) =
      doc.attributeGroups.map (σ .attributeGroup) :=
    List.map_congr_left fun i hi => h .attributeGroup i (hdoc.attributeGroups i hi).1
  rw [rename, rename, helements, htypes, hgroups, hattributes, hattributeGroups]

end Document

namespace Declaring

variable {s : Setting}

/-! ## Tree by tree -/

/-- A document of which nothing was read. -/
def start (s : Setting) : Document where
  source := s.source
  space := s.space
  prefixes := s.prefixes.filter fun p => p.1 != "xml"

theorem document_eq (content : List Tree) :
    document s content = topLevels s (start s) [] content := rfl

/-- What was read before stays in front. -/
theorem topLevel_join (n : Name) (as : Attributes) (content : List Tree) (doc : Document)
    (directives : List Directive) :
    topLevel s n as content doc directives =
      (fun r => (doc.join r.1, directives ++ r.2)) <$> topLevel s n as content (start s) [] := by
  unfold topLevel
  split
  · simp [Document.join, start]
  · simp [Document.join, start]
  · simp [Document.join, start]
  · simp [Document.join, start]
  · simp [Document.join, start]
  · simp [Document.join, start]
  · simp [Document.join, start]
  · simp [Document.join, start]
  · simp [Document.join, start]
  · simp [Document.join, start]

theorem topLevels_join (content : List Tree) (doc : Document) (directives : List Directive) :
    topLevels s doc directives content =
      (fun r => (doc.join r.1, directives ++ r.2)) <$> topLevels s (start s) [] content := by
  induction content generalizing doc directives with
  | nil => simp [topLevels, Document.join, start]
  | cons t ts ih =>
    cases t with
    | text v => exact ih doc directives
    | element n as inner =>
      have hstep (doc : Document) (directives : List Directive) :
          topLevels s doc directives (.element n as inner :: ts) = do
            let r ← topLevel s n as inner (start s) []
            let r' ← topLevels s (start s) [] ts
            return ((doc.join r.1).join r'.1, (directives ++ r.2) ++ r'.2) := by
        rw [topLevels, topLevel_join]
        simp only [bind_map_left]
        refine congrArg _ (funext fun r => ?_)
        rw [ih, map_eq_pure_bind]
      rw [hstep doc directives, hstep (start s) []]
      simp [Document.join, start]

theorem topLevels_cons (t : Tree) (ts : List Tree) (doc : Document) (directives : List Directive) :
    topLevels s doc directives (t :: ts) =
      topLevels s doc directives [t] >>= fun r => topLevels s r.1 r.2 ts := by
  cases t with
  | text v => simp [topLevels]
  | element n as content => simp [topLevels]

/-- What becomes of a reading. -/
abbrev Outcome := Except Failure (Document × List Directive) × Declarations

/-- What becomes of two readings, the second going on from the first. -/
def Outcome.glue (place : String) : Outcome → Outcome → Outcome
  | (.error f, p), _ => (.error f, p)
  | (.ok r, p), o =>
    behind p place (fun r' => (r.1.join (r'.1.rename p.shift), r.2 ++ r'.2)) o

/-- What becomes of trees that are read for themselves. -/
def reading (s : Setting) (content : List Tree) : Outcome := (document s content).run.run {}

/-- Trees are read behind declarations as they are for themselves. -/
theorem run_topLevels (content : List Tree) (doc : Document) (directives : List Directive)
    (d : Declarations) :
    (topLevels s doc directives content).run.run d =
      behind d s.source (fun r => (doc.join (r.1.rename d.shift), directives ++ r.2))
        (reading s content) := by
  have hmoves : Moves d s.source (fun r => ((r.1.rename d.shift).movedTo s.source, r.2))
      (topLevels s (start s) [] content) (topLevels s (start s) [] content) :=
    moves_topLevels content (start s) []
  have hrun := hmoves {}
  rw [Declarations.append_empty] at hrun
  rw [topLevels_join]
  simp only [ExceptT.run_map, StateT.run_map, hrun, reading, document_eq]
  rcases (topLevels s (start s) [] content).run.run {} with ⟨_ | r, e⟩
  · rfl
  · rfl

theorem reading_cons (t : Tree) (ts : List Tree) :
    reading s (t :: ts) = Outcome.glue s.source (reading s [t]) (reading s ts) := by
  rw [reading, document_eq, topLevels_cons, ExceptT.run_bind, StateT.run_bind]
  have hfirst : (topLevels s (start s) [] [t]).run.run {} = reading s [t] := rfl
  rw [hfirst]
  rcases reading s [t] with ⟨_ | r, p⟩
  · rfl
  · exact run_topLevels ts r.1 r.2 p

namespace Outcome

/-- If a document was read, its declarations refer to nothing beyond themselves. -/
def Good (s : Setting) : Outcome → Prop
  | (.ok r, e) => e.Closed ∧ GoodDocument e r.1 ∧ (start s).join r.1 = r.1
  | (.error _, _) => True

/-- Both readings fail, or both come to the same in other places. -/
inductive Alike : Outcome → Outcome → Prop
  | ok {r r' : Document × List Directive} {e e' : Declarations} {ρ σ : Renaming}
      (declared : e.Rearranged ρ σ e') (document : r'.1.Alike (r.1.rename ρ)) :
      Alike (.ok r, e) (.ok r', e')
  | error {f f' : Failure} {e e' : Declarations} : Alike (.error f, e) (.error f', e')

variable {place : String} {o o' o'' a b c : Outcome}

theorem Alike.refl (o : Outcome) : Alike o o := by
  rcases o with ⟨_ | r, e⟩
  · exact .error
  · refine .ok (.refl e) ?_
    rw [Document.rename_same]
    exact .refl _

theorem Alike.trans (h : Alike o o') (h' : Alike o' o'') : Alike o o'' := by
  cases h with
  | error =>
    cases h'
    exact .error
  | ok declared document =>
    cases h' with
    | ok declared' document' =>
      refine .ok (declared.trans declared') (document'.trans ?_)
      rw [← Document.rename_rename]
      exact document.rename _

/-- Going on alike leads to what is alike. -/
theorem Alike.glue (ha : Good s a) (ho : Good s o) (h : Alike o o') :
    Alike (glue place a o) (glue place a o') := by
  rcases a with ⟨_ | r, p⟩
  · exact .error
  cases h with
  | error => exact .error
  | @ok q q' e e' ρ σ declared document =>
    refine .ok ((Declarations.Rearranged.refl p).append declared ha.1 ho.1) ?_
    have hsplits := (Declarations.Rearranged.refl p).splits_beside (τ := ρ) ha.1 ho.1
    rw [Document.join_rename, Document.rename_rename, Document.rename_congr hsplits.front ha.2.1,
      Document.rename_congr hsplits.rest ho.2.1, Document.rename_same, ← Document.rename_rename]
    exact (Document.Alike.refl _).join (document.rename _)

/-- Of two readings either can come first. -/
theorem alike_glue_swap (ha : Good s a) (hb : Good s b) (hc : Good s c)
    (hab : Good s (glue place a b)) :
    Alike (glue place a (glue place b c)) (glue place b (glue place a c)) := by
  rcases a with ⟨_ | ra, p⟩
  · rcases b with ⟨_ | rb, q⟩
    · exact .error
    · exact .error
  rcases b with ⟨_ | rb, q⟩
  · exact .error
  rcases c with ⟨_ | rc, e⟩
  · exact .error
  have hswap := Declarations.Rearranged.swap ha.1 hb.1
  have hmoved := hswap.append (.refl e) hab.1 hc.1
  rw [Declarations.append_assoc, Declarations.append_assoc] at hmoved
  refine .ok hmoved ?_
  show (rb.1.join ((ra.1.join (rc.1.rename p.shift)).rename q.shift)).Alike
    ((ra.1.join ((rb.1.join (rc.1.rename q.shift)).rename p.shift)).rename
      (Declarations.beside (p ++ q) (Declarations.swapped p q) same))
  -- each of the three listings is renamed in its own way
  have hinner := Declarations.Rearranged.splits_swapped ha.1 hb.1
  have houter := hswap.splits_beside (τ := same) hab.1 hc.1
  generalize Declarations.beside (p ++ q) (Declarations.swapped p q) same = B at houter ⊢
  have hra : ra.1.rename B = ra.1.rename q.shift := by
    refine Document.rename_congr (fun k i hi => ?_) ha.2.1
    rw [houter.front k i (by rw [Declarations.count_append]; omega), hinner.front k i hi]
  have hrb : rb.1.rename (B.after p.shift) = rb.1 := by
    refine (Document.rename_congr (fun k i hi => ?_) hb.2.1).trans (Document.rename_same _)
    have hlt : p.shift k i < (p ++ q).extent.count k := by
      rw [Declarations.count_append]
      exact Nat.add_lt_add_left hi _
    rw [after, houter.front k _ hlt]
    exact hinner.rest k i hi
  have hrc : rc.1.rename (B.after (p ++ q).shift) = rc.1.rename (q ++ p).shift :=
    Document.rename_congr houter.rest hc.2.1
  have hfirst : (ra.1.join ((rb.1.join (rc.1.rename q.shift)).rename p.shift)).rename B =
      (ra.1.rename q.shift).join (rb.1.join (rc.1.rename (q ++ p).shift)) := by
    simp only [Document.join_rename, Document.rename_rename, hra, hrb]
    rw [← Declarations.shift_append, hrc]
  have hsecond : rb.1.join ((ra.1.join (rc.1.rename p.shift)).rename q.shift) =
      rb.1.join ((ra.1.rename q.shift).join (rc.1.rename (q ++ p).shift)) := by
    rw [Document.join_rename, Document.rename_rename, ← Declarations.shift_append]
  have hheads : (start s).join (ra.1.rename q.shift) = ra.1.rename q.shift := by
    have hrename := congrArg (Document.rename q.shift) ha.2.2
    rw [Document.join_rename] at hrename
    exact hrename
  have hback (x y z : Document) (hx : (start s).join x = x) :
      x.join (y.join z) = ((start s).join (x.join y)).join z := by
    rw [← Document.join_assoc, ← Document.join_assoc, hx]
  rw [hfirst, hsecond, hback _ _ _ hheads, hback _ _ _ hb.2.2]
  exact (Document.alike_join_comm _ _ _).join (.refl _)

end Outcome

theorem good_reading (content : List Tree) : Outcome.Good s (reading s content) := by
  have hreads := reads_document (s := s) content {} (.refl _) Declarations.closed_empty
  have hjoin := run_topLevels (s := s) content (start s) [] {}
  have hself : (document s content).run.run {} = reading s content := rfl
  rw [← document_eq, hself] at hjoin
  rw [Ensures, hself] at hreads
  rcases hrun : reading s content with ⟨_ | r, e⟩
  · trivial
  · rw [hrun] at hreads hjoin
    refine ⟨hreads.1, hreads.2.2, ?_⟩
    have hdoc := congrArg (fun o : Outcome => o.1.toOption.map (·.1)) hjoin
    simp only [behind, Declarations.shift_empty, Document.rename_same] at hdoc
    exact (Option.some.inj hdoc).symm

/-- What is read from trees in another order is the same in other places. -/
theorem reading_perm {content content' : List Tree} (h : content.Perm content') :
    Outcome.Alike (reading s content) (reading s content') := by
  induction h with
  | nil => exact .refl _
  | @cons t ts ts' _ ih =>
    rw [reading_cons t ts, reading_cons t ts']
    exact ih.glue (good_reading _) (good_reading _)
  | swap t t' ts =>
    have hboth := good_reading (s := s) [t', t]
    rw [reading_cons t' [t]] at hboth
    rw [reading_cons t' (t :: ts), reading_cons t ts, reading_cons t (t' :: ts),
      reading_cons t' ts]
    exact Outcome.alike_glue_swap (good_reading _) (good_reading _) (good_reading _) hboth
  | trans _ _ ih ih' => exact ih.trans ih'

/-- The text between the trees at the top of a document says nothing. -/
theorem topLevels_elements (content : List Tree) (doc : Document) (directives : List Directive) :
    topLevels s doc directives (content.filter (·.name?.isSome)) =
      topLevels s doc directives content := by
  induction content generalizing doc directives with
  | nil => rfl
  | cons t ts ih =>
    cases t with
    | text v => exact ih doc directives
    | element n as inner =>
      change topLevels s doc directives (.element n as inner :: ts.filter (·.name?.isSome)) = _
      simp only [topLevels, ih]

end Declaring

/-! ## Sets -/

/-- The trees at the top of two documents are the same but for their order. -/
def Reorders (content content' : List Tree) : Prop :=
  (content.filter (·.name?.isSome)).Perm (content'.filter (·.name?.isSome))

theorem Declaring.reading_reordered {s : Setting} {content content' : List Tree}
    (h : Reorders content content') :
    Outcome.Alike (reading s content) (reading s content') := by
  have helements (content : List Tree) :
      reading s (content.filter (·.name?.isSome)) = reading s content := by
    rw [reading, document_eq, topLevels_elements]
    rfl
  rw [← helements content, ← helements content']
  exact reading_perm h

namespace SchemaSet

/-- The sets have the same documents, and the same declarations in other places. -/
structure Alike (ρ σ : Renaming) (s s' : SchemaSet) : Prop where
  declared : s.declared.Rearranged ρ σ s'.declared
  documents : List.Forall₂ (fun doc doc' => doc'.Alike (doc.rename ρ)) s.documents s'.documents

theorem Alike.empty : Alike same same {} {} := ⟨.refl _, .nil⟩

section Gathered

variable {ρ σ : Renaming} {s s' : SchemaSet} (h : Alike ρ σ s s')
include h

/-- What is gathered from the documents is the same, unless it tells the places of declarations. -/
theorem Alike.flatMap {α : Type} {f : Document → List α}
    (hf : ∀ doc doc' : Document, doc'.Alike (doc.rename ρ) → f doc' = f doc) :
    s'.documents.flatMap f = s.documents.flatMap f := by
  have hdocuments := h.documents
  generalize s.documents = docs, s'.documents = docs' at hdocuments
  induction hdocuments with
  | nil => rfl
  | cons hdoc _ ih => rw [List.flatMap_cons, List.flatMap_cons, hf _ _ hdoc, ih]

theorem Alike.namespaces : s'.namespaces = s.namespaces :=
  congrArg distinct <| h.flatMap fun doc doc' hdoc => by
    rw [← hdoc.space, ← hdoc.prefixes]
    rfl

theorem Alike.prefixes : s'.prefixes = s.prefixes :=
  congrArg (List.foldl Markup.Prefixes.add []) <| h.flatMap fun doc doc' hdoc => by
    rw [← hdoc.prefixes]
    rfl

end Gathered

open Declaring in
/-- A document that is read into sets alike leaves them alike, or is refused by both. -/
theorem Alike.read {ρ σ : Renaming} {s s' : SchemaSet} (h : Alike ρ σ s s') (hs : s.Closed)
    (setting : Setting) {content content' : List Tree} (hc : Reorders content content') :
    (∃ f f', (s.read setting content).2 = .error f ∧ (s'.read setting content').2 = .error f') ∨
      ∃ ds ds' ρ' σ', (s.read setting content).2 = .ok ds ∧
        (s'.read setting content').2 = .ok ds' ∧
        Alike ρ' σ' (s.read setting content).1 (s'.read setting content').1 := by
  have hgood := good_reading (s := setting) content
  have hrun (content : List Tree) (d : Declarations) := run_topLevels (s := setting) content
    (start setting) [] d
  unfold SchemaSet.read
  rw [document_eq, document_eq, hrun, hrun]
  have halike := reading_reordered (s := setting) hc
  generalize reading setting content = o at halike hgood
  generalize reading setting content' = o' at halike
  cases halike with
  | error => exact .inl ⟨_, _, rfl, rfl⟩
  | @ok r r' e e' τ υ declared document =>
    refine .inr ⟨_, _, _, _, rfl, rfl, h.declared.append declared hs.declared hgood.1, ?_⟩
    have hsplits := h.declared.splits_beside (τ := τ) hs.declared hgood.1
    refine List.rel_append ?_ (.cons ?_ .nil)
    · refine (List.forall₂_and_left _ _ |>.2 ⟨hs.documents, h.documents⟩).imp ?_
      rintro doc doc' ⟨hdoc, hdocs⟩
      rwa [Document.rename_congr hsplits.front hdoc]
    · rw [Document.join_rename, Document.rename_rename,
        Document.rename_congr hsplits.rest hgood.2.1, ← Document.rename_rename]
      exact (Document.Alike.refl _).join (document.rename _)

end SchemaSet
end Schema
end SchemaPaths
