/-
Loads of documents whose declarations stand in another order.

Two sources have the same documents, but what a document declares stands in an order of its own in
each of them.  A load from the one and a load from the other go in step.  Main statement: where no
name is used twice, either both succeed or neither does, and after loads that succeeded the
declarations are the same in other places, linked in the same way, with the same paths from each root.
-/
import SchemaPaths.Proofs.Export.Rearranging
import SchemaPaths.Proofs.Linking.Alike
import SchemaPaths.Proofs.Loading
import SchemaPaths.Proofs.Loading.Following

namespace SchemaPaths
namespace Schema

/-! ## Sources -/

/-- What is read at a location is the same in both ways, or schema documents that differ only in the
order of what stands at their top.  Their references to other documents come in the same order. -/
inductive SameButOrder (location : String) :
    Except Failure (List UInt8) → Except Failure (List UInt8) → Prop
  | same (r : Except Failure (List UInt8)) : SameButOrder location r r
  | reordered {bytes bytes' : List UInt8} {tree tree' : Markup.Tree}
      (first : Loader.schemaOf location bytes = .ok tree)
      (second : Loader.schemaOf location bytes' = .ok tree')
      (attributes : tree'.attributes = tree.attributes)
      (prefixes : Markup.Prefixes.ofBytes bytes' = Markup.Prefixes.ofBytes bytes)
      (content : Reorders tree.content tree'.content)
      (directives : directivesOf tree'.content = directivesOf tree.content) :
      SameButOrder location (.ok bytes) (.ok bytes')

/-- The sources know the same locations and have the same documents there, but for their orders. -/
structure Source.Reordered (source source' : Source) : Prop where
  normalize : ∀ path, source'.normalize path = source.normalize path
  resolve : ∀ base path, source'.resolve base path = source.resolve base path
  fileCount : source'.fileCount = source.fileCount
  documents : ∀ location, SameButOrder location (source.read location) (source'.read location)

/-- Files that are handed over under the same names, each the same in both ways but for its order. -/
theorem Source.reordered_upload {files files' : List (String × List UInt8)}
    (h : List.Forall₂ (fun f f' => f'.1 = f.1 ∧ SameButOrder f.1 (.ok f.2) (.ok f'.2)) files files') :
    (Source.upload files).Reordered (.upload files') where
  normalize _ := rfl
  resolve _ _ := rfl
  fileCount := h.length_eq.symm
  documents location := by
    induction h with
    | nil => exact .same _
    | @cons f f' files files' hfile _ ih =>
      obtain ⟨name, bytes⟩ := f
      obtain ⟨name', bytes'⟩ := f'
      obtain ⟨rfl, hfile⟩ := hfile
      unfold Source.read at ih ⊢
      dsimp only at ih ⊢
      rw [List.lookup_cons, List.lookup_cons]
      by_cases hname : location = name'
      · rw [beq_iff_eq.2 hname, hname]
        exact hfile
      · rw [beq_eq_false_iff_ne.2 hname]
        exact ih

namespace Loader

/-! ## Loads in step -/

/-- From loaders that `R` relates both computations fail, or both succeed with the same result and
lead to loaders that are related again. -/
def InStep (R : Loader → Loader → Prop) {α : Type} (m m' : Load α) : Prop :=
  ∀ l l', R l l' → Ensures m l
    (fun a t => Ensures m' l' (fun a' t' => a' = a ∧ R t t') fun _ _ => False)
    fun _ _ => Ensures m' l' (fun _ _ => False) fun _ _ => True

namespace InStep

variable {R : Loader → Loader → Prop} {α β : Type} {m m' : Load α}

theorem pure (a : α) : InStep R (Pure.pure a) (Pure.pure a) := fun _ _ h => ⟨rfl, h⟩

theorem fail (e e' : Failure) : InStep R (throw e : Load α) (throw e') := fun _ _ _ => trivial

theorem bind {f f' : α → Load β} (h : InStep R m m') (hf : ∀ a, InStep R (f a) (f' a)) :
    InStep R (m >>= f) (m' >>= f') := by
  intro l l' hl
  refine ensures_bind.2 ((h l l' hl).mono (fun a t ha => ?_) fun e _ he => ?_)
  · obtain ⟨_, t', ⟨rfl, ht⟩, hrun⟩ := ha.exists_ok
    exact (hf _ t t' ht).mono (fun _ _ hb => ensures_bind.2 (hrun.2 hb))
      fun _ _ he => ensures_bind.2 (hrun.2 he)
  · exact ensures_bind.2 (he.mono (fun _ _ h => h.elim) fun _ _ h => h)

/-- What is taken up from the loaders at first. -/
theorem get {f f' : Loader → Load β} (hf : ∀ l l', R l l' → InStep R (f l) (f' l')) :
    InStep R (MonadState.get >>= f) (MonadState.get >>= f') :=
  fun l l' hl => ensures_bind.2 (ensures_get.2 ((hf l l' hl l l' hl).mono
    (fun _ _ h => ensures_bind.2 (ensures_get.2 h)) fun _ _ h => ensures_bind.2 (ensures_get.2 h)))

theorem bind_lift {r : Except Failure α} {f f' : α → Load β}
    (hf : ∀ a, InStep R (f a) (f' a)) : InStep R (Loader.lift r >>= f) (Loader.lift r >>= f') := by
  cases r with
  | ok a => exact (pure a).bind hf
  | error e => exact (fail e e).bind hf

theorem forM {list : List α} {f f' : α → Load PUnit} (h : ∀ a, InStep R (f a) (f' a)) :
    InStep R (list.forM f) (list.forM f') := by
  induction list with
  | nil => exact fun _ _ h => ⟨rfl, h⟩
  | cons a list ih => exact (h a).bind fun _ => ih

end InStep

/-- The loaders read from sources of one kind, and what they read are the same declarations in other
places. -/
structure Matched (source source' : Source) (l l' : Loader) : Prop where
  first : l.source = source
  second : l'.source = source'
  parsed : l.set.Parsed
  parsed' : l'.set.Parsed
  alike : ∃ ρ σ, l.set.Alike ρ σ l'.set

section Documents

variable {source source' : Source}

theorem matched_fresh (source source' : Source) : Matched source source' { source } { source := source' } :=
  ⟨rfl, rfl, .empty, .empty, _, _, .empty⟩

theorem Matched.locations {l l' : Loader} (h : Matched source source' l l') :
    l'.locations = l.locations := by
  obtain ⟨ρ, σ, halike⟩ := h.alike
  have hsources := halike.flatMap (f := fun doc => [doc.source]) fun _ _ hdoc => by
    rw [← hdoc.source]
    rfl
  rwa [← List.map_eq_flatMap, ← List.map_eq_flatMap] at hsources

theorem say_inStep (n n' : Notice) : InStep (Matched source source') (say n) (say n') :=
  fun _ _ hl => ⟨rfl, { hl with }⟩

theorem enter_inStep (setting : Setting) {content content' : List Markup.Tree}
    (hc : Reorders content content') (hd : directivesOf content' = directivesOf content) :
    InStep (Matched source source') (enter setting content) (enter setting content') := by
  intro l l' hl
  obtain ⟨ρ, σ, halike⟩ := hl.alike
  have hread := hl.parsed.read setting content
  have hread' := hl.parsed'.read setting content'
  obtain ⟨f, f', hf, hf'⟩ | ⟨ds, ds', ρ', σ', hok, hok', hmatched⟩ :=
    halike.read hl.parsed.closed setting hc
  · refine (ensures_enter_of_error (Prod.ext rfl hf)).2 ?_
    exact (ensures_enter_of_error (Prod.ext rfl hf')).2 trivial
  · have hds : ds' = ds := by
      have hgiven {s : SchemaSet} {content : List Markup.Tree} {ds : List Directive}
          (h : (s.read setting content).2 = .ok ds) : ds = directivesOf content := by
        obtain ⟨d, e, -, hrun⟩ | ⟨d, doc, -, -, hrun⟩ := read_places s setting content
        · rw [hrun] at h
          cases h
        · rw [hrun] at h
          exact (Except.ok.inj h).symm
      rw [hgiven hok, hgiven hok', hd]
    refine (ensures_enter_of_ok (Prod.ext rfl hok)).2 ?_
    refine (ensures_enter_of_ok (Prod.ext rfl hok')).2 ⟨hds, ?_⟩
    exact ⟨hl.first, hl.second, hread, hread', ρ', σ', hmatched⟩

variable (h : source.Reordered source') {fuel : Nat}
include h

theorem follow_inStep
    (ih : ∀ location adopted, InStep (Matched source source') (loadDocument fuel location adopted)
      (loadDocument fuel location adopted)) (location space : String) (d : Directive) :
    InStep (Matched source source') (follow fuel location space d)
      (follow fuel location space d) := by
  unfold follow
  cases d.path? with
  | none =>
    dsimp only
    split
    · exact say_inStep _ _
    · exact .fail _ _
  | some path =>
    refine .get fun l l' hl => ?_
    rw [hl.first, hl.second, h.resolve]
    exact .bind_lift fun child => (say_inStep _ _).bind fun _ => ih child _

theorem readNew_inStep
    (ih : ∀ location adopted, InStep (Matched source source') (loadDocument fuel location adopted)
      (loadDocument fuel location adopted)) (location : String) (adopted : Option String) :
    InStep (Matched source source') (readNew fuel location adopted)
      (readNew fuel location adopted) := by
  unfold readNew
  refine .get fun l l' hl => ?_
  rw [hl.first, hl.second]
  have hdocument := h.documents location
  generalize source.read location = r, source'.read location = r' at hdocument
  cases hdocument with
  | same r =>
    refine .bind_lift fun bytes => .bind_lift fun tree => ?_
    exact (enter_inStep _ (.refl _) rfl).bind fun ds => .forM fun d => follow_inStep h ih _ _ d
  | @reordered bytes bytes' tree tree' first second attributes prefixes content directives =>
    have hbegin (a : List UInt8) (f : List UInt8 → Load Unit) : (lift (.ok a) >>= f) = f a :=
      pure_bind a f
    rw [hbegin, hbegin, first, second]
    have hspace : spaceOf tree' adopted = spaceOf tree adopted := by
      rw [spaceOf, spaceOf, attributes]
    have hgo (t : Markup.Tree) (f : Markup.Tree → Load Unit) : (lift (.ok t) >>= f) = f t :=
      pure_bind t f
    rw [hgo, hgo, attributes, prefixes, hspace]
    exact (enter_inStep _ content directives).bind fun ds => .forM fun d => follow_inStep h ih _ _ d

theorem loadDocument_inStep (fuel : Nat) : ∀ location adopted,
    InStep (Matched source source') (loadDocument fuel location adopted)
      (loadDocument fuel location adopted) := by
  induction fuel with
  | zero => exact fun _ _ => .fail _ _
  | succ fuel ih =>
    intro location adopted
    rw [loadDocument_succ]
    refine .get fun l l' hl => ?_
    have hloaded : l'.isLoaded location = l.isLoaded location := by
      rw [Bool.eq_iff_iff, isLoaded_iff, isLoaded_iff, hl.locations]
    rw [hloaded]
    split
    · exact (say_inStep _ _).bind fun _ => .pure _
    · exact readNew_inStep h ih location adopted

theorem readAll_inStep (primary : String) :
    InStep (Matched source source') (readAll primary) (readAll primary) := by
  unfold readAll
  refine .get fun l l' hl => ?_
  rw [hl.first, hl.second, h.normalize]
  refine .bind_lift fun location => .get fun l l' hl => ?_
  rw [hl.first, hl.second, h.fileCount]
  exact (loadDocument_inStep h _ _ _).bind fun _ => .get fun _ _ _ => say_inStep _ _

end Documents

/-! ## Whole loads -/

section Loads

variable {source source' : Source}

/-- Loaders that match are linked alike, unless a name is used twice. -/
theorem linkAll_matched {l l' : Loader} (h : Matched source source' l l') :
    Ensures linkAll l
      (fun _ t => t.set.DistinctlyNamed → Ensures linkAll l'
        (fun _ t' => ∃ ρ σ, t.set.Rearranged ρ σ t'.set) fun _ _ => False)
      fun _ t => t.set.DistinctlyNamed → Ensures linkAll l' (fun _ _ => False) fun _ _ => True := by
  obtain ⟨ρ, σ, halike⟩ := h.alike
  have hrearranged (distinct : l.set.link.1.DistinctlyNamed) : l.set.Rearranged ρ σ l'.set :=
    halike.rearranged h.parsed.tabled h.parsed'.tabled
      ((SchemaSet.distinctlyNamed_link h.parsed.closed).1 distinct)
  refine (ensures_linkAll_set l).mono ?_ ?_
  · rintro - t ⟨hset, hok⟩ distinct
    rw [hset] at distinct ⊢
    have hsets := hrearranged distinct
    have hok' := (hsets.link_succeeds_iff h.parsed h.parsed').2 hok
    refine (ensures_linkAll_set l').mono ?_ ?_
    · rintro - t' ⟨hset', -⟩
      rw [hset']
      exact ⟨ρ, σ, hsets.link h.parsed.closed h.parsed'.closed hok hok'⟩
    · rintro e - ⟨-, herror⟩
      rw [hok'] at herror
      cases herror
  · rintro e t ⟨hset, herror⟩ distinct
    rw [hset] at distinct
    refine (ensures_linkAll_set l').mono ?_ fun _ _ _ => trivial
    rintro - t' ⟨-, hok'⟩
    rw [((hrearranged distinct).link_succeeds_iff h.parsed h.parsed').1 hok'] at herror
    cases herror

/-- The order of the declarations in the documents does not matter.  Where no two declarations of
one kind at the top of the documents have the same name, either both loads succeed or neither does.
After loads that succeeded the sets are the same but for the places of the declarations: each of them
has been linked to the same, each name means the same root, and the paths from there are the same. -/
theorem load_reordered (h : source.Reordered source') (primary : String)
    (distinct : (({ source } : Loader).load primary).1.set.DistinctlyNamed) :
    let first := ({ source } : Loader).load primary
    let second := ({ source := source' } : Loader).load primary
    (second.2 = .ok () ↔ first.2 = .ok ()) ∧
      (first.2 = .ok () → ∃ ρ σ, first.1.set.Rearranged ρ σ second.1.set ∧
        (∀ name, Export.Root.find second.1.set name =
          (Export.Root.find first.1.set name).map fun found => (found.1.rename ρ, found.2)) ∧
        ∀ request root, Export.Paths.fromRoot second.1.set request (root.rename ρ) =
          Export.Paths.fromRoot first.1.set request root) := by
  intro first second
  have hrun : Ensures (loadAll primary) { source }
      (fun _ t => t.set.DistinctlyNamed → Ensures (loadAll primary) { source := source' }
        (fun _ t' => ∃ ρ σ, t.set.Rearranged ρ σ t'.set) fun _ _ => False)
      fun _ t => t.set.DistinctlyNamed → Ensures (loadAll primary) { source := source' }
        (fun _ _ => False) fun _ _ => True := by
    refine ensures_bind.2 ((readAll_inStep h primary _ _ (matched_fresh _ _)).mono ?_ ?_)
    · rintro _ t hread
      obtain ⟨_, t', ⟨rfl, hmatched⟩, hthen⟩ := hread.exists_ok
      refine (linkAll_matched hmatched).mono (fun _ _ hlink distinct => ?_)
        fun _ _ hlink distinct => ?_
      · exact ensures_bind.2 (hthen.2 (hlink distinct))
      · exact ensures_bind.2 (hthen.2 (hlink distinct))
    · exact fun _ _ hread _ => ensures_bind.2 (hread.mono (fun _ _ h => h.elim) fun _ _ h => h)
  cases hfirst : first.2 with
  | ok =>
    have hthen := load_ok hrun hfirst distinct
    cases hsecond : second.2 with
    | ok =>
      obtain ⟨ρ, σ, hsets⟩ := load_ok hthen hsecond
      exact ⟨Iff.rfl, fun _ => ⟨ρ, σ, hsets, Export.Root.find_rearranged hsets,
        Export.Paths.fromRoot_rename hsets⟩⟩
    | error e => exact (load_error hthen hsecond).elim
  | error e =>
    have hthen := load_error hrun hfirst distinct
    cases hsecond : second.2 with
    | ok => exact (load_ok hthen hsecond).elim
    | error e' => exact ⟨⟨nofun, nofun⟩, nofun⟩

end Loads

/-! ## A document turned round -/

/-- An element of a type, and the type. -/
def turnedParts : String × String :=
  ("<s:element name=\"a\" type=\"t\"/>", "<s:complexType name=\"t\"/>")

def partBytes (first second : String) : List UInt8 :=
  ("<s:schema xmlns:s=\"" ++ xsSpace ++ "\">" ++ first ++ second ++ "</s:schema>").toUTF8.toList

def typeLast : List UInt8 := partBytes turnedParts.1 turnedParts.2

def typeFirst : List UInt8 := partBytes turnedParts.2 turnedParts.1

/-- The trees of the parts. -/
def partTrees : Markup.Tree × Markup.Tree :=
  (.element ⟨xsSpace, "element"⟩ [(⟨"", "name"⟩, "a"), (⟨"", "type"⟩, "t")] [],
    .element ⟨xsSpace, "complexType"⟩ [(⟨"", "name"⟩, "t")] [])

def schemaTree (content : List Markup.Tree) : Markup.Tree := .element ⟨xsSpace, "schema"⟩ [] content

theorem turned_trees :
    (schemaOf "a.xsd" typeLast).toOption = some (schemaTree [partTrees.1, partTrees.2]) ∧
      (schemaOf "a.xsd" typeFirst).toOption = some (schemaTree [partTrees.2, partTrees.1]) := by
  decide +kernel

theorem reordered_turned :
    (Source.upload [("a.xsd", typeLast)]).Reordered (.upload [("a.xsd", typeFirst)]) := by
  have hok {bytes : List UInt8} {tree : Markup.Tree}
      (h : (schemaOf "a.xsd" bytes).toOption = some tree) : schemaOf "a.xsd" bytes = .ok tree := by
    cases hread : schemaOf "a.xsd" bytes with
    | error e =>
      rw [hread] at h
      cases h
    | ok t =>
      rw [hread] at h
      exact congrArg _ (Option.some.inj h)
  refine Source.reordered_upload (.cons ⟨rfl, ?_⟩ .nil)
  refine .reordered (hok turned_trees.1) (hok turned_trees.2) rfl (by decide +kernel) ?_ rfl
  exact .swap _ _ _

theorem turned_loads_alike :
    let first := ({ source := .upload [("a.xsd", typeLast)] } : Loader).load "a.xsd"
    let second := ({ source := .upload [("a.xsd", typeFirst)] } : Loader).load "a.xsd"
    first.1.set.DistinctlyNamed ∧ first.2 = .ok () ∧ second.2 = .ok () ∧
      ∃ ρ σ, first.1.set.Rearranged ρ σ second.1.set := by
  intro first second
  have hfirst : first.1.set.DistinctlyNamed ∧ first.2 = .ok () := by decide +kernel
  obtain ⟨hboth, hsets⟩ := load_reordered reordered_turned "a.xsd" hfirst.1
  obtain ⟨ρ, σ, hrearranged, -⟩ := hsets hfirst.2
  exact ⟨hfirst.1, hfirst.2, hboth.2 hfirst.2, ρ, σ, hrearranged⟩

end Loader
end Schema
end SchemaPaths
