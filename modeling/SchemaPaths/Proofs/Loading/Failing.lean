/-
How a load fails.

Most failures are reported: a document is missing, is no schema document or is refused, or a name
has no declaration.  Four are not, and each comes from a document that the load has come to: one
that declares an entity, one whose encoding is of no use, one with a number of occurrences that is
none, and one with a derivation that has no base.
-/
import SchemaPaths.Proofs.Linking.Typing
import SchemaPaths.Proofs.Loading.Following
import SchemaPaths.Proofs.Schema.Spelling

namespace SchemaPaths
namespace Schema

open Relation

/-! ## Causes -/

/-- A load of the document at `start` comes to the document at the other location. -/
def Source.Reaches (source : Source) (start : String) : String → Prop :=
  ReflTransGen source.Refers start

/-- The failures of a load of the document at `start`: those that are reported, and those that have
their cause in a document that the load comes to. -/
inductive LoadFault (source : Source) (start : String) : Failure → Prop
  | load (problem : LoadProblem) (about : Option String) :
      LoadFault source start (.load problem about)
  | unresolved (what : Symbol) (name : QName) :
      LoadFault source start (.schema (.unresolved what name))
  | entityDeclared {x : String} (reached : source.Reaches start x)
      (document : source.schema x = .error .entityDeclared) : LoadFault source start .entityDeclared
  | encoding {x : String} {f : Markup.EncodingFault} (reached : source.Reaches start x)
      (document : source.schema x = .error (.encoding f)) : LoadFault source start (.encoding f)
  | badNumber {x : String} {tree : Markup.Tree} (reached : source.Reaches start x)
      (document : source.schema x = .ok tree) (miscounted : Miscounted tree.content) :
      LoadFault source start .badNumber
  | missingPart {x : String} {tree : Markup.Tree} (reached : source.Reaches start x)
      (document : source.schema x = .ok tree) (baseless : Baseless tree.content) :
      LoadFault source start .missingPart

/-- What is asked of all documents that a load of `start` comes to. -/
def Source.demand (source : Source) (start : String) : Demand where
  counted := ∀ x tree, source.Reaches start x → source.schema x = .ok tree →
    ¬ Miscounted tree.content
  based := ∀ x tree, source.Reaches start x → source.schema x = .ok tree →
    ¬ Baseless tree.content

section Causes

variable {source : Source} {start x : String} {tree : Markup.Tree}

theorem Source.met_demand (reached : source.Reaches start x)
    (document : source.schema x = .ok tree) : (source.demand start).Met tree.content :=
  ⟨fun h => h x tree reached document, fun h => h x tree reached document⟩

theorem LoadFault.of_not_counted (h : ¬ (source.demand start).counted) :
    LoadFault source start .badNumber := by
  simp only [Source.demand, not_forall, not_not] at h
  obtain ⟨x, tree, reached, document, miscounted⟩ := h
  exact .badNumber reached document miscounted

theorem LoadFault.of_not_based (h : ¬ (source.demand start).based) :
    LoadFault source start .missingPart := by
  simp only [Source.demand, not_forall, not_not] at h
  obtain ⟨x, tree, reached, document, baseless⟩ := h
  exact .missingPart reached document baseless

theorem LoadFault.of_refusal {location : String} {f : Failure} (h : Refusal location f)
    (hnumber : (source.demand start).counted → f ≠ .badNumber) : LoadFault source start f := by
  cases h with
  | undeclaredPrefix => exact .load _ _
  | noDerivation => exact .load _ _
  | badNumber => exact .of_not_counted fun h => hnumber h rfl

/-- Why there is no schema document at a location of an upload. -/
theorem LoadFault.of_schema {files : List (String × List UInt8)} {f : Failure}
    (reached : (Source.upload files).Reaches start x)
    (document : (Source.upload files).schema x = .error f) :
    LoadFault (.upload files) start f := by
  have document' := document
  unfold Source.schema Source.read at document
  dsimp only at document
  split at document
  · rename_i bytes _
    change Loader.schemaOf x bytes = .error f at document
    unfold Loader.schemaOf Loader.treeOf at document
    split at document
    · dsimp only [bind, Except.bind] at document
      split at document
      · cases document
      · cases document
        exact .load _ _
    · cases document
      exact .load _ _
    · cases document
      exact .entityDeclared reached document'
    · cases document
      exact .encoding reached document'
  · cases document
    exact .load _ _

end Causes

/-! ## Linking -/

/-- Whatever linking looks up has a text. -/
theorem Sought.isSpelled {s : SchemaSet} {w : Demand} {what : Symbol} {q : QName}
    (h : Sought s what q) (hs : s.declared.Spelled w) : q.IsSpelled := by
  cases h with
  | @simpleBase i _ _ named => exact (hs.simpleType i).baseName q named
  | @itemType i _ named => exact (hs.simpleType i).itemName q named
  | @complexBase i m _ model named => exact ((hs.complexType i).model m model).base q named
  | @content i n _ particle named => exact (hs.complexType i).ownParticle n particle q named
  | @group _ _ g n _ particle named => exact hs.group g n particle q named
  | @attributeGroup i _ named => exact (hs.complexType i).ownAttributes q named
  | @innerAttributeGroup _ _ g _ _ named => exact hs.attributeGroup g q named
  | @attr i _ ref => exact (hs.attr i).ref q ref
  | @attributeType i _ _ _ named => exact (hs.attr i).typeName q named
  | @element i _ ref => exact (hs.element i).ref q ref
  | @head _ i _ _ _ named => exact (hs.element i).substitution q named
  | @elementType i _ _ _ named => exact (hs.element i).typeName q named

theorem Failure.unresolved_of_isSpelled (what : Symbol) {q : QName} (h : q.IsSpelled) :
    Failure.unresolved what q = .schema (.unresolved what q) := by
  have htext : q.text?.isSome = true := by
    unfold QName.text?
    split
    · exact h
    · rfl
  rw [Failure.unresolved, if_pos htext]

theorem LoadFault.of_fault {source : Source} {start : String} {s : SchemaSet} {f : Failure}
    (hs : s.declared.Spelled (source.demand start)) (h : Fault s f) : LoadFault source start f := by
  cases h with
  | unresolved sought =>
    rw [Failure.unresolved_of_isSpelled _ (sought.isSpelled hs)]
    exact .unresolved _ _
  | @noBase i m model none =>
    refine .of_not_based fun hbased => ?_
    have hsome := ((hs.complexType i).model m model).based hbased
    rw [none] at hsome
    cases hsome
  | circular => exact .load _ _

/-! ## Reading -/

/-- Reading into a set that is spelled out leaves it so, and stops at no number if that is
demanded. -/
theorem SchemaSet.spelled_read {s : SchemaSet} {w : Demand} (hs : s.declared.Spelled w)
    (setting : Setting) {content : List Markup.Tree} (h : w.Met content) :
    (s.read setting content).1.declared.Spelled w ∧
      ∀ f, (s.read setting content).2 = .error f → w.counted → f ≠ .badNumber := by
  have hrun := Declaring.spells_document (s := setting) content h s.declared hs
  unfold Ensures at hrun
  unfold SchemaSet.read
  split at hrun
  · rename_i heq
    rw [heq]
    exact ⟨hrun.1, nofun⟩
  · rename_i f d heq
    rw [heq]
    refine ⟨hrun.1, fun f' hf' => ?_⟩
    cases hf'
    exact hrun.2

namespace Loader

/-- A loader of a source has spelled out its declarations as demanded. -/
structure Spelled (source : Source) (start : String) (l : Loader) : Prop where
  declared : l.set.declared.Spelled (source.demand start)
  source : l.source = source

section Faults

variable {files : List (String × List UInt8)} {start x : String} {l : Loader}

/-- Reading a document that the load comes to goes well, or there is a document to blame.  This is
what is known of less fuel. -/
def Blames (files : List (String × List UInt8)) (start : String) (fuel : Nat) : Prop :=
  ∀ x adopted l, (Source.upload files).Reaches start x → Spelled (.upload files) start l →
    Ensures (loadDocument fuel x adopted) l (fun _ l' => Spelled (.upload files) start l')
      fun f _ => f = .endless ∨ LoadFault (.upload files) start f

theorem ensures_enter_spelled {setting : Setting} {content : List Markup.Tree}
    (hl : Spelled (.upload files) start l)
    (hmet : ((Source.upload files).demand start).Met content) :
    Ensures (enter setting content) l
      (fun directives l' => directives = directivesOf content ∧ Spelled (.upload files) start l')
      fun f _ => LoadFault (.upload files) start f := by
  have hspelled := SchemaSet.spelled_read hl.declared setting hmet
  have henter := ensures_enter setting content l
  rcases hread : l.set.read setting content with ⟨set, f | directives⟩
  · rw [hread] at hspelled
    rw [ensures_enter_of_error hread] at henter ⊢
    exact .of_refusal henter (hspelled.2 f rfl)
  · rw [hread] at hspelled
    rw [ensures_enter_of_ok hread] at henter ⊢
    exact ⟨henter.1, hspelled.1, hl.source⟩

theorem ensures_follow_spelled {fuel : Nat} (ih : Blames files start fuel) {tree : Markup.Tree}
    (reached : (Source.upload files).Reaches start x)
    (document : (Source.upload files).schema x = .ok tree) {d : Directive}
    (hd : d ∈ directivesOf tree.content) (space : String) (hl : Spelled (.upload files) start l) :
    Ensures (follow fuel x space d) l (fun _ l' => Spelled (.upload files) start l')
      fun f _ => f = .endless ∨ LoadFault (.upload files) start f := by
  unfold follow
  cases hpath : d.path? with
  | none =>
    dsimp only
    split
    · exact ensures_modify.2 ⟨hl.declared, hl.source⟩
    · exact ensures_throw.2 (.inr (.load _ _))
  | some path =>
    refine ensures_bind.2 (ensures_get.2 (ensures_bind.2 ?_))
    rw [hl.source]
    refine ensures_lift (fun child hchild => ?_) fun f hf => .inr ?_
    · exact ensures_bind.2 (ensures_modify.2 (ih child _ { l with notices := _ }
        (reached.tail ⟨tree, document, d, hd, path, hpath, hchild⟩) ⟨hl.declared, hl.source⟩))
    · unfold Source.resolve at hf
      split at hf
      · cases hf
        exact .load _ _
      · cases hf

-- a document is read only where the load comes to, so each fault is blamed on one of those
theorem ensures_loadDocument_spelled (fuel : Nat) : Blames files start fuel := by
  induction fuel with
  | zero => exact fun _ _ _ _ _ => ensures_throw.2 (.inl rfl)
  | succ fuel ih =>
    intro x adopted l reached hl
    by_cases hknown : x ∈ l.locations
    · exact ensures_known hknown fun _ => ⟨hl.declared, hl.source⟩
    · refine ensures_new hknown (ensures_bind.2 (ensures_get.2 (ensures_bind.2 ?_)))
      rw [hl.source]
      refine ensures_lift (fun bytes hbytes => ?_) fun f hf => .inr (.of_schema reached ?_)
      swap
      · rw [Source.schema, hf]
        rfl
      have hschema : (Source.upload files).schema x = schemaOf x bytes := by
        rw [Source.schema, hbytes]
        rfl
      refine ensures_bind.2 (ensures_lift (fun tree htree => ?_) fun f hf =>
        .inr (.of_schema reached (hschema.trans hf)))
      have document := hschema.trans htree
      refine ensures_bind.2 ((ensures_enter_spelled hl (Source.met_demand reached document)).mono
        ?_ fun f _ hf => .inr hf)
      rintro directives l' ⟨rfl, hl'⟩
      refine ensures_forM (fun _ t => Spelled (.upload files) start t) hl'
        fun before d after t hmem ht => ?_
      exact ensures_follow_spelled ih reached document (hmem ▸ List.mem_append_right _
        List.mem_cons_self) _ ht

theorem ensures_readAll_spelled {primary : String}
    (hstart : (Source.upload files).normalize primary = .ok start) :
    Ensures (readAll primary) { source := .upload files }
      (fun _ l => Spelled (.upload files) start l)
      fun f _ => f = .endless ∨ LoadFault (.upload files) start f := by
  have hnew : Spelled (.upload files) start { source := .upload files } :=
    ⟨Declarations.spelled_empty _, rfl⟩
  unfold readAll
  refine ensures_bind.2 (ensures_get.2 (ensures_bind.2 ?_))
  rw [hstart]
  refine ensures_bind.2 (ensures_get.2 (ensures_bind.2 ?_))
  refine (ensures_loadDocument_spelled _ start none _ .refl hnew).mono ?_ fun _ _ hf => hf
  intro _ l hl
  exact ensures_bind.2 (ensures_get.2 (ensures_modify.2 ⟨hl.declared, hl.source⟩))

end Faults

/-! ## Whole loads -/

/-- A load of an upload fails only for a reason that is reported, or over a document it comes to
that declares an entity, has a useless encoding, a number of occurrences that is none or a
derivation without a base. -/
theorem load_fault (files : List (String × List UInt8)) (primary : String) {f : Failure}
    (h : ((ofUpload files).load primary).2 = .error f) :
    LoadFault (Source.ofFiles files) (uploadName primary) f := by
  rw [ofUpload, ofFiles_eq] at h
  rw [ofFiles_eq]
  generalize heldFiles files = held at h ⊢
  have hstart : (Source.upload held).normalize primary = .ok (uploadName primary) := rfl
  generalize uploadName primary = start at hstart ⊢
  have hread := ((ensures_readAll hstart).and (ensures_readAll_spelled hstart)).and
    (leads_readAll steps_parsed primary { source := .upload held })
  have hrun : Ensures (loadAll primary) { source := .upload held } (fun _ _ => True)
      fun f _ => LoadFault (.upload held) start f := by
    refine ensures_bind.2 (hread.mono ?_ ?_)
    · rintro - l ⟨⟨-, hspelled⟩, hparsed⟩
      exact (ensures_linkAll_outcome l).mono (fun _ _ _ => trivial) fun f l' hf =>
        .of_fault hspelled.declared (.of_link (hparsed .empty).closed hf.2.2)
    · rintro f l ⟨⟨hends, hfault⟩, -⟩
      exact hfault.resolve_left hends
  exact load_error hrun h

/-! ## Failures that are not reported -/

def miscountedFiles : List (String × List UInt8) :=
  [("a", schemaBytes "" "<group name=\"g\"><all minOccurs=\"x\"/></group>")]

theorem miscounted_fails :
    ((ofUpload miscountedFiles).load "a").2 = .error .badNumber := by decide +kernel

theorem load_fault_miscounted : ((ofUpload miscountedFiles).load "a").2 = .error .badNumber ∧
    LoadFault (Source.ofFiles miscountedFiles) (uploadName "a") .badNumber :=
  ⟨miscounted_fails, load_fault miscountedFiles "a" miscounted_fails⟩

def baselessFiles : List (String × List UInt8) :=
  [("a", schemaBytes "" ("<complexType><complexContent><extension/></complexContent>" ++
    "</complexType>"))]

def entityFiles : List (String × List UInt8) :=
  [("a", "<!DOCTYPE a [<!ENTITY e \"\">]><a/>".toUTF8.toList)]

def encodingFiles : List (String × List UInt8) :=
  [("a", "<?xml version=\"1.0\" encoding=\"u\"?><a/>".toUTF8.toList)]

/-- So not every failure is a schema error. -/
theorem failures_unreported :
    (((ofUpload miscountedFiles).load "a").2 = .error .badNumber ∧
      ((ofUpload baselessFiles).load "a").2 = .error .missingPart ∧
      ((ofUpload entityFiles).load "a").2 = .error .entityDeclared ∧
      ((ofUpload encodingFiles).load "a").2 = .error (.encoding .unknown)) ∧
    ¬ ∀ files primary f, ((ofUpload files).load primary).2 = .error f →
      ∃ e : SchemaError, f = .schema e := by
  refine ⟨⟨miscounted_fails, by decide +kernel, by decide +kernel, by decide +kernel⟩, fun h => ?_⟩
  obtain ⟨e, he⟩ := h miscountedFiles "a" .badNumber miscounted_fails
  cases he

end Loader
end Schema
end SchemaPaths
