/-
Documents that take the namespace of another one.

A document without a namespace of its own takes that of the document that includes it, and its names
without a prefix are meant there.  It is read as if it had that namespace for its default one, unless
a value has a colon with no prefix before it: the default namespace is the one of the empty prefix, and
so the two readings differ there.
-/
import SchemaPaths.Schema.Declaring

namespace SchemaPaths

namespace Markup
namespace Prefixes

/-- The prefixes with a default namespace, in the place of one that was there. -/
def withDefault (space : String) : Prefixes → Prefixes
  | [] => [("", space)]
  | (p, u) :: ps => if p == "" then ("", space) :: ps else (p, u) :: withDefault space ps

variable {space p : String} {ps : Prefixes}

theorem lookup_withDefault : (ps.withDefault space).lookup "" = some space := by
  induction ps with
  | nil => rfl
  | cons d ps ih =>
    obtain ⟨q, u⟩ := d
    rw [withDefault]
    by_cases hq : q = ""
    · rw [if_pos (beq_iff_eq.2 hq), List.lookup_cons_self]
    · rw [if_neg (by simpa using hq), List.lookup_cons, beq_eq_false_iff_ne.2 (Ne.symm hq)]
      exact ih

theorem lookup_withDefault_of_ne (hp : p ≠ "") :
    (ps.withDefault space).lookup p = ps.lookup p := by
  have hother {u : String} {l : Prefixes} : List.lookup p (("", u) :: l) = l.lookup p := by
    rw [List.lookup_cons, beq_eq_false_iff_ne.2 hp]
  induction ps with
  | nil => exact hother
  | cons d ps ih =>
    obtain ⟨q, u⟩ := d
    rw [withDefault]
    split
    · rename_i hq
      rw [beq_iff_eq.1 hq, hother, hother]
    · rw [List.lookup_cons, List.lookup_cons, ih]

/-- No namespace has the empty prefix for its own. -/
theorem prefixOf?_withDefault (u : String) : (ps.withDefault space).prefixOf? u = ps.prefixOf? u := by
  have hother {u' : String} {l : Prefixes} : prefixOf? (("", u') :: l) u = l.prefixOf? u := by
    simp [prefixOf?]
  induction ps with
  | nil => exact hother
  | cons d ps ih =>
    obtain ⟨q, u'⟩ := d
    rw [withDefault]
    split
    · rename_i hq
      rw [beq_iff_eq.1 hq, hother, hother]
    · unfold prefixOf? at ih ⊢
      rw [List.find?_cons, List.find?_cons]
      split
      · rfl
      · exact ih

end Prefixes
end Markup

namespace Schema

open Markup (Name Tree)

/-! ## Values with prefixes -/

/-- The attributes of a construct whose values are names. -/
def Construct.references : Construct → List String
  | .element => ["ref", "type", "substitutionGroup"]
  | .attr => ["ref", "type"]
  | .group => ["ref"]
  | .attrGroup => ["ref"]
  | .extension => ["base"]
  | .restriction => ["base"]
  | .list => ["itemType"]
  | _ => []

/-- If there is a colon in the value, there is something before it. -/
def hasPrefix (value : Option String) : Bool :=
  value.all fun v => (Text.cut? ':' (Text.trim v)).all fun cut => cut.1 != ""

mutual

/-- No name inside has a colon with nothing before it; annotations and what is not of the schema
language do not matter. -/
def wellPrefixed : Tree → Bool
  | .text _ => true
  | .element n as content =>
    match Construct.ofName? n with
    | none => true
    | some .notes => true
    | some c => c.references.all (fun a => hasPrefix (valueOf? as a)) && allWellPrefixed content

def allWellPrefixed : List Tree → Bool
  | [] => true
  | t :: ts => wellPrefixed t && allWellPrefixed ts

end

section Trees

variable {n : Name} {as : Attributes} {content : List Tree} {c : Construct} {t : Tree} {ts : List Tree}

theorem allWellPrefixed_cons :
    allWellPrefixed (t :: ts) = true ↔ wellPrefixed t = true ∧ allWellPrefixed ts = true := by
  rw [allWellPrefixed, Bool.and_eq_true]

theorem wellPrefixed_inside (h : wellPrefixed (.element n as content) = true)
    (hc : Construct.ofName? n = some c) (hnotes : c ≠ .notes) :
    (∀ a ∈ c.references, hasPrefix (valueOf? as a) = true) ∧ allWellPrefixed content = true := by
  rw [wellPrefixed, hc] at h
  split at h
  · rename_i hnone
    cases hnone
  · rename_i heq
    exact absurd (Option.some.inj heq) hnotes
  · rename_i c' _ heq
    cases heq
    rw [Bool.and_eq_true, List.all_eq_true] at h
    exact h

end Trees

/-! ## Settings that agree -/

/-- The settings are of documents in the same place and with the same namespace, and give each value
that has its prefix the same meaning. -/
structure Setting.Agrees (s s' : Setting) : Prop where
  source : s'.source = s.source
  space : s'.space = s.space
  elementForm : s'.elementForm = s.elementForm
  attributeForm : s'.attributeForm = s.attributeForm
  qname : ∀ value, hasPrefix value = true → Declaring.qname s' value = Declaring.qname s value
  extras : ∀ as, Declaring.extras s' as = Declaring.extras s as

def Document.withPrefixes (ps : Markup.Prefixes) (doc : Document) : Document :=
  { doc with prefixes := ps }

/-- Of a document that takes the namespace of another one. -/
def Setting.asAdopted (s : Setting) : Setting := { s with adopted := true }

/-- Of a document that has its namespace for the default one. -/
def Setting.defaulting (s : Setting) : Setting :=
  { s with adopted := false, prefixes := s.prefixes.withDefault s.space }

theorem Setting.agrees_defaulting (s : Setting) (h : (s.prefixes.lookup "").getD "" = "") :
    s.asAdopted.Agrees s.defaulting where
  source := rfl
  space := rfl
  elementForm := rfl
  attributeForm := rfl
  extras as := by
    unfold Declaring.extras Setting.defaulting Setting.asAdopted
    simp only [Markup.Prefixes.prefixOf?_withDefault]
  qname value hvalue := by
    unfold Declaring.qname Setting.defaulting Setting.asAdopted
    cases value with
    | none => rfl
    | some value =>
      dsimp only
      split
      · rfl
      · have hcut : ∀ p rest, Text.cut? ':' (Text.trim value) = some (p, rest) → p ≠ "" := by
          intro p rest hp
          simpa [hasPrefix, hp] using hvalue
        split
        · rename_i p rest hp
          rw [Markup.Prefixes.lookup_withDefault_of_ne (hcut p rest hp)]
        · simp [Markup.Prefixes.lookup_withDefault, h]

namespace Declaring

/-! ## What is read alike -/

section Reading

variable {s s' : Setting}

theorem identity_eq (h : s.Agrees s') (isGlobal : Bool) (form : String) (as : Attributes) (ref : Option QName) :
    identity s' isGlobal form as ref = identity s isGlobal form as ref := by
  unfold identity localSpace
  rw [h.space]

theorem declaredSpace_eq (h : s.Agrees s') (name : Option String) : declaredSpace s' name = declaredSpace s name := by
  unfold declaredSpace
  rw [h.space]

theorem groupRef?_eq (h : s.Agrees s') {as : Attributes} (hv : hasPrefix (valueOf? as "ref") = true) :
    groupRef? s' as = groupRef? s as := by
  unfold groupRef?
  rw [h.qname _ hv]

theorem simpleTypeOf_eq (h : s.Agrees s') (name : Option String) (content : List Tree)
    {parts parts' : SimpleType → Declare SimpleType} (hparts : ∀ t, parts' t = parts t) :
    simpleTypeOf s' name content parts' = simpleTypeOf s name content parts := by
  unfold simpleTypeOf
  rw [declaredSpace_eq h, hparts]

mutual

theorem simplePart_eq (h : s.Agrees s') : ∀ (part : Tree), wellPrefixed part = true → ∀ t,
    simplePart s' part t = simplePart s part t
  | .text _, _, _ => by rw [simplePart, simplePart]
  | .element n as content, hpart, t => by
    rw [simplePart, simplePart]
    split
    · rename_i hc
      obtain ⟨hvalues, hcontent⟩ := wellPrefixed_inside hpart hc (by decide)
      rw [h.qname _ (hvalues "base" (by decide)), firstSimple_eq h content hcontent]
    · rename_i hc
      obtain ⟨hvalues, -⟩ := wellPrefixed_inside hpart hc (by decide)
      rw [h.qname _ (hvalues "itemType" (by decide))]
    · rfl
    · rfl

theorem simpleParts_eq (h : s.Agrees s') : ∀ (parts : List Tree), allWellPrefixed parts = true → ∀ t,
    simpleParts s' parts t = simpleParts s parts t
  | [], _, _ => by rw [simpleParts, simpleParts]
  | part :: parts, hparts, t => by
    obtain ⟨hpart, hrest⟩ := allWellPrefixed_cons.1 hparts
    rw [simpleParts, simpleParts, simplePart_eq h part hpart]
    exact congrArg _ (funext fun t' => simpleParts_eq h parts hrest t')

theorem simple?_eq (h : s.Agrees s') : ∀ (t : Tree), wellPrefixed t = true → simple? s' t = simple? s t
  | .text _, _ => by rw [simple?, simple?]
  | .element n as content, ht => by
    rw [simple?, simple?]
    split
    · rename_i hc
      obtain ⟨-, hcontent⟩ := wellPrefixed_inside ht (beq_iff_eq.1 hc) (by decide)
      rw [simpleTypeOf_eq h none content (simpleParts_eq h content hcontent)]
    · rfl

theorem firstSimple_eq (h : s.Agrees s') : ∀ (ts : List Tree), allWellPrefixed ts = true →
    firstSimple s' ts = firstSimple s ts
  | [], _ => by rw [firstSimple, firstSimple]
  | t :: ts, hts => by
    obtain ⟨ht, hrest⟩ := allWellPrefixed_cons.1 hts
    rw [firstSimple, firstSimple, simple?_eq h t ht, firstSimple_eq h ts hrest]

end

theorem simpleType_eq (h : s.Agrees s') (name : Option String) {content : List Tree}
    (hcontent : allWellPrefixed content = true) :
    simpleType s' name content = simpleType s name content :=
  simpleTypeOf_eq h name content (simpleParts_eq h content hcontent)

theorem attr_eq (h : s.Agrees s') (isGlobal : Bool) {as : Attributes} {content : List Tree}
    (href : hasPrefix (valueOf? as "ref") = true) (htype : hasPrefix (valueOf? as "type") = true)
    (hcontent : allWellPrefixed content = true) :
    attr s' isGlobal as content = attr s isGlobal as content := by
  unfold attr
  rw [firstSimple_eq h content hcontent, h.qname _ href, h.qname _ htype, h.attributeForm]
  simp only [identity_eq h]

theorem attributeUses_eq (h : s.Agrees s') (content : List Tree)
    (hcontent : allWellPrefixed content = true) : attributeUses s' content = attributeUses s content := by
  induction content with
  | nil => rw [attributeUses, attributeUses]
  | cons t ts ih =>
    obtain ⟨ht, hts⟩ := allWellPrefixed_cons.1 hcontent
    cases t with
    | text => rw [attributeUses, attributeUses, ih hts]
    | element n as content =>
      rw [attributeUses, attributeUses, ih hts]
      split
      · rename_i hc
        obtain ⟨hvalues, hinner⟩ := wellPrefixed_inside ht hc (by decide)
        rw [attr_eq h false (hvalues "ref" (by decide)) (hvalues "type" (by decide)) hinner]
      · rename_i hc
        obtain ⟨hvalues, -⟩ := wellPrefixed_inside ht hc (by decide)
        rw [h.qname _ (hvalues "ref" (by decide))]
      · rfl

theorem elementOf_eq (h : s.Agrees s') (isGlobal : Bool) {as : Attributes} (content : List Tree)
    (hvalues : ∀ a ∈ Construct.references .element, hasPrefix (valueOf? as a) = true)
    {inner inner' : Declare (Option TypeRef)} (hinner : inner' = inner) :
    elementOf s' isGlobal as content inner' = elementOf s isGlobal as content inner := by
  unfold elementOf
  rw [hinner, h.qname _ (hvalues "ref" (by decide)), h.qname _ (hvalues "type" (by decide)),
    h.qname _ (hvalues "substitutionGroup" (by decide)), h.elementForm, h.extras]
  simp only [identity_eq h]

theorem complexTypeOf_eq (h : s.Agrees s') (name : Option String) (as : Attributes)
    {content : List Tree} (hcontent : allWellPrefixed content = true)
    {model model' : Declare (Option Derived)} {particle particle' : Declare (Option Node)}
    (hmodel : model' = model) (hparticle : particle' = particle) :
    complexTypeOf s' name as content model' particle' =
      complexTypeOf s name as content model particle := by
  unfold complexTypeOf
  rw [hmodel, hparticle, declaredSpace_eq h, attributeUses_eq h content hcontent]

theorem derivedOf_eq (h : s.Agrees s') (simple mixed : Bool) (derivation : Derivation)
    {as : Attributes} {content : List Tree} (hbase : hasPrefix (valueOf? as "base") = true)
    (hcontent : allWellPrefixed content = true) {particle particle' : Declare (Option Node)}
    (hparticle : particle' = particle) :
    derivedOf s' simple mixed derivation as content particle' =
      derivedOf s simple mixed derivation as content particle := by
  unfold derivedOf
  rw [hparticle, attributeUses_eq h content hcontent, h.qname _ hbase]

/-- Only extensions and restrictions are derivations, and both name a base. -/
theorem references_of_derivation? {simple : Bool} {c : Construct} {d : Derivation}
    (h : derivation? simple c = some d) : c ≠ .notes ∧ "base" ∈ c.references := by
  unfold derivation? at h
  split at h
  · exact ⟨by decide, by decide⟩
  · exact ⟨by decide, by decide⟩
  · cases h

mutual

theorem inline?_eq (h : s.Agrees s') : ∀ (t : Tree), wellPrefixed t = true →
    inline? s' t = inline? s t
  | .text _, _ => by rw [inline?, inline?]
  | .element n as content, ht => by
    rw [inline?, inline?]
    split
    · rename_i hc
      obtain ⟨-, hcontent⟩ := wellPrefixed_inside ht hc (by decide)
      rw [complexTypeOf_eq h none as hcontent (model_eq h none content hcontent)
        (particle_eq h content hcontent)]
    · rename_i hc
      obtain ⟨-, hcontent⟩ := wellPrefixed_inside ht hc (by decide)
      rw [simpleType_eq h none hcontent]
    · rfl

theorem lastInline_eq (h : s.Agrees s') : ∀ (ts : List Tree), allWellPrefixed ts = true → ∀ last,
    lastInline s' ts last = lastInline s ts last
  | [], _, _ => by rw [lastInline, lastInline]
  | t :: ts, hts, last => by
    obtain ⟨ht, hrest⟩ := allWellPrefixed_cons.1 hts
    rw [lastInline, lastInline, inline?_eq h t ht]
    exact congrArg _ (funext fun found => lastInline_eq h ts hrest _)

theorem particle?_eq (h : s.Agrees s') : ∀ (t : Tree), wellPrefixed t = true →
    particle? s' t = particle? s t
  | .text _, _ => by rw [particle?, particle?]
  | .element n as content, ht => by
    rw [particle?, particle?]
    split
    · rename_i hc
      rw [items_eq h content (wellPrefixed_inside ht hc (by decide)).2]
    · rename_i hc
      rw [items_eq h content (wellPrefixed_inside ht hc (by decide)).2]
    · rename_i hc
      rw [items_eq h content (wellPrefixed_inside ht hc (by decide)).2]
    · rename_i hc
      exact groupRef?_eq h ((wellPrefixed_inside ht hc (by decide)).1 "ref" (by decide))
    · rfl

theorem particle_eq (h : s.Agrees s') : ∀ (ts : List Tree), allWellPrefixed ts = true →
    particle s' ts = particle s ts
  | [], _ => by rw [particle, particle]
  | t :: ts, hts => by
    obtain ⟨ht, hrest⟩ := allWellPrefixed_cons.1 hts
    rw [particle, particle, particle?_eq h t ht, particle_eq h ts hrest]

theorem item?_eq (h : s.Agrees s') : ∀ (t : Tree), wellPrefixed t = true → item? s' t = item? s t
  | .text _, _ => by rw [item?, item?]
  | .element n as content, ht => by
    rw [item?, item?]
    split
    · rename_i hc
      obtain ⟨hvalues, hcontent⟩ := wellPrefixed_inside ht hc (by decide)
      rw [elementOf_eq h false content hvalues (lastInline_eq h content hcontent none)]
    · rename_i hc
      rw [items_eq h content (wellPrefixed_inside ht hc (by decide)).2]
    · rename_i hc
      rw [items_eq h content (wellPrefixed_inside ht hc (by decide)).2]
    · rename_i hc
      exact groupRef?_eq h ((wellPrefixed_inside ht hc (by decide)).1 "ref" (by decide))
    · rfl
    · rfl

theorem items_eq (h : s.Agrees s') : ∀ (ts : List Tree), allWellPrefixed ts = true →
    items s' ts = items s ts
  | [], _ => by rw [items, items]
  | t :: ts, hts => by
    obtain ⟨ht, hrest⟩ := allWellPrefixed_cons.1 hts
    rw [items, items, item?_eq h t ht, items_eq h ts hrest]

theorem derived?_eq (h : s.Agrees s') (simple mixed : Bool) : ∀ (t : Tree), wellPrefixed t = true →
    derived? s' simple mixed t = derived? s simple mixed t
  | .text _, _ => by rw [derived?, derived?]
  | .element n as content, ht => by
    rw [derived?, derived?]
    split
    · rename_i d hd
      obtain ⟨c, hc, hderivation⟩ := Option.bind_eq_some_iff.1 hd
      obtain ⟨hnotes, hbase⟩ := references_of_derivation? hderivation
      obtain ⟨hvalues, hcontent⟩ := wellPrefixed_inside ht hc hnotes
      rw [derivedOf_eq h simple mixed d (hvalues "base" hbase) hcontent
        (particle_eq h content hcontent)]
    · rfl

theorem derived_eq (h : s.Agrees s') (simple mixed : Bool) (name : Option String) :
    ∀ (ts : List Tree), allWellPrefixed ts = true →
      derived s' simple mixed name ts = derived s simple mixed name ts
  | [], _ => by rw [derived, derived, h.source]
  | t :: ts, hts => by
    obtain ⟨ht, hrest⟩ := allWellPrefixed_cons.1 hts
    rw [derived, derived, derived?_eq h simple mixed t ht, derived_eq h simple mixed name ts hrest]

theorem model?_eq (h : s.Agrees s') (name : Option String) : ∀ (t : Tree), wellPrefixed t = true →
    model? s' name t = model? s name t
  | .text _, _ => by rw [model?, model?]
  | .element n as content, ht => by
    rw [model?, model?]
    split
    · rename_i hc
      rw [derived_eq h false _ name content (wellPrefixed_inside ht hc (by decide)).2]
    · rename_i hc
      rw [derived_eq h true _ name content (wellPrefixed_inside ht hc (by decide)).2]
    · rfl

theorem model_eq (h : s.Agrees s') (name : Option String) : ∀ (ts : List Tree),
    allWellPrefixed ts = true → model s' name ts = model s name ts
  | [], _ => by rw [model, model]
  | t :: ts, hts => by
    obtain ⟨ht, hrest⟩ := allWellPrefixed_cons.1 hts
    rw [model, model, model?_eq h name t ht, model_eq h name ts hrest]

end

/-! ## Whole documents -/

theorem topLevel_eq (h : s.Agrees s') (ps : Markup.Prefixes) {n : Name} {as : Attributes}
    {content : List Tree} (ht : wellPrefixed (.element n as content) = true) (doc : Document)
    (directives : List Directive) :
    topLevel s' n as content (doc.withPrefixes ps) directives =
      (fun r => (r.1.withPrefixes ps, r.2)) <$> topLevel s n as content doc directives := by
  unfold topLevel
  split
  · rfl
  · rfl
  · rfl
  · rename_i hc
    obtain ⟨hvalues, hcontent⟩ := wellPrefixed_inside ht hc (by decide)
    have helement : element s' true as content = element s true as content :=
      elementOf_eq h true content hvalues (lastInline_eq h content hcontent none)
    rw [helement, map_bind]
    rfl
  · rename_i hc
    obtain ⟨-, hcontent⟩ := wellPrefixed_inside ht hc (by decide)
    have htype (name : Option String) : complexType s' name as content = complexType s name as content :=
      complexTypeOf_eq h name as hcontent (model_eq h name content hcontent)
        (particle_eq h content hcontent)
    rw [htype, map_bind]
    rfl
  · rename_i hc
    rw [simpleType_eq h _ (wellPrefixed_inside ht hc (by decide)).2, map_bind]
    rfl
  · rename_i hc
    have hgroup : group s' as content = group s as content := by
      unfold group
      rw [particle_eq h content (wellPrefixed_inside ht hc (by decide)).2, h.space]
    rw [hgroup, map_bind]
    rfl
  · rename_i hc
    obtain ⟨hvalues, hcontent⟩ := wellPrefixed_inside ht hc (by decide)
    rw [attr_eq h true (hvalues "ref" (by decide)) (hvalues "type" (by decide)) hcontent, map_bind]
    rfl
  · rename_i hc
    have hgroup : attributeGroup s' as content = attributeGroup s as content := by
      unfold attributeGroup
      rw [attributeUses_eq h content (wellPrefixed_inside ht hc (by decide)).2, h.space]
    rw [hgroup, map_bind]
    rfl
  · rfl

theorem topLevels_eq (h : s.Agrees s') (ps : Markup.Prefixes) (ts : List Tree)
    (hts : allWellPrefixed ts = true) (doc : Document) (directives : List Directive) :
    topLevels s' (doc.withPrefixes ps) directives ts =
      (fun r => (r.1.withPrefixes ps, r.2)) <$> topLevels s doc directives ts := by
  induction ts generalizing doc directives with
  | nil =>
    rw [topLevels, topLevels]
    rfl
  | cons t ts ih =>
    obtain ⟨ht, hrest⟩ := allWellPrefixed_cons.1 hts
    cases t with
    | text =>
      rw [topLevels, topLevels]
      exact ih hrest doc directives
    | element n as content =>
      rw [topLevels, topLevels, topLevel_eq h ps ht, map_bind, bind_map_left]
      exact congrArg _ (funext fun r => ih hrest r.1 r.2)

end Reading

/-- A document that takes the namespace of another one, where it has no default namespace, is read as
one that has this namespace for its default one: into the same declarations and with the same
directives, or up to the same failure.  Only the prefixes that are recorded of it differ.  No name in it
may have a colon with nothing before it. -/
theorem document_adopted (s : Setting) (hdefault : (s.prefixes.lookup "").getD "" = "")
    {content : List Tree} (hcontent : allWellPrefixed content = true) (d : Declarations) :
    (document s.defaulting content).run.run d =
      match (document s.asAdopted content).run.run d with
      | (.ok (doc, directives), d') => (.ok
          (doc.withPrefixes ((s.prefixes.withDefault s.space).filter fun p => p.1 != "xml"),
            directives), d')
      | (.error e, d') => (.error e, d') := by
  have hrun := topLevels_eq (s.agrees_defaulting hdefault)
    ((s.prefixes.withDefault s.space).filter fun p => p.1 != "xml") content hcontent
    { source := s.source, space := s.space, prefixes := s.prefixes.filter fun p => p.1 != "xml" } []
  have hdocument : document s.defaulting content =
      (fun r => (r.1.withPrefixes ((s.prefixes.withDefault s.space).filter fun p => p.1 != "xml"),
        r.2)) <$> document s.asAdopted content := hrun
  rw [hdocument, ExceptT.run_map, StateT.run_map]
  rcases (document s.asAdopted content).run.run d with ⟨_ | r, d'⟩
  · rfl
  · rfl

/-- A document without a default namespace, taken into `urn:n`. -/
def partSetting : Setting where
  source := "b.xsd"
  space := "urn:n"
  adopted := true
  prefixes := [("s", xsSpace)]
  elementForm := "unqualified"
  attributeForm := "unqualified"

def typedElement (type : String) : List Tree :=
  [.element ⟨xsSpace, "element"⟩ [(⟨"", "name"⟩, "e"), (⟨"", "type"⟩, type)] []]

theorem document_adopted_typed :
    (partSetting.prefixes.lookup "").getD "" = "" ∧ allWellPrefixed (typedElement "t") = true ∧
      let declared := ((document partSetting.defaulting (typedElement "t")).run.run {}).2
      (declared.element 0).typeName = some ⟨"urn:n", some "t"⟩ ∧
        ((document partSetting.asAdopted (typedElement "t")).run.run {}).2.element 0 =
          declared.element 0 := by
  have hdefault : (partSetting.prefixes.lookup "").getD "" = "" := by decide
  have hcontent : allWellPrefixed (typedElement "t") = true := by decide +kernel
  have hrun := document_adopted partSetting hdefault hcontent {}
  refine ⟨hdefault, hcontent, by decide +kernel, ?_⟩
  rw [hrun]
  rcases (document partSetting.asAdopted (typedElement "t")).run.run {} with ⟨_ | r, d⟩
  · rfl
  · rfl

/-- The empty prefix is declared for the default namespace, and not where there is none. -/
theorem empty_prefix_refused :
    ((document partSetting.asAdopted (typedElement ":t")).run.run {}).1.isOk = false ∧
      ((document partSetting.defaulting (typedElement ":t")).run.run {}).1.isOk = true := by
  decide +kernel

end Declaring
end Schema
end SchemaPaths
