/-
What a reading passes over.

Elements that are no constructs of the schema language may stand anywhere in a document, with
whatever they hold: a reading takes no notice of them.  Only what is inside a piece of documentation
counts as a whole, as text.
-/
import SchemaPaths.Schema.Declaring

namespace SchemaPaths
namespace Schema

open Markup (Name Tree)

/-- The trees `us` are `ts` with elements put in that are no constructs of the schema language, at any
places among the text and the elements there and inside of these, other than inside documentation. -/
inductive Interspersed : List Tree → List Tree → Prop
  | nil : Interspersed [] []
  | keep {ts us : List Tree} (t : Tree) (rest : Interspersed ts us) :
      Interspersed (t :: ts) (t :: us)
  | inside {ts us content content' : List Tree} {n : Name} {as : Attributes}
      (notDocumentation : Construct.ofName? n ≠ some .documentation)
      (notAppinfo : Construct.ofName? n ≠ some .appinfo)
      (inner : Interspersed content content') (rest : Interspersed ts us) :
      Interspersed (.element n as content :: ts) (.element n as content' :: us)
  | put {ts us content : List Tree} {n : Name} {as : Attributes}
      (unknown : Construct.ofName? n = none) (rest : Interspersed ts us) :
      Interspersed ts (.element n as content :: us)
  | part {ts us : List Tree} {a b : String} (rest : Interspersed (.text b :: ts) us) :
      Interspersed (.text (a ++ b) :: ts) (.text a :: us)

namespace Declaring

/-- Two lists of trees mean the same wherever they stand in a document. -/
structure SameMeaning (ts us : List Tree) : Prop where
  notes : notesOf us = notesOf ts
  noted : us.filterMap note? = ts.filterMap note?
  simpleParts : ∀ s t, simpleParts s us t = simpleParts s ts t
  firstSimple : ∀ s, firstSimple s us = firstSimple s ts
  attributeUses : ∀ s, attributeUses s us = attributeUses s ts
  lastInline : ∀ s last, lastInline s us last = lastInline s ts last
  particle : ∀ s, particle s us = particle s ts
  items : ∀ s, items s us = items s ts
  derived : ∀ s simple mixed name, derived s simple mixed name us = derived s simple mixed name ts
  model : ∀ s name, model s name us = model s name ts
  topLevels : ∀ s doc directives, topLevels s doc directives us = topLevels s doc directives ts

/-- Two trees mean the same wherever they stand in a document. -/
structure SameMember (t u : Tree) : Prop where
  notes : notesOf [u] = notesOf [t]
  noted : note? u = note? t
  simplePart : ∀ s a, simplePart s u a = simplePart s t a
  simple? : ∀ s, simple? s u = simple? s t
  attributeUses : ∀ s ts, attributeUses s (u :: ts) = attributeUses s (t :: ts)
  inline? : ∀ s, inline? s u = inline? s t
  particle? : ∀ s, particle? s u = particle? s t
  item? : ∀ s, item? s u = item? s t
  derived? : ∀ s simple mixed, derived? s simple mixed u = derived? s simple mixed t
  model? : ∀ s name, model? s name u = model? s name t
  topLevels : ∀ s doc directives ts,
    topLevels s doc directives (u :: ts) = topLevels s doc directives (t :: ts)

section Lists

variable {ts us vs : List Tree} {t u : Tree}

namespace SameMeaning

theorem refl (ts : List Tree) : SameMeaning ts ts :=
  ⟨rfl, rfl, fun _ _ => rfl, fun _ => rfl, fun _ => rfl, fun _ _ => rfl, fun _ => rfl, fun _ => rfl,
    fun _ _ _ _ => rfl, fun _ _ => rfl, fun _ _ _ => rfl⟩

theorem trans (h : SameMeaning ts us) (h' : SameMeaning us vs) : SameMeaning ts vs where
  notes := h'.notes.trans h.notes
  noted := h'.noted.trans h.noted
  simpleParts s t := (h'.simpleParts s t).trans (h.simpleParts s t)
  firstSimple s := (h'.firstSimple s).trans (h.firstSimple s)
  attributeUses s := (h'.attributeUses s).trans (h.attributeUses s)
  lastInline s last := (h'.lastInline s last).trans (h.lastInline s last)
  particle s := (h'.particle s).trans (h.particle s)
  items s := (h'.items s).trans (h.items s)
  derived s a b n := (h'.derived s a b n).trans (h.derived s a b n)
  model s n := (h'.model s n).trans (h.model s n)
  topLevels s doc ds := (h'.topLevels s doc ds).trans (h.topLevels s doc ds)

theorem attributeUses_cons (h : SameMeaning ts us) (s : Setting) (t : Tree) :
    Declaring.attributeUses s (t :: us) = Declaring.attributeUses s (t :: ts) := by
  cases t with
  | text => rw [Declaring.attributeUses, Declaring.attributeUses, h.attributeUses]
  | element => rw [Declaring.attributeUses, Declaring.attributeUses, h.attributeUses]

theorem topLevels_cons (h : SameMeaning ts us) (s : Setting) (doc : Document)
    (directives : List Directive) (t : Tree) :
    Declaring.topLevels s doc directives (t :: us) =
      Declaring.topLevels s doc directives (t :: ts) := by
  cases t with
  | text => rw [Declaring.topLevels, Declaring.topLevels, h.topLevels]
  | element =>
    rw [Declaring.topLevels, Declaring.topLevels]
    exact congrArg _ (funext fun r => h.topLevels s r.1 r.2)

theorem cons (ht : SameMember t u) (h : SameMeaning ts us) : SameMeaning (t :: ts) (u :: us) where
  notes := by
    have hcons (t : Tree) (ts : List Tree) : notesOf (t :: ts) = notesOf [t] ++ notesOf ts := by
      simp [notesOf]
    rw [hcons, hcons t, ht.notes, h.notes]
  noted := by rw [List.filterMap_cons, List.filterMap_cons, ht.noted, h.noted]
  simpleParts s a := by
    rw [Declaring.simpleParts, Declaring.simpleParts, ht.simplePart]
    exact congrArg _ (funext fun b => h.simpleParts s b)
  firstSimple s := by
    rw [Declaring.firstSimple, Declaring.firstSimple, ht.simple?, h.firstSimple]
  attributeUses s := (ht.attributeUses s us).trans (h.attributeUses_cons s t)
  lastInline s last := by
    rw [Declaring.lastInline, Declaring.lastInline, ht.inline?]
    exact congrArg _ (funext fun found => h.lastInline s _)
  particle s := by rw [Declaring.particle, Declaring.particle, ht.particle?, h.particle]
  items s := by rw [Declaring.items, Declaring.items, ht.item?, h.items]
  derived s simple mixed name := by
    rw [Declaring.derived, Declaring.derived, ht.derived?, h.derived]
  model s name := by rw [Declaring.model, Declaring.model, ht.model?, h.model]
  topLevels s doc directives :=
    (ht.topLevels s doc directives us).trans (h.topLevels_cons s doc directives t)

theorem simpleType (h : SameMeaning ts us) (s : Setting) (name : Option String) :
    Declaring.simpleType s name us = Declaring.simpleType s name ts := by
  have hparts : Declaring.simpleParts s us = Declaring.simpleParts s ts :=
    funext fun a => h.simpleParts s a
  unfold Declaring.simpleType simpleTypeOf
  rw [hparts, h.notes]

theorem complexType (h : SameMeaning ts us) (s : Setting) (name : Option String) (as : Attributes) :
    Declaring.complexType s name as us = Declaring.complexType s name as ts := by
  unfold Declaring.complexType complexTypeOf
  rw [h.model, h.particle, h.attributeUses, h.notes]

theorem element (h : SameMeaning ts us) (s : Setting) (isGlobal : Bool) (as : Attributes) :
    Declaring.element s isGlobal as us = Declaring.element s isGlobal as ts := by
  unfold Declaring.element elementOf
  rw [h.lastInline, h.notes]

theorem attr (h : SameMeaning ts us) (s : Setting) (isGlobal : Bool) (as : Attributes) :
    Declaring.attr s isGlobal as us = Declaring.attr s isGlobal as ts := by
  unfold Declaring.attr
  rw [h.firstSimple, h.notes]

theorem topLevel (h : SameMeaning ts us) (s : Setting) (n : Name) (as : Attributes) (doc : Document)
    (directives : List Directive) :
    Declaring.topLevel s n as us doc directives = Declaring.topLevel s n as ts doc directives := by
  unfold Declaring.topLevel group attributeGroup
  rw [h.element, h.attr, h.particle, h.attributeUses, h.notes]
  simp only [h.complexType, h.simpleType]

end SameMeaning

namespace SameMember

theorem refl (t : Tree) : SameMember t t :=
  ⟨rfl, rfl, fun _ _ => rfl, fun _ => rfl, fun _ _ => rfl, fun _ => rfl, fun _ => rfl, fun _ => rfl,
    fun _ _ _ => rfl, fun _ _ => rfl, fun _ _ _ _ => rfl⟩

variable {n : Name} {as : Attributes} {content content' : List Tree}

/-- Only documentation is more than what is read out of its content. -/
theorem element (hdoc : Construct.ofName? n ≠ some .documentation)
    (happ : Construct.ofName? n ≠ some .appinfo) (h : SameMeaning content content') :
    SameMember (.element n as content) (.element n as content') where
  notes := by simp only [notesOf, List.flatMap_cons, h.noted]
  noted := by
    rw [note?, note?]
    split
    · contradiction
    · contradiction
    · rfl
  simplePart s a := by rw [Declaring.simplePart, Declaring.simplePart, h.firstSimple]
  simple? s := by
    rw [Declaring.simple?, Declaring.simple?]
    exact congrArg (ite _ · _) (congrArg (some <$> ·) (h.simpleType s none))
  attributeUses s ts := by rw [Declaring.attributeUses, Declaring.attributeUses, h.attr]
  inline? s := by
    have hcomplex := h.complexType s none as
    unfold complexType at hcomplex
    rw [Declaring.inline?, Declaring.inline?, hcomplex, h.simpleType]
  particle? s := by rw [Declaring.particle?, Declaring.particle?, h.items]
  item? s := by
    have helement := h.element s false as
    unfold Declaring.element at helement
    rw [Declaring.item?, Declaring.item?, helement, h.items]
  derived? s simple mixed := by
    rw [Declaring.derived?, Declaring.derived?]
    unfold derivedOf
    rw [h.attributeUses, h.particle]
  model? s name := by rw [Declaring.model?, Declaring.model?, h.derived, h.derived]
  topLevels s doc directives ts := by
    rw [Declaring.topLevels, Declaring.topLevels, h.topLevel]

/-- No text counts for itself. -/
theorem text (a b : String) : SameMember (.text a) (.text b) where
  notes := rfl
  noted := rfl
  simplePart s t := by rw [Declaring.simplePart, Declaring.simplePart]
  simple? s := by rw [Declaring.simple?, Declaring.simple?]
  attributeUses s ts := by rw [Declaring.attributeUses, Declaring.attributeUses]
  inline? s := by rw [Declaring.inline?, Declaring.inline?]
  particle? s := by rw [Declaring.particle?, Declaring.particle?]
  item? s := by rw [Declaring.item?, Declaring.item?]
  derived? s simple mixed := by rw [Declaring.derived?, Declaring.derived?]
  model? s name := by rw [Declaring.model?, Declaring.model?]
  topLevels s doc directives ts := by rw [Declaring.topLevels, Declaring.topLevels]

/-- An element that is no construct counts as little as text, whatever it holds. -/
theorem unknown (hn : Construct.ofName? n = none) (a : String) :
    SameMember (.text a) (.element n as content) where
  notes := by simp [notesOf, hn]
  noted := by simp [note?, hn]
  simplePart s t := by rw [Declaring.simplePart, Declaring.simplePart, hn]
  simple? s := by
    rw [Declaring.simple?, Declaring.simple?, hn]
    rfl
  attributeUses s ts := by rw [Declaring.attributeUses, Declaring.attributeUses, hn]
  inline? s := by rw [Declaring.inline?, Declaring.inline?, hn]
  particle? s := by rw [Declaring.particle?, Declaring.particle?, hn]
  item? s := by rw [Declaring.item?, Declaring.item?, hn]
  derived? s simple mixed := by
    rw [Declaring.derived?, Declaring.derived?, hn]
    rfl
  model? s name := by rw [Declaring.model?, Declaring.model?, hn]
  topLevels s doc directives ts := by
    rw [Declaring.topLevels, Declaring.topLevels, Declaring.topLevel, hn, pure_bind]

end SameMember

/-- Wherever trees are read, there may be text in front of them. -/
theorem SameMeaning.behindText (a : String) (ts : List Tree) : SameMeaning ts (.text a :: ts) where
  notes := rfl
  noted := rfl
  simpleParts s t := by rw [Declaring.simpleParts, simplePart, pure_bind]
  firstSimple s := by rw [Declaring.firstSimple, simple?, pure_bind]
  attributeUses s := by rw [Declaring.attributeUses]
  lastInline s last := by rw [Declaring.lastInline, inline?, pure_bind, Option.none_or]
  particle s := by rw [Declaring.particle, particle?, pure_bind]
  items s := by
    rw [Declaring.items, item?, pure_bind]
    exact bind_pure _
  derived s simple mixed name := by rw [Declaring.derived, derived?, pure_bind]
  model s name := by rw [Declaring.model, model?, pure_bind]
  topLevels s doc directives := by rw [Declaring.topLevels]

/-- By induction on how the elements were put in: one that was put in is like a text, and a text is
like none. -/
theorem sameMeaning_of_interspersed (h : Interspersed ts us) : SameMeaning ts us := by
  induction h with
  | nil => exact .refl []
  | keep t _ ih => exact .cons (.refl t) ih
  | inside hdoc happ _ _ inner rest => exact .cons (.element hdoc happ inner) rest
  | put unknown _ ih =>
    exact ih.trans ((SameMeaning.behindText "" _).trans (.cons (.unknown unknown "") (.refl _)))
  | @part ts us a b _ ih => exact .cons (.text _ _) ((SameMeaning.behindText b ts).trans ih)

end Lists

/-! ## Whole documents -/

/-- A document is read into the same declarations and references, or up to the same failure, when
elements that are no constructs of the schema language are put in anywhere, whatever they hold. -/
theorem unknown_elements_ignored {content content' : List Tree} (h : Interspersed content content')
    (s : Setting) (d : Declarations) :
    (document s content').run.run d = (document s content).run.run d := by
  have hsame : document s content' = document s content :=
    (sameMeaning_of_interspersed h).topLevels s _ []
  rw [hsame]

/-- A document without a namespace. -/
def bareSetting : Setting where
  source := "a.xsd"
  space := ""
  adopted := false
  prefixes := [("", xsSpace)]
  elementForm := "unqualified"
  attributeForm := "unqualified"

def xsTree (name : String) (content : List Tree) (as : Attributes := []) : Tree :=
  .element ⟨xsSpace, name⟩ as content

def named (n : String) : Attributes := [(⟨"", "name"⟩, n)]

/-- The element `a` with a note holds `b`. -/
def holding : List Tree :=
  [xsTree "element" [xsTree "annotation" [xsTree "documentation" [.text "n"]],
    xsTree "complexType" [.text "  ", xsTree "sequence" [xsTree "element" [] (named "b")]]]
    (named "a")]

/-- Another element `c`, which stands where it means nothing: in another namespace, or in a `key`. -/
def stray : Tree := xsTree "element" [] (named "c")

def holdingStrays : List Tree :=
  [.element ⟨"urn:x", "u"⟩ [] [stray],
    xsTree "element" [xsTree "annotation" [xsTree "key" [stray], xsTree "documentation" [.text "n"]],
      xsTree "complexType" [.text " ", .element ⟨"urn:x", "u"⟩ [] [stray], .text " ",
        xsTree "sequence" [xsTree "key" [stray],
          xsTree "element" [xsTree "key" [stray]] (named "b")]]] (named "a")]

theorem interspersed_holding : Interspersed holding holdingStrays := by
  have hkey : Construct.ofName? ⟨xsSpace, "key"⟩ = none := by decide
  have hb : Interspersed [xsTree "element" [] (named "b")]
      [xsTree "key" [stray], xsTree "element" [xsTree "key" [stray]] (named "b")] :=
    .put hkey (.inside (by decide) (by decide) (.put hkey .nil) .nil)
  have htype : Interspersed [.text "  ", xsTree "sequence" [xsTree "element" [] (named "b")]]
      [.text " ", .element ⟨"urn:x", "u"⟩ [] [stray], .text " ",
        xsTree "sequence" [xsTree "key" [stray],
          xsTree "element" [xsTree "key" [stray]] (named "b")]] := by
    refine .part (a := " ") (b := " ") (.put (by decide) (.keep _ ?_))
    exact .inside (by decide) (by decide) hb .nil
  refine .put (by decide) (.inside (by decide) (by decide) ?_ .nil)
  exact .inside (by decide) (by decide) (.put hkey (.keep _ .nil))
    (.inside (by decide) (by decide) htype .nil)

theorem holding_strays_ignored : Interspersed holding holdingStrays ∧
    (document bareSetting holdingStrays).run.run {} = (document bareSetting holding).run.run {} ∧
      let declared := ((document bareSetting holdingStrays).run.run {}).2
      declared.elements.toList.map (fun e => (e.name, e.notes)) =
        [(some "b", []), (some "a", ["n"])] :=
  ⟨interspersed_holding, unknown_elements_ignored interspersed_holding bareSetting {},
    by decide +kernel⟩

end Declaring
end Schema
end SchemaPaths
