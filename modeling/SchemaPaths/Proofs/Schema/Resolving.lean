/-
What the names in a document stand for.

A value such as the name of a type is resolved by the prefixes that a search of the bytes finds.  In
a document that a search reads as it is meant, that is by the first declaration of the prefix.
Where all declarations of the prefix agree with the root, it is also by the declarations in force in
the element.
-/
import SchemaPaths.Proofs.Markup.Searching
import SchemaPaths.Proofs.Loading.Adopting

namespace SchemaPaths

namespace Schema
namespace Declaring
open Markup

/-- The name that a value means where prefixes stand for what `meaning` says, the empty one for the
default. -/
def qnameBy (source : String) (meaning : String → Option String) (value : String) :
    Declare (Option QName) :=
  if value == "" then pure none
  else
    let value := Text.trim value
    match Text.cut? ':' value with
    | some (p, rest) =>
      match meaning p with
      | some space => pure (some ⟨space, some rest⟩)
      | none => refuse (.undeclaredPrefix p value) source
    | none => pure (some ⟨(meaning "").getD "", some value⟩)

theorem qname_eq_qnameBy {s : Setting} (h : s.adopted = false) (value : String) :
    qname s (some value) = qnameBy s.source (s.prefixes.lookup ·) value := by
  rw [qname, qnameBy]
  cases hcut : Text.cut? ':' (Text.trim value) with
  | none => simp only [hcut, h, Bool.and_false, Bool.false_eq_true, ite_false]
  | some parts =>
    cases hlook : s.prefixes.lookup parts.1 with
    | none => simp only [hcut, hlook]
    | some uri => simp only [hcut, hlook]

/-- The prefix that a value is written with, empty when it has none. -/
def prefixOf (value : String) : String :=
  ((Text.cut? ':' (Text.trim value)).map (·.1)).getD ""

theorem qnameBy_congr {source value : String} {meaning meaning' : String → Option String}
    (h : meaning (prefixOf value) = meaning' (prefixOf value)) :
    qnameBy source meaning value = qnameBy source meaning' value := by
  rw [prefixOf] at h
  rw [qnameBy, qnameBy]
  cases hcut : Text.cut? ':' (Text.trim value) with
  | none =>
    have h : meaning "" = meaning' "" := by simpa [hcut] using h
    simp only [hcut, h]
  | some parts =>
    have h : meaning parts.1 = meaning' parts.1 := by simpa [hcut] using h
    simp only [hcut, h]

end Declaring

namespace Loader
open Markup Declaring

/-- In a document that a search reads as it is meant, and that has a namespace of its own or needs
none, a value is resolved by the first declaration of its prefix, and refused when there is no
declaration.  For a prefix that is declared everywhere as the root declares it, and for one that is
not declared at all, this is what the declarations in force in each element make of it. -/
theorem qname_resolves {bytes : List UInt8} {t : Scoped} (plain : Scoped.IsPlain bytes t)
    (location : String) (adopted : Option String)
    (own : (settingOf location t.tree.attributes (Prefixes.ofBytes bytes) adopted).adopted =
      false) :
    Document.ofBytes bytes = .ok t.tree ∧
      (∀ value, qname (settingOf location t.tree.attributes (Prefixes.ofBytes bytes) adopted)
          (some value) = qnameBy location (Bindings.expand? t.declarations) value) ∧
      ∀ b ∈ t.scopes [], ∀ value,
        (∀ d ∈ t.declarations, d.1 = prefixOf value →
          Bindings.expand? t.own (prefixOf value) = some d.2) →
        qname (settingOf location t.tree.attributes (Prefixes.ofBytes bytes) adopted)
          (some value) = qnameBy location (Bindings.expand? b) value := by
  have first (value : String) :
      qname (settingOf location t.tree.attributes (Prefixes.ofBytes bytes) adopted) (some value) =
        qnameBy location (Bindings.expand? t.declarations) value :=
    (qname_eq_qnameBy own value).trans (qnameBy_congr (Prefixes.lookup_ofBytes plain _))
  refine ⟨?_, first, fun b hb value agree => ?_⟩
  · rw [Scoped.ofBytes_eq, plain.read]
    rfl
  · rw [first]
    exact qnameBy_congr (Scoped.expand?_scopes agree b hb)

/-! ## A document that declares its prefixes at the root -/

def plainBytes : List UInt8 := schemaBytes "" "<element name=\"e\" type=\"string\"/>"

theorem qname_resolves_plain : ∃ t, Scoped.IsPlain plainBytes t ∧
    (settingOf "a" t.tree.attributes (Prefixes.ofBytes plainBytes) none).adopted = false ∧
    (∀ d ∈ t.declarations, d.1 = prefixOf "string" →
      Bindings.expand? t.own (prefixOf "string") = some d.2) ∧
    ∀ b ∈ t.scopes [],
      qname (settingOf "a" t.tree.attributes (Prefixes.ofBytes plainBytes) none) (some "string") =
        qnameBy "a" (Bindings.expand? b) "string" := by
  have hread : (Scoped.ofBytes plainBytes).toOption.any (fun t =>
      ((∀ w ∈ t.written, w.IsPlain) ∧ t.written.map Written.pair = t.declarations ∧
        Prefixes.shapes (Text.Utf8.decodeLossy plainBytes) ≤ t.declarations.length) ∧
      ∀ d ∈ t.declarations, d.1 = prefixOf "string" →
        Bindings.expand? t.own (prefixOf "string") = some d.2) := by
    decide +kernel
  obtain ⟨t, hread, ht⟩ := exists_ok_of_any hread
  obtain ⟨⟨hplain, hcounting, honly⟩, hagree⟩ := of_decide_eq_true ht
  have plain : Scoped.IsPlain plainBytes t :=
    ⟨hread, Document.exists_of_isUtf8 (by decide +kernel), by decide +kernel, hplain, hcounting,
      honly⟩
  have own : (settingOf "a" t.tree.attributes (Prefixes.ofBytes plainBytes) none).adopted =
    false := by simp [settingOf]
  exact ⟨t, plain, own, hagree, fun b hb =>
    (qname_resolves plain "a" none own).2.2 b hb "string" hagree⟩

/-! ## A prefix declared anew -/

def reboundBytes : List UInt8 :=
  schemaBytes " xmlns:p=\"u\""
    ("<element name=\"e\" xmlns:p=\"" ++ xsSpace ++ "\" type=\"p:string\"/>")

/-- The element under the root declares the prefix that its type is written with anew, and the name
is resolved by the declaration of the root all the same. -/
theorem rebound_prefix_ignored :
    (∃ t, Scoped.ofBytes reboundBytes = .ok t ∧
      t.tree.content.map (·.plain? "type") = [some "p:string"] ∧
      (t.scopes []).map (Bindings.expand? · "p") = [some "u", some xsSpace] ∧
      (settingOf "a" t.tree.attributes (Prefixes.ofBytes reboundBytes) none).adopted = false ∧
      ((qname (settingOf "a" t.tree.attributes (Prefixes.ofBytes reboundBytes) none)
        (some "p:string")).run.run {}).1 = .ok (some ⟨"u", some "string"⟩)) ∧
    ((ofUpload [("a", reboundBytes)]).load "a").2 =
      .error (.schema (.unresolved .type ⟨"u", some "string"⟩)) := by
  have hread : (Scoped.ofBytes reboundBytes).toOption.any (fun t =>
      t.tree.content.map (·.plain? "type") = [some "p:string"] ∧
      (t.scopes []).map (Bindings.expand? · "p") = [some "u", some xsSpace] ∧
      (settingOf "a" t.tree.attributes (Prefixes.ofBytes reboundBytes) none).adopted = false ∧
      ((qname (settingOf "a" t.tree.attributes (Prefixes.ofBytes reboundBytes) none)
        (some "p:string")).run.run {}).1 = .ok (some ⟨"u", some "string"⟩)) := by decide +kernel
  obtain ⟨t, hread, ht⟩ := exists_ok_of_any hread
  exact ⟨⟨t, hread, of_decide_eq_true ht⟩, by decide +kernel⟩

end Loader
end Schema
end SchemaPaths
