/-
The characters in the values of attributes.

A value is written with characters that a document may hold, with references to such characters, or
taken over from an attribute list, and blanks in it become spaces.  So a document that is read has
only allowed characters in the values of its attributes; the zero character is none of them.
-/
import SchemaPaths.Proofs.Markup.Giving

namespace SchemaPaths
namespace Markup

/-- Every character may stand in a document. -/
def IsAllowed (cs : List Char) : Prop := ∀ c ∈ cs, Scan.isAllowed c

def AllowedValue (s : String) : Prop := IsAllowed s.toList

theorem zero_not_mem {s : String} (h : AllowedValue s) : '\x00' ∉ s.toList :=
  fun hmem => absurd (h _ hmem) (by decide)

theorem isAllowed_nil : IsAllowed [] := nofun

theorem isAllowed_cons {c : Char} {cs : List Char} (hc : Scan.isAllowed c) (hcs : IsAllowed cs) :
    IsAllowed (c :: cs) := List.forall_mem_cons.2 ⟨hc, hcs⟩

theorem isAllowed_append {cs ds : List Char} (hcs : IsAllowed cs) (hds : IsAllowed ds) :
    IsAllowed (cs ++ ds) := List.forall_mem_append.2 ⟨hcs, hds⟩

theorem IsAllowed.reverse {cs : List Char} (h : IsAllowed cs) : IsAllowed cs.reverse :=
  fun c hc => h c (List.mem_reverse.1 hc)

namespace Scan

/-! ## Values in quotes -/

theorem isAllowed_of_charOfNumber? {n : Nat} {c : Char} (h : charOfNumber? n = some c) :
    isAllowed c := by
  unfold charOfNumber? at h
  split at h
  · rename_i hn
    cases h
    simp only [Bool.and_eq_true] at hn
    exact hn.2
  · cases h

theorem isAllowed_of_predefined? {name : String} {c : Char} (h : predefined? name = some c) :
    isAllowed c := by
  unfold predefined? at h
  repeat' split at h
  all_goals cases h <;> decide

theorem gives_reference : Gives reference fun r => ∀ c, r = .char c → isAllowed c := by
  unfold reference
  refine .after fun hash => .ite (fun _ => ?_) fun _ => ?_
  · -- The base of the digits is of no account, so both are read alike.
    refine .after fun hex => .ite (fun _ => .after fun base => ?_) fun _ => .after fun base => ?_
    all_goals
      refine .after fun digits => .after fun _ => ?_
      split
      · rename_i c hc
        obtain ⟨n, -, hn⟩ := Option.bind_eq_some_iff.1 hc
        refine .pure ?_
        rintro _ ⟨⟩
        exact isAllowed_of_charOfNumber? hn
      · exact .fail
  · refine .after fun name => .after fun _ => .pure ?_
    rintro _ ⟨⟩

theorem gives_valueUpTo (lenient : Bool) (q : Char) (fuel : Nat) {done : List Char}
    (h : IsAllowed done) : Gives (valueUpTo lenient q fuel done) IsAllowed := by
  induction fuel generalizing done with
  | zero => exact .fail
  | succ fuel ih =>
    rw [valueUpTo]
    refine .after fun cs => ?_
    split
    · exact .fail
    rename_i c cs
    refine .after fun _ => .ite (fun _ => .pure h.reverse) fun _ => .ite (fun _ => .fail) fun _ => ?_
    refine .ite (fun _ => gives_reference.bind fun r hr => ?_) fun _ => ?_
    · split
      · exact ih (isAllowed_cons (hr _ rfl) h)
      · split
        · rename_i d hd
          exact ih (isAllowed_cons (isAllowed_of_predefined? hd) h)
        · exact .ite (fun _ => ih h) fun _ => .fail
    · refine .ite (fun _ => ih (isAllowed_cons (by decide) h)) fun _ => ?_
      exact .ite (fun hc => ih (isAllowed_cons hc h)) fun _ => .fail

theorem gives_attributeValue (lenient : Bool) (fuel : Nat) :
    Gives (attributeValue lenient fuel) AllowedValue :=
  .after fun q => (gives_valueUpTo lenient q fuel isAllowed_nil).bind fun cs hcs => .pure (by
    rwa [AllowedValue, String.toList_ofList])

end Scan

/-! ## Values from attribute lists -/

namespace Doctype
open Scan

theorem isAllowed_splitChars {mark : List Char} (skip : Nat) (piece cs : List Char)
    (hpiece : IsAllowed piece) (hcs : IsAllowed cs) :
    ∀ p ∈ Text.splitChars mark skip piece cs, IsAllowed p := by
  induction cs generalizing skip piece with
  | nil =>
    rw [Text.splitChars]
    exact List.forall_mem_singleton.2 hpiece.reverse
  | cons c cs ih =>
    obtain ⟨hc, hcs⟩ := List.forall_mem_cons.1 hcs
    cases skip with
    | succ skip => exact ih skip piece hpiece hcs
    | zero =>
      rw [Text.splitChars]
      split
      · exact List.forall_mem_cons.2 ⟨hpiece.reverse, ih _ [] isAllowed_nil hcs⟩
      · exact ih 0 (c :: piece) (isAllowed_cons hc hpiece) hcs

theorem allowedValue_intercalate {ss : List String} (h : ∀ s ∈ ss, AllowedValue s) :
    AllowedValue (" ".intercalate ss) := by
  rw [AllowedValue, String.toList_intercalate]
  induction ss with
  | nil => exact isAllowed_nil
  | cons s ss ih =>
    obtain ⟨hs, hss⟩ := List.forall_mem_cons.1 h
    cases ss with
    | nil =>
      rw [List.map_singleton, List.intercalate_singleton]
      exact hs
    | cons t ss =>
      have hspace : IsAllowed " ".toList := by simp [IsAllowed, isAllowed]
      rw [List.map_cons, List.map_cons, List.intercalate_cons_cons]
      exact isAllowed_append (isAllowed_append hs hspace) (ih hss)

theorem allowedValue_collapse {s : String} (h : AllowedValue s) : AllowedValue (collapse s) := by
  refine allowedValue_intercalate fun t ht => ?_
  obtain ⟨p, hp, rfl⟩ := List.mem_map.1 (List.mem_filter.1 ht).1
  rw [AllowedValue, String.toList_ofList]
  exact isAllowed_splitChars 0 [] _ isAllowed_nil h p hp

/-- The values that rules give are allowed. -/
def AllowedRules (rules : List AttributeRule) : Prop := ∀ r ∈ rules, ∀ v ∈ r.value, AllowedValue v

theorem gives_attributeDefault {reading : Reading} (h : reading.counting) (words : Bool)
    (fuel : Nat) : Gives (attributeDefault reading words fuel) fun r => ∀ v ∈ r, AllowedValue v := by
  have value : Gives (do
      let v ← givenValue reading fuel
      return some (if words then collapse v else v)) fun r => ∀ v ∈ r, AllowedValue v := by
    rw [givenValue, if_pos h]
    refine (gives_attributeValue reading.lenient fuel).bind fun v hv => .pure ?_
    rintro _ ⟨⟩
    split
    · exact allowedValue_collapse hv
    · exact hv
  refine .after fun _ => .ite (fun _ => .after fun _ => ?_) fun _ => value
  exact .ite (fun _ => .pure nofun) fun _ => .ite (fun _ => .after fun _ => value) fun _ => .fail

theorem gives_attributeRules {reading : Reading} (h : reading.counting) (element : String)
    (fuel : Nat) {done : List AttributeRule} (hdone : AllowedRules done) :
    Gives (attributeRules reading element fuel done) AllowedRules := by
  induction fuel generalizing done with
  | zero => exact .fail
  | succ fuel ih =>
    rw [attributeRules]
    refine .after fun gap => .after fun _ => .ite (fun _ => .pure ?_) fun _ => ?_
    · exact fun r hr => hdone r (List.mem_reverse.1 hr)
    refine .ite (fun _ => .fail) fun _ => .after fun name => .after fun _ => ?_
    refine .after fun words => .after fun _ => ?_
    exact (gives_attributeDefault h words fuel).bind fun value hvalue =>
      ih (List.forall_mem_cons.2 ⟨hvalue, hdone⟩)

theorem allowedRules_foldl {rules more : List AttributeRule} (h : AllowedRules rules)
    (hmore : AllowedRules more) : AllowedRules (more.foldl addRule rules) := by
  induction more generalizing rules with
  | nil => exact h
  | cons r more ih =>
    obtain ⟨hr, hmore⟩ := List.forall_mem_cons.1 hmore
    refine ih ?_ hmore
    unfold addRule
    split
    · exact h
    · exact List.forall_mem_append.2 ⟨h, List.forall_mem_singleton.2 hr⟩

theorem gives_declarations (standalone : Bool) (fuel : Nat) {p : Progress}
    (h : AllowedRules p.rules) :
    Gives (declarations standalone fuel p) fun p' => AllowedRules p'.rules := by
  induction fuel generalizing p with
  | zero => exact .fail
  | succ fuel ih =>
    rw [declarations]
    refine .after fun _ => .after fun _ => .ite (fun _ => .pure h) fun _ => ?_
    refine .after fun _ => .ite (fun _ => .after fun _ => .after fun _ => ih h) fun _ => ?_
    refine .after fun _ => .ite (fun _ => .after fun _ => ih h) fun _ => ?_
    refine .after fun _ => .ite (fun _ => .after fun _ => ih h) fun _ => ?_
    refine .after fun _ => .ite (fun _ => .after fun _ => ih h) fun _ => ?_
    refine .after fun _ => .ite (fun _ => ?_) fun _ => ?_
    · by_cases hcounting : p.counting
      · refine Gives.bind (.after fun _ => .after fun element =>
          gives_attributeRules hcounting element.text fuel nofun) fun rules hrules => ih ?_
        rw [if_pos hcounting]
        exact allowedRules_foldl h hrules
      · refine .after fun rules => ih ?_
        rw [if_neg hcounting]
        exact h
    refine .after fun _ => .ite (fun _ => .after fun _ => ih h) fun _ => ?_
    exact .after fun _ => .ite (fun _ => .after fun _ => ih h) fun _ => .fail

theorem gives_scan (standalone : Bool) (fuel : Nat) :
    Gives (scan standalone fuel) fun d => AllowedRules d.rules := by
  have closing (p : Progress) (hp : AllowedRules p.rules) : Gives (do
      skip ">"
      return (⟨p.elsewhere && !standalone, p.rules⟩ : Doctype)) fun d => AllowedRules d.rules :=
    .after fun _ => .pure hp
  have inside (external : Bool) : Gives (do
      let p ←
        if ← skip? "[" then do
          let p ← declarations standalone fuel ⟨true, external, []⟩
          spaces
          pure p
        else pure ⟨true, external, []⟩
      skip ">"
      return (⟨p.elsewhere && !standalone, p.rules⟩ : Doctype)) fun d => AllowedRules d.rules := by
    refine .after fun _ => .ite (fun _ => ?_) fun _ => closing ⟨true, external, []⟩ (List.forall_mem_nil _)
    have hnone : AllowedRules (⟨true, external, []⟩ : Progress).rules := List.forall_mem_nil _
    refine (gives_declarations standalone fuel hnone).bind fun p hp => .after fun _ => ?_
    exact closing p hp
  refine .after fun _ => .after fun _ => .after fun gap => .after fun _ => ?_
  split
  · exact .ite (fun _ => .after inside) fun _ => .after fun _ => .after fun _ => inside true
  · exact .ite (fun _ => .after inside) fun _ => .after fun _ => .after fun _ => inside true
  · exact inside false

end Doctype

/-! ## Documents -/

namespace Tree

mutual

/-- All values of attributes are of allowed characters. -/
def Allowed : Tree → Prop
  | .text _ => True
  | .element _ as content => (∀ a ∈ as, AllowedValue a.2) ∧ AllAllowed content

def AllAllowed : List Tree → Prop
  | [] => True
  | t :: ts => Allowed t ∧ AllAllowed ts

end

theorem allAllowed_iff {ts : List Tree} : AllAllowed ts ↔ ∀ t ∈ ts, t.Allowed := by
  induction ts with
  | nil => simp [AllAllowed]
  | cons t ts ih => rw [AllAllowed, ih, List.forall_mem_cons]

mutual

theorem allowed_of_bears : ∀ t : Tree, t.Bears (fun a => AllowedValue a.2) → t.Allowed
  | .text _, _ => by
    rw [Allowed]
    trivial
  | .element _ as content, h => by
    rw [Bears] at h
    rw [Allowed]
    exact ⟨h.1, allAllowed_of_allBear content h.2⟩

theorem allAllowed_of_allBear :
    ∀ ts : List Tree, AllBear (fun a => AllowedValue a.2) ts → AllAllowed ts
  | [], _ => by
    rw [AllAllowed]
    trivial
  | t :: ts, h => by
    rw [AllBear] at h
    rw [AllAllowed]
    exact ⟨allowed_of_bears t h.1, allAllowed_of_allBear ts h.2⟩

end

end Tree

namespace Document
open Scan

variable {doctype : Doctype}

/-- The values that are written, or given by rules, are allowed. -/
def AllowedAttributes {ν : Type} (as : List (ν × String)) : Prop := ∀ a ∈ as, AllowedValue a.2

theorem gives_attributesFrom (lenient : Bool) (fuel : Nat) {done : List (RawName × String)}
    (h : AllowedAttributes done) :
    Gives (attributesFrom lenient fuel done) fun r => AllowedAttributes r.1 := by
  induction fuel generalizing done with
  | zero => exact .fail
  | succ fuel ih =>
    rw [attributesFrom]
    have hreverse : AllowedAttributes done.reverse := fun a ha => h a (List.mem_reverse.1 ha)
    refine .after fun gap => .after fun _ => .ite (fun _ => .pure hreverse) fun _ => ?_
    refine .after fun _ => .ite (fun _ => .pure hreverse) fun _ => .ite (fun _ => .fail) fun _ => ?_
    refine .after fun name => .after fun _ => .after fun _ => .after fun _ => ?_
    refine (gives_attributeValue lenient fuel).bind fun value hvalue => ?_
    exact .ite (fun _ => .fail) fun _ => ih (List.forall_mem_cons.2 ⟨hvalue, h⟩)

theorem allowed_withRules {rules : List AttributeRule} {given : List (RawName × String)}
    (hrules : Doctype.AllowedRules rules) (h : AllowedAttributes given) :
    AllowedAttributes (withRules rules given) := by
  unfold withRules
  refine List.foldlRecOn rules _ ?_ fun done hdone r hr => ?_
  · intro a ha
    obtain ⟨⟨n, v⟩, hmem, rfl⟩ := List.mem_map.1 ha
    dsimp only
    split
    · dsimp only
      split
      · exact Doctype.allowedValue_collapse (h _ hmem)
      · exact h _ hmem
    · exact h _ hmem
  · split
    · rename_i v hv
      split
      · exact hdone
      · exact List.forall_mem_append.2
          ⟨hdone, List.forall_mem_singleton.2 (hrules r hr v hv)⟩
    · exact hdone

theorem gives_startTag (h : Doctype.AllowedRules doctype.rules) (fuel : Nat) :
    Gives (startTag doctype fuel) fun t => AllowedAttributes t.attributes :=
  .after fun _ => (gives_attributesFrom doctype.lenient fuel (List.forall_mem_nil _)).bind fun _ hr =>
    .pure (allowed_withRules (fun r hr => h r (List.mem_filter.1 hr).1) hr)

theorem allowed_expandAttributes {b : Bindings} {attributes : List (RawName × String)}
    {as : List (Name × String)} (h : AllowedAttributes attributes)
    (has : expandAttributes b attributes = .ok as) : AllowedAttributes as := by
  refine kept_of_foldlM (fun a ha done next hdone hnext => ?_) (List.forall_mem_nil _) has
  dsimp only at hnext
  split at hnext
  · split at hnext
    · cases hnext
    · cases hnext
      exact List.forall_mem_append.2
        ⟨hdone, List.forall_mem_singleton.2 (h a (List.mem_filter.1 ha).1)⟩
  · cases hnext

/-- All values of attributes in a document that is read are of allowed characters. -/
theorem allowed_ofBytes {bytes : List UInt8} {t : Tree} (h : ofBytes bytes = .ok t) :
    t.Allowed := by
  have hsecures : Secures (fun d => Doctype.AllowedRules d.rules)
      (fun t => AllowedAttributes t.attributes) (fun _ => True) fun a => AllowedValue a.2 :=
    { noDoctype := nofun
      doctype := Doctype.gives_scan
      startTag := fun _ fuel hd => gives_startTag hd fuel
      start := trivial
      bind := fun _ _ _ _ _ _ => trivial
      expand := fun _ _ _ ht _ has => allowed_expandAttributes ht has }
  exact Tree.allowed_of_bears t (hsecures.bears_ofBytes h)

end Document
end Markup
end SchemaPaths
