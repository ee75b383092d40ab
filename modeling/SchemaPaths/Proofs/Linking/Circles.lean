/-
Linking finds every circle and nothing else.

Where every name that is looked up is there, linking fails exactly when something in the set derives
from or contains itself, and once it has succeeded every way up through bases comes to an end.
-/
import SchemaPaths.Proofs.Linking.Whole

namespace SchemaPaths
namespace Schema

open Relation

/-! ## Linked sets have no circles -/

section NoCircle

variable {s : SchemaSet} {d : Declarations} {i : Nat}

/-- A place where no type is declared has no base before linking and none after it. -/
theorem Linked.simpleDone (h : Linked s d) (i : SimpleId) : SimpleDone s d i := by
  by_cases hi : i < s.declared.simpleTypes.size
  · exact h.simple i hi
  · have hs : s.declared.simpleType i = {} := getD_of_le (Nat.not_lt.1 hi)
    have hd : d.simpleType i = {} :=
      getD_of_le (by rw [h.frame.simpleTypes_size]; exact Nat.not_lt.1 hi)
    have hnone : s.simpleBase? i = none := by rw [SchemaSet.simpleBase?, hs]; rfl
    refine ⟨by rw [hd, hnone], .intro fun j hj => ?_, fun _ => ?_, ?_⟩
    · rw [SimpleBase, hnone] at hj
      cases hj
    · rw [hs]
      rintro q ⟨⟩
    · rw [hs]
      rintro q ⟨⟩

theorem Linked.ends_complexBase (h : Linked s d) (i : ComplexId) : Ends (ComplexBase s) i := by
  by_cases hi : i < s.declared.complexTypes.size
  · exact h.derives i hi
  · have hs : s.declared.complexType i = {} := getD_of_le (Nat.not_lt.1 hi)
    refine .intro fun j hj => ?_
    rw [ComplexBase, hs] at hj
    cases hj

/-- The heads of an element were followed unless it had its type before. -/
theorem Linked.headsEnd (h : Linked s d) (hnew : (s.declared.element i).type = none)
    (href : (s.declared.element i).ref = none) : HeadsEnd s i := by
  by_cases hi : i < s.declared.elements.size
  · exact ((h.element i hi).headed href).heads hnew
  · have hs : s.declared.element i = {} := getD_of_le (Nat.not_lt.1 hi)
    exact .of_no_head (by rw [hs])

theorem Linked.not_circular_apart (h : Linked s d) : ¬ Circular s.withoutElements := by
  intro hc
  cases hc with
  | simple endless => exact ends_iff_not_endless.1 (h.simpleDone _).ends endless
  | complex endless => exact ends_iff_not_endless.1 (h.ends_complexBase _) endless
  | group listed back =>
    obtain ⟨out, hout⟩ := h.group _ listed
    exact hout.ends.not_cycle back
  | heads _ endless =>
    obtain ⟨way, -, hway⟩ := endless
    exact not_head_withoutElements (hway 0)

/-- Where no element had its type before, all heads were followed. -/
theorem Linked.not_circular (h : Linked s d)
    (hnew : ∀ i, (s.declared.element i).type = none) : ¬ Circular s := by
  intro hc
  cases hc with
  | simple endless => exact h.not_circular_apart (.simple endless)
  | complex endless => exact h.not_circular_apart (.complex endless)
  | group listed back => exact h.not_circular_apart (.group listed back)
  | heads noRef endless => exact ends_iff_not_endless.1 (h.headsEnd (hnew _) noRef).ends endless

end NoCircle

/-! ## Chains of bases -/

/-- One type has the other as its base. -/
inductive BaseLink (d : Declarations) : TypeRef → TypeRef → Prop
  | simple {r b : SimpleRef} (base : (d.simple r).base = some b) :
      BaseLink d (.simple r) (.simple b)
  | complex {r : ComplexRef} {b : TypeRef} (base : (d.complex r).base = some b) :
      BaseLink d (.complex r) b

/-- In the list of the types that need no declaration a base stands before what has it. -/
theorem Builtin.idxOf_base_lt :
    ∀ b ∈ Builtin.all, ∀ c ∈ b.base.bind Builtin.find?,
      Builtin.all.idxOf c < Builtin.all.idxOf b := by
  decide

theorem Builtin.mem_of_base {b c : Builtin} (h : b.base.bind Builtin.find? = some c) :
    c ∈ Builtin.all := by
  obtain ⟨n, -, hn⟩ := Option.bind_eq_some_iff.1 h
  exact List.mem_of_find?_eq_some hn

section Bases

variable {s : SchemaSet} {d : Declarations}

theorem ends_builtin (b : Builtin) : Ends (BaseLink d) (.simple (.builtin b)) := by
  have hlisted : ∀ n, ∀ b ∈ Builtin.all, Builtin.all.idxOf b < n →
      Ends (BaseLink d) (.simple (.builtin b)) := by
    intro n
    induction n with
    | zero => exact fun b _ h => absurd h (Nat.not_lt_zero _)
    | succ n ih =>
      intro b hb hlt
      refine .intro fun r hr => ?_
      cases hr with
      | simple base =>
        obtain ⟨c, hc, rfl⟩ := Option.map_eq_some_iff.1 base
        have hbefore := Builtin.idxOf_base_lt b hb c hc
        exact ih c (Builtin.mem_of_base hc) (by omega)
  -- A type that is not in the list goes on, if at all, to one that is.
  refine .intro fun r hr => ?_
  cases hr with
  | simple base =>
    obtain ⟨c, hc, rfl⟩ := Option.map_eq_some_iff.1 base
    exact hlisted _ c (Builtin.mem_of_base hc) (Nat.lt_succ_self _)

theorem Linked.ends_simple (h : Linked s d) (r : SimpleRef) : Ends (BaseLink d) (.simple r) := by
  have hup : ∀ i, Ends (SimpleBase s) i → Ends (BaseLink d) (.simple (.declared i)) := by
    intro i hends
    induction hends with
    | intro i _ ih =>
      refine .intro fun r hr => ?_
      cases hr with
      | @simple _ b base =>
        have hbase : s.simpleBase? i = some b := (h.simpleDone i).base.symm.trans base
        cases b with
        | builtin b => exact ends_builtin b
        | declared j => exact ih j hbase
  cases r with
  | builtin b => exact ends_builtin b
  | declared i => exact hup i (h.simpleDone i).ends

theorem Linked.complexBase (h : Linked s d) {i : ComplexId} {b : TypeRef}
    (hb : (d.complexType i).base = some b) :
    s.complexBase? (s.declared.complexType i) = some b := by
  by_cases hi : i < s.declared.complexTypes.size
  · obtain ⟨b', own, added, hf⟩ := h.complex i hi
    rw [hf.base] at hb
    cases hb
    exact hf.named
  · have hd : d.complexType i = {} :=
      getD_of_le (by rw [h.frame.complexTypes_size]; exact Nat.not_lt.1 hi)
    rw [hd] at hb
    cases hb

theorem Linked.ends_bases (h : Linked s d) (r : TypeRef) : Ends (BaseLink d) r := by
  have hany : Ends (BaseLink d) (.complex .anyType) := by
    refine .intro fun r hr => ?_
    cases hr with
    | complex base => cases base
  have hup : ∀ i, Ends (ComplexBase s) i → Ends (BaseLink d) (.complex (.declared i)) := by
    intro i hends
    induction hends with
    | intro i _ ih =>
      refine .intro fun r hr => ?_
      cases hr with
      | complex base =>
        have hbase := h.complexBase base
        match r, hbase with
        | .simple r, _ => exact h.ends_simple r
        | .complex .anyType, _ => exact hany
        | .complex (.declared j), hbase => exact ih j hbase
  match r with
  | .simple r => exact h.ends_simple r
  | .complex .anyType => exact hany
  | .complex (.declared i) => exact hup i (h.ends_complexBase i)

end Bases

/-! ## The outcome of linking -/

section Outcome

variable {s : SchemaSet} {f : Failure}

/-- Where every name is declared, no look-up is in vain. -/
theorem Fault.ne_unresolved (h : Fault s f) (names : ∀ what q, Sought s what q → s.Has what q)
    (what : Symbol) (q : QName) : f ≠ .unresolved what q := by
  cases h with
  | unresolved sought missing => exact absurd (names _ _ sought) missing
  | noBase =>
    unfold Failure.unresolved
    split <;> exact nofun
  | circular =>
    unfold Failure.unresolved
    split <;> exact nofun

/-- Where no look-up is in vain and every derivation has a base, only circles are left to fail
for. -/
theorem Fault.is_circle (h : Fault s f) (resolved : ∀ what q, f ≠ .unresolved what q)
    (bases : ∀ i m, (s.declared.complexType i).model = some m → m.base ≠ none) :
    Circular s ∧ ∃ problem, f = .load problem := by
  cases h with
  | @unresolved what q => exact absurd rfl (resolved what q)
  | noBase model none => exact absurd none (bases _ _ model)
  | circular h => exact ⟨h, _, rfl⟩

/-- Linking what was just read comes to an end.  It fails if and only if something derives from or
contains itself, and once it has succeeded the bases of every type come to an end. -/
theorem link_fails_iff_circular (h : s.Parsed)
    (resolved : ∀ what q, s.link.2 ≠ .error (.unresolved what q))
    (bases : ∀ i m, (s.declared.complexType i).model = some m → m.base ≠ none) :
    (s.link.2 = .ok () ∨ ∃ problem source, s.link.2 = .error (.load problem source)) ∧
      ((∃ problem source, s.link.2 = .error (.load problem source)) ↔ Circular s) ∧
      (s.link.2 = .ok () → ∀ r, Ends (BaseLink s.link.1.declared) r) := by
  have hs := h.closed
  have hcircle : ∀ f, s.link.2 = .error f → Circular s ∧ ∃ problem, f = .load problem := by
    intro f hf
    refine (Fault.of_link hs hf).is_circle (fun what q heq => ?_) bases
    rw [heq] at hf
    exact resolved what q hf
  refine ⟨?_, ⟨?_, fun hc => ?_⟩, fun hok r => (Linked.of_link hs hok).ends_bases r⟩
  · rcases link_cases hs with ⟨hok, -⟩ | ⟨f, hf, -, -⟩
    · exact .inl hok
    · obtain ⟨-, problem, rfl⟩ := hcircle f hf
      exact .inr ⟨problem, none, hf⟩
  · rintro ⟨problem, source, hf⟩
    exact (hcircle _ hf).1
  · rcases link_cases hs with ⟨-, hl⟩ | ⟨f, hf, -, -⟩
    · exact absurd hc (hl.not_circular h.unlinked)
    · obtain ⟨-, problem, rfl⟩ := hcircle f hf
      exact ⟨problem, none, hf⟩

/-- A document with one type, which restricts itself. -/
def selfDerived : SchemaSet :=
  let restriction : Markup.Tree := .element ⟨xsSpace, "restriction"⟩ [(⟨"", "base"⟩, "a")] []
  let type : Markup.Tree := .element ⟨xsSpace, "simpleType"⟩ [(⟨"", "name"⟩, "a")] [restriction]
  (({} : SchemaSet).read ⟨"a.xsd", "", false, [], "unqualified", "unqualified"⟩ [type]).1

theorem link_selfDerived_fails :
    selfDerived.Parsed ∧ (∀ what q, selfDerived.link.2 ≠ .error (.unresolved what q)) ∧
      (∀ i m, (selfDerived.declared.complexType i).model = some m → m.base ≠ none) ∧
      ∃ problem source, selfDerived.link.2 = .error (.load problem source) := by
  have h : selfDerived.Parsed := .read .empty _ _
  have hsimple : ∀ i q, (selfDerived.declared.simpleType i).baseName = some q →
      (selfDerived.type? q).isSome := by
    intro i q hq
    cases i with
    | zero =>
      cases hq
      rfl
    | succ i => cases hq
  have names : ∀ what q, Sought selfDerived what q → selfDerived.Has what q := by
    intro what q hsought
    cases hsought with
    | simpleBase _ named => exact hsimple _ q named
    | @itemType i _ named => cases i <;> cases named
    | complexBase model => cases model
    | content particle => cases particle
    | group listed => cases listed
    | attributeGroup named => cases named
    | innerAttributeGroup _ found => cases found
    | attr ref => cases ref
    | attributeType _ _ named => cases named
    | element ref => cases ref
    | head _ _ named => cases named
    | elementType _ _ named => cases named
  have bases : ∀ i m, (selfDerived.declared.complexType i).model = some m → m.base ≠ none :=
    fun i m hm => by cases hm
  have circle : Circular selfDerived :=
    .simple (i := 0) (endless_of_cycle (.single rfl))
  have resolved : ∀ what q, selfDerived.link.2 ≠ .error (.unresolved what q) :=
    fun what q hf => (Fault.of_link h.closed hf).ne_unresolved names what q rfl
  exact ⟨h, resolved, bases, (link_fails_iff_circular h resolved bases).2.1.2 circle⟩

end Outcome
end Schema
end SchemaPaths
