/-
What scans give.

`Gives` says what holds of the result of a scan wherever it starts.  What is known of the document
type, of start tags and of bindings goes from the root of a document to all elements inside it, and
so does what follows from it for their attributes.
-/
import SchemaPaths.Proofs.Markup.Staying

namespace SchemaPaths
namespace Markup

namespace Scan

/-- What holds of the result of a scan that succeeds, wherever it starts. -/
def Gives {α : Type} (m : Scan α) (good : α → Prop) : Prop :=
  ∀ cs, Yields m cs fun a _ => good a

namespace Gives

variable {α β : Type} {m m' : Scan α} {f : α → Scan β} {good : α → Prop} {good' : β → Prop}

protected theorem pure {a : α} (h : good a) : Gives (pure a) good := fun _ => yields_pure h

protected theorem fail : Gives (fail : Scan α) good := fun _ => yields_fail

theorem any : Gives m fun _ => True := fun _ => yields_any

protected theorem bind (h : Gives m good) (hf : ∀ a, good a → Gives (f a) good') :
    Gives (m >>= f) good' := fun cs => (h cs).bind fun a rest ha => hf a ha rest

/-- What comes first does not matter. -/
theorem after (h : ∀ a, Gives (f a) good') : Gives (m >>= f) good' := any.bind fun a _ => h a

protected theorem ite {c : Prop} [Decidable c] (h : c → Gives m good) (h' : ¬ c → Gives m' good) :
    Gives (if c then m else m') good := by
  split
  · exact h ‹_›
  · exact h' ‹_›

/-- Of what does not look at the text only the result counts. -/
theorem lift {r : Except Fault α} (h : ∀ a, r = .ok a → Gives (f a) good') :
    Gives (liftM r >>= f) good' := by
  cases r with
  | error e => exact fun _ => nofun
  | ok a => exact h a rfl

end Gives

end Scan

/-! ## Attributes -/

namespace Tree

mutual

/-- The attributes of all elements satisfy `P`. -/
def Bears (P : Name × String → Prop) : Tree → Prop
  | .text _ => True
  | .element _ as content => (∀ a ∈ as, P a) ∧ AllBear P content

def AllBear (P : Name × String → Prop) : List Tree → Prop
  | [] => True
  | t :: ts => Bears P t ∧ AllBear P ts

end

theorem allBear_iff {P : Name × String → Prop} {ts : List Tree} :
    AllBear P ts ↔ ∀ t ∈ ts, t.Bears P := by
  induction ts with
  | nil => simp [AllBear]
  | cons t ts ih => rw [AllBear, ih, List.forall_mem_cons]

end Tree

namespace Document
open Scan

/-- What every step keeps, the whole fold keeps. -/
theorem kept_of_foldlM {ε β γ : Type} {kept : β → Prop} {f : β → γ → Except ε β} {l : List γ}
    (hf : ∀ c ∈ l, ∀ b b', kept b → f b c = .ok b' → kept b') {b b' : β} (hb : kept b)
    (h : l.foldlM f b = .ok b') : kept b' := by
  induction l generalizing b with
  | nil =>
    cases h
    exact hb
  | cons c l ih =>
    obtain ⟨next, hnext, hrest⟩ := exists_of_bind h
    exact ih (fun c hc => hf c (List.mem_cons_of_mem _ hc))
      (hf c List.mem_cons_self b next hb hnext) hrest

/-- What is known of the document type, of start tags and of bindings while a document is read, and
that it is enough for the attributes to satisfy `P`. -/
structure Secures (rules : Doctype → Prop) (tag : StartTag → Prop) (bound : Bindings → Prop)
    (P : Name × String → Prop) : Prop where
  noDoctype : rules {}
  doctype : ∀ standalone fuel, Gives (Doctype.scan standalone fuel) rules
  startTag : ∀ d fuel, rules d → Gives (startTag d fuel) tag
  start : bound []
  bind : ∀ t b b', tag t → bound b → Document.bind b t.attributes = .ok b' → bound b'
  expand : ∀ t b as, tag t → bound b → expandAttributes b t.attributes = .ok as → ∀ a ∈ as, P a

section Reading

variable {rules : Doctype → Prop} {tag : StartTag → Prop} {bound : Bindings → Prop}
  {P : Name × String → Prop} {d : Doctype}

theorem Secures.gives_content (h : Secures rules tag bound P) (hd : rules d) (fuel : Nat)
    {b : Bindings} (hb : bound b) : Gives (content d fuel b) (Tree.AllBear P) := by
  induction fuel generalizing b with
  | zero => exact .fail
  | succ fuel ih =>
    rw [content]
    refine .after fun cs => ?_
    split
    · exact .pure trivial
    · exact .pure trivial
    · refine .after fun _ => .ite (fun _ => .after fun _ => ih hb) fun _ => ?_
      refine .after fun _ => .ite (fun _ => ?_) fun _ => ?_
      · exact .after fun _ => (ih hb).bind fun more hmore => .pure ⟨trivial, hmore⟩
      refine .after fun _ => .ite (fun _ => .after fun _ => ih hb) fun _ => ?_
      refine .after fun _ => (h.startTag d fuel hd).bind fun t ht => .lift fun b' hbind => ?_
      have hb' := h.bind t b b' ht hb hbind
      split
      · rename_i name _
        have more {inner : List Tree} (as : List (Name × String)) (has : ∀ a ∈ as, P a)
            (hinner : Tree.AllBear P inner) : Gives (do
              let more ← content d fuel b
              return Tree.element name as inner :: more) (Tree.AllBear P) :=
          (ih hb).bind fun more hmore => .pure ⟨⟨has, hinner⟩, hmore⟩
        refine .lift fun as has => .ite (fun _ => ?_) fun _ => ?_
        · exact more as (h.expand t b' as ht hb' has) trivial
        · exact (ih hb').bind fun inner hinner => .after fun _ =>
            more as (h.expand t b' as ht hb' has) hinner
      · exact .fail
    · exact .after fun cs => (ih hb).bind fun more hmore => .pure ⟨trivial, hmore⟩

theorem Secures.gives_root (h : Secures rules tag bound P) (hd : rules d) (fuel : Nat) :
    Gives (root d fuel) (Tree.Bears P) := by
  refine (h.startTag d fuel hd).bind fun t ht => .lift fun b hbind => ?_
  have hb := h.bind t [] b ht h.start hbind
  split
  · refine .lift fun as has => ?_
    have has' := h.expand t b as ht hb has
    refine .ite (fun _ => .pure ⟨has', trivial⟩) fun _ => ?_
    exact (h.gives_content hd fuel hb).bind fun inner hinner => .after fun _ =>
      .pure ⟨has', hinner⟩
  · exact .fail

theorem Secures.gives_body (h : Secures rules tag bound P) (standalone : Bool) (fuel : Nat)
    {found : Option Doctype} (hfound : ∀ d ∈ found, rules d) :
    Gives (body standalone fuel found) (Tree.Bears P) := by
  induction fuel generalizing found with
  | zero => exact .fail
  | succ fuel ih =>
    rw [body]
    refine .after fun _ => .after fun _ => .ite (fun _ => .after fun _ => ih hfound) fun _ => ?_
    refine .after fun _ => .ite (fun _ => .after fun _ => ih hfound) fun _ => ?_
    refine .after fun _ => .ite (fun _ => .ite (fun _ => .fail) fun _ => ?_) fun _ => ?_
    · exact (h.doctype standalone fuel).bind fun d hd => ih (by rintro _ ⟨⟩; exact hd)
    · have hrules : rules (found.getD {}) := by
        cases found with
        | none => exact h.noDoctype
        | some d => exact hfound d rfl
      exact .after fun _ => (h.gives_root hrules fuel).bind fun tree htree =>
        .after fun _ => .pure htree

/-- What is secured holds of the attributes in a document that is read. -/
theorem Secures.bears_ofBytes (hs : Secures rules tag bound P) {bytes : List UInt8} {t : Tree}
    (h : ofBytes bytes = .ok t) : t.Bears P := by
  obtain ⟨⟨encoding, bs⟩, -, h⟩ := exists_of_bind h
  obtain ⟨tree, htree, h⟩ := exists_of_bind h
  obtain rfl : tree = t := by
    change (if (encoding.decode bs).2 then pure tree else Except.error Fault.malformed) = _ at h
    cases hwhole : (encoding.decode bs).2 with
    | false =>
      rw [hwhole] at h
      cases h
    | true =>
      rw [hwhole] at h
      exact Except.ok.inj h
  obtain ⟨⟨tree', rest⟩, hscan, htree⟩ := exists_of_bind htree
  cases htree
  have hgives : Gives (do
      let d ← Declaration.scan?
      body (d.map (·.standalone) |>.getD false) ((← get).length + 1) none) (Tree.Bears P) :=
    .after fun d => .after fun cs => hs.gives_body _ _ nofun
  exact hgives _ _ _ _ hscan

end Reading

/-! ## Namespaces of attributes -/

/-- Bindings to namespaces without closing braces, as no other may be bound. -/
def Unbraced (b : Bindings) : Prop := ∀ d ∈ b, '\x7d' ∉ d.2.toList

theorem unbraced_bind {b b' : Bindings} {attributes : List (RawName × String)} (hb : Unbraced b)
    (h : Document.bind b attributes = .ok b') : Unbraced b' := by
  refine kept_of_foldlM (fun a _ b b' hb hnext => ?_) hb h
  dsimp only at hnext
  split at hnext
  · rename_i p _
    split at hnext
    · rename_i hallowed
      cases hnext
      refine List.forall_mem_cons.2 ⟨?_, hb⟩
      simp only [Bindings.isAllowed, Bool.and_eq_true, Bool.not_eq_true',
        List.contains_eq_mem, decide_eq_false_iff_not] at hallowed
      exact hallowed.2
    · cases hnext
  · cases hnext
    exact hb

theorem unbraced_attr {b : Bindings} {n : RawName} {name : Name} (hb : Unbraced b)
    (h : b.attr? n = some name) : '\x7d' ∉ name.space.toList := by
  unfold Bindings.attr? at h
  split at h
  · cases h
    exact List.not_mem_nil
  · rename_i p _
    obtain ⟨uri, huri, rfl⟩ := Option.map_eq_some_iff.1 h
    unfold Bindings.expand? at huri
    split at huri
    · cases huri
      change '\x7d' ∉ xmlSpace.toList
      decide
    · obtain ⟨before, after, heq, -⟩ := List.lookup_eq_some_iff.1 huri
      exact hb (p, uri) (heq ▸ List.mem_append_right _ List.mem_cons_self)

def UnbracedNames (as : List (Name × String)) : Prop := ∀ a ∈ as, '\x7d' ∉ a.1.space.toList

theorem unbraced_expandAttributes {b : Bindings} {attributes : List (RawName × String)}
    {as : List (Name × String)} (hb : Unbraced b) (h : expandAttributes b attributes = .ok as) :
    UnbracedNames as := by
  refine kept_of_foldlM (fun a _ done next hdone hnext => ?_) (List.forall_mem_nil _) h
  dsimp only at hnext
  split at hnext
  · rename_i name hname
    split at hnext
    · cases hnext
    · cases hnext
      exact List.forall_mem_append.2
        ⟨hdone, List.forall_mem_singleton.2 (unbraced_attr hb hname)⟩
  · cases hnext

/-- No namespace of an attribute in a document that is read has a closing brace. -/
theorem unbraced_ofBytes {bytes : List UInt8} {t : Tree} (h : ofBytes bytes = .ok t) :
    t.Bears fun a => '\x7d' ∉ a.1.space.toList := by
  have hsecures : Secures (fun _ => True) (fun _ => True) Unbraced
      fun a => '\x7d' ∉ a.1.space.toList :=
    { noDoctype := trivial
      doctype := fun _ _ => .any
      startTag := fun _ _ _ => .any
      start := List.forall_mem_nil _
      bind := fun _ _ _ _ hb hbind => unbraced_bind hb hbind
      expand := fun _ _ _ _ hb has => unbraced_expandAttributes hb has }
  exact hsecures.bears_ofBytes h

end Document
end Markup
end SchemaPaths
