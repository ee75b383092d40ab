/-
The steps of a load.

A load takes notes and reads documents into the set, and passes over what is there already.  What
holds over each such step holds over a load, however far it comes.
-/
import SchemaPaths.Proofs.Ensures
import SchemaPaths.Schema.Loading

namespace SchemaPaths
namespace Schema

/-- The namespace of a document, which may take over one from the document that refers to it. -/
def spaceOf (tree : Markup.Tree) (adopted : Option String) : String :=
  (valueOf? tree.attributes "targetNamespace").getD (adopted.getD "")

/-- A document stands at the location of the setting, and its content is read in this setting. -/
def Source.Offers (source : Source) (setting : Setting) (content : List Markup.Tree) : Prop :=
  ∃ bytes tree adopted, source.read setting.source = .ok bytes ∧
    Loader.schemaOf setting.source bytes = .ok tree ∧ content = tree.content ∧
    setting = Loader.settingOf setting.source tree.attributes (Markup.Prefixes.ofBytes bytes) adopted

namespace Loader

def locations (l : Loader) : List String := l.set.documents.map (·.source)

theorem isLoaded_iff (l : Loader) (location : String) :
    l.isLoaded location = true ↔ location ∈ l.locations := by
  unfold isLoaded locations
  simp [List.any_eq_true, List.mem_map]

section

variable {α : Type} {l : Loader} {ok : α → Loader → Prop} {bad : Failure → Loader → Prop}

theorem ensures_lift {r : Except Failure α} (hok : ∀ a, r = .ok a → ok a l)
    (hbad : ∀ e, r = .error e → bad e l) : Ensures (lift r) l ok bad := by
  cases r with
  | ok a => exact hok a rfl
  | error e => exact hbad e rfl

end

/-! ## One document -/

/-- The tree of a schema document is that of its bytes. -/
theorem ofBytes_of_schemaOf {location : String} {bytes : List UInt8} {tree : Markup.Tree}
    (h : schemaOf location bytes = .ok tree) : Markup.Document.ofBytes bytes = .ok tree := by
  obtain ⟨tree', htree, hroot⟩ := exists_of_bind h
  have hsame : tree' = tree := by
    dsimp only at hroot
    split at hroot
    · exact Except.ok.inj hroot
    · cases hroot
  rw [← hsame]
  unfold treeOf at htree
  split at htree
  · rename_i t ht
    rw [ht, Except.ok.inj htree]
  · cases htree
  · cases htree
  · cases htree

/-- Follows one of the references of a document. -/
def follow (fuel : Nat) (location space : String) (d : Directive) : Load Unit := do
  match d.path? with
  | none =>
    if d.construct == .imports then say (.importSkipped d.space)
    else throw (.load .noLocation (some location))
  | some path =>
    let child ← lift ((← get).source.resolve location path)
    say (.following location child)
    loadDocument fuel child (if d.construct == .imports then none else some space)

/-- Reads a document that is not there yet, and what it refers to. -/
def readNew (fuel : Nat) (location : String) (adopted : Option String) : Load Unit := do
  let bytes ← lift ((← get).source.read location)
  let tree ← lift (schemaOf location bytes)
  let setting := settingOf location tree.attributes (Markup.Prefixes.ofBytes bytes) adopted
  let directives ← enter setting tree.content
  directives.forM (follow fuel location (spaceOf tree adopted))

theorem loadDocument_succ (fuel : Nat) (location : String) (adopted : Option String) :
    loadDocument (fuel + 1) location adopted = (do
      if (← get).isLoaded location then
        say (.alreadyLoaded location)
        return
      readNew fuel location adopted : Load Unit) := rfl

section

variable {fuel : Nat} {location : String} {adopted : Option String} {l : Loader}
  {ok : Unit → Loader → Prop} {bad : Failure → Loader → Prop}

theorem ensures_known (h : location ∈ l.locations)
    (hok : ∀ notices, ok () { l with notices }) :
    Ensures (loadDocument (fuel + 1) location adopted) l ok bad := by
  rw [loadDocument_succ]
  refine ensures_bind.2 (ensures_get.2 ?_)
  rw [if_pos ((isLoaded_iff l location).2 h)]
  exact ensures_bind.2 (ensures_modify.2 (ensures_pure.2 (hok _)))

theorem ensures_new (h : location ∉ l.locations)
    (hnew : Ensures (readNew fuel location adopted) l ok bad) :
    Ensures (loadDocument (fuel + 1) location adopted) l ok bad := by
  rw [loadDocument_succ]
  refine ensures_bind.2 (ensures_get.2 ?_)
  rw [if_neg fun hloaded => h ((isLoaded_iff l location).1 hloaded)]
  exact hnew

end

section Entering

variable {setting : Setting} {content : List Markup.Tree} {l : Loader} {set : SchemaSet}
  {ok : List Directive → Loader → Prop} {bad : Failure → Loader → Prop}

theorem ensures_enter_of_ok {directives : List Directive}
    (h : l.set.read setting content = (set, .ok directives)) :
    Ensures (enter setting content) l ok bad ↔
      ok directives { l with set, notices := l.notices ++ [.loaded setting.source setting.space] } := by
  unfold enter
  rw [ensures_bind, ensures_get, h]
  rfl

theorem ensures_enter_of_error {f : Failure}
    (h : l.set.read setting content = (set, .error f)) :
    Ensures (enter setting content) l ok bad ↔ bad f { l with set } := by
  unfold enter
  rw [ensures_bind, ensures_get, h]
  rfl

end Entering

/-! ## Reading step by step -/

/-- What holds between a loader and what becomes of it if it takes notes and reads documents. -/
structure Steps (R : Loader → Loader → Prop) : Prop where
  refl : ∀ l, R l l
  trans : ∀ {l l' l''}, R l l' → R l' l'' → R l l''
  say : ∀ l notices, R l { l with notices }
  enter : ∀ (l : Loader) setting content, l.source.Offers setting content →
    R l { l with set := (l.set.read setting content).1 }

/-- Whether a computation succeeds or not, it leads to a loader that `R` relates to the first. -/
def Leads (R : Loader → Loader → Prop) {α : Type} (m : Load α) : Prop :=
  ∀ l, Ensures m l (fun _ l' => R l l') fun _ l' => R l l'

section Leading

variable {R : Loader → Loader → Prop} {α β : Type}

namespace Leads

theorem pure (h : Steps R) (a : α) : Leads R (Pure.pure a) := fun l => ensures_pure.2 (h.refl l)

theorem fail (h : Steps R) (e : Failure) : Leads R (throw e : Load α) :=
  fun l => ensures_throw.2 (h.refl l)

theorem bind (h : Steps R) {m : Load α} {f : α → Load β} (hm : Leads R m)
    (hf : ∀ a, Leads R (f a)) : Leads R (m >>= f) :=
  fun l => (hm l).bind fun a l' hl' => (hf a l').mono
    (fun _ _ h' => h.trans hl' h') fun _ _ h' => h.trans hl' h'

theorem get (h : Steps R) : Leads R (MonadState.get : Load Loader) :=
  fun l => ensures_get.2 (h.refl l)

theorem lift (h : Steps R) (r : Except Failure α) : Leads R (Loader.lift r) := by
  cases r with
  | ok a => exact pure h a
  | error e => exact fail h e

theorem say (h : Steps R) (n : Notice) : Leads R (Loader.say n) :=
  fun l => ensures_modify.2 (h.say l _)

theorem forM (h : Steps R) {list : List α} {f : α → Load PUnit} (hf : ∀ a, Leads R (f a)) :
    Leads R (list.forM f) := by
  intro l
  refine ensures_forM (fun _ l' => R l l') (h.refl l) fun _ a _ l' _ hl' => ?_
  exact (hf a l').mono (fun _ _ h' => h.trans hl' h') fun _ _ h' => h.trans hl' h'

end Leads

theorem ensures_enter_leads (h : Steps R) {l : Loader} {setting : Setting}
    {content : List Markup.Tree} (hoffers : l.source.Offers setting content) :
    Ensures (enter setting content) l (fun _ l' => R l l') fun _ l' => R l l' := by
  unfold enter
  refine ensures_bind.2 (ensures_get.2 (ensures_bind.2 (ensures_modify.2 ?_)))
  have hrest := Leads.bind h (.lift h (l.set.read setting content).2) fun directives =>
    .bind h (.say h (.loaded setting.source setting.space)) fun _ => .pure h directives
  have hread := h.enter l setting content hoffers
  exact (hrest { l with set := (l.set.read setting content).1 }).mono
    (fun _ _ h' => h.trans hread h') fun _ _ h' => h.trans hread h'

theorem leads_follow (h : Steps R) {fuel : Nat}
    (ih : ∀ location adopted, Leads R (loadDocument fuel location adopted)) (location space : String)
    (d : Directive) : Leads R (follow fuel location space d) := by
  unfold follow
  split
  · split
    · exact .say h _
    · exact .fail h _
  · refine (Leads.get h).bind h fun l => (Leads.lift h _).bind h fun child => ?_
    exact (Leads.say h _).bind h fun _ => ih _ _

theorem leads_readNew (h : Steps R) {fuel : Nat}
    (ih : ∀ location adopted, Leads R (loadDocument fuel location adopted)) (location : String)
    (adopted : Option String) : Leads R (readNew fuel location adopted) := by
  intro l
  unfold readNew
  refine ensures_bind.2 (ensures_get.2 (ensures_bind.2 ?_))
  refine ensures_lift (fun bytes hbytes => ensures_bind.2 ?_) fun e _ => h.refl l
  refine ensures_lift (fun tree htree => ?_) fun e _ => h.refl l
  have hoffers : l.source.Offers (settingOf location tree.attributes
      (Markup.Prefixes.ofBytes bytes) adopted) tree.content :=
    ⟨bytes, tree, adopted, hbytes, htree, rfl, rfl⟩
  have hfollow (directives : List Directive) :
      Leads R (directives.forM (follow fuel location (spaceOf tree adopted))) :=
    .forM h fun d => leads_follow h ih location _ d
  exact (ensures_enter_leads h hoffers).bind fun directives l' hl' => (hfollow directives l').mono
    (fun _ _ h' => h.trans hl' h') fun _ _ h' => h.trans hl' h'

theorem leads_loadDocument (h : Steps R) (fuel : Nat) : ∀ (location : String)
    (adopted : Option String), Leads R (loadDocument fuel location adopted) := by
  induction fuel with
  | zero => exact fun _ _ => .fail h _
  | succ fuel ih =>
    intro location adopted
    rw [loadDocument_succ]
    refine (Leads.get h).bind h fun l => ?_
    split
    · exact (Leads.say h _).bind h fun _ => .pure h _
    · exact leads_readNew h ih location adopted

theorem leads_readAll (h : Steps R) (primary : String) : Leads R (readAll primary) := by
  refine (Leads.get h).bind h fun l => (Leads.lift h _).bind h fun location => ?_
  refine (Leads.get h).bind h fun l => (leads_loadDocument h _ _ _).bind h fun _ => ?_
  exact (Leads.get h).bind h fun l => .say h _

end Leading

/-! ## Outcomes -/

theorem ensures_linkAll_outcome (l : Loader) :
    Ensures linkAll l
      (fun _ l' => l'.source = l.source ∧ l'.locations = l.locations ∧ l.set.link.2 = .ok ())
      fun e l' => l'.source = l.source ∧ l'.locations = l.locations ∧ l.set.link.2 = .error e := by
  unfold linkAll
  refine ensures_bind.2 (ensures_get.2 (ensures_bind.2 (ensures_modify.2 (ensures_bind.2 ?_))))
  exact ensures_lift (fun _ h => ⟨rfl, rfl, h⟩) fun e h => ⟨rfl, rfl, h⟩

theorem ensures_linkAll_set (l : Loader) :
    Ensures linkAll l (fun _ l' => l'.set = l.set.link.1 ∧ l.set.link.2 = .ok ())
      fun e l' => l'.set = l.set.link.1 ∧ l.set.link.2 = .error e := by
  unfold linkAll
  refine ensures_bind.2 (ensures_get.2 (ensures_bind.2 (ensures_modify.2 (ensures_bind.2 ?_))))
  exact ensures_lift (fun _ h => ⟨rfl, h⟩) fun e h => ⟨rfl, h⟩

section Outcomes

variable {l : Loader} {primary : String} {ok : Unit → Loader → Prop}
  {bad : Failure → Loader → Prop}

theorem load_ok (h : Ensures (loadAll primary) l ok bad) (hload : (l.load primary).2 = .ok ()) :
    ok () (l.load primary).1 := by
  unfold Ensures at h
  unfold load at hload ⊢
  split at h <;> rename_i heq <;> rw [heq] at hload ⊢
  · exact h
  · cases hload

theorem load_error (h : Ensures (loadAll primary) l ok bad) {e : Failure}
    (hload : (l.load primary).2 = .error e) : bad e (l.load primary).1 := by
  unfold Ensures at h
  unfold load at hload ⊢
  split at h <;> rename_i heq <;> rw [heq] at hload ⊢
  · cases hload
  · cases hload
    exact h

/-- What holds however a load ends holds of the loader that it leaves. -/
theorem load_left (p : Loader → Prop) (h : Ensures (loadAll primary) l (fun _ => p) fun _ => p) :
    p (l.load primary).1 := by
  cases hload : (l.load primary).2 with
  | ok u => exact load_ok h hload
  | error e => exact load_error h hload

end Outcomes

end Loader
end Schema
end SchemaPaths
