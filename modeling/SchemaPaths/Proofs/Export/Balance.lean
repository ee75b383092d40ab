/-
Visits leave their path as they found it.

Whatever a visit meets, in a linked set or in one that linking gave up, it comes back out of every
element that it went into, with the rows that it had before still in front.  On the way no name is on
the path twice, and no name to be skipped is on it unless it was there at first.
-/
import SchemaPaths.Proofs.Export.Trail

namespace SchemaPaths
namespace Export
namespace Paths

open Schema Walk

/-- The paths that a visit may come to from the path `start`: ways on from there that repeat no name
and take up none to be skipped. -/
structure Onward (r : Request) (start p : Path) : Prop where
  nodup : p.Nodup
  further : start <:+ p
  unskipped : ∀ n ∈ p, isSkipped r n → n ∈ start

namespace Onward

variable {r : Request} {start p : Path} {n : Option String}

theorem refl (h : start.Nodup) : Onward r start start := ⟨h, List.suffix_rfl, fun _ hn _ => hn⟩

theorem cons (h : Onward r start p) (hskip : ¬ isSkipped r n) (hnew : n ∉ p) :
    Onward r start (n :: p) where
  nodup := List.nodup_cons.2 ⟨hnew, h.nodup⟩
  further := h.further.trans (List.suffix_cons n p)
  unskipped := List.forall_mem_cons.2 ⟨fun hn => absurd hn hskip, h.unskipped⟩

end Onward

/-! ## Rows -/

/-- A visit keeps the rows found before it, however it ends. -/
def Grows {α : Type} (m : Visit α) : Prop :=
  ∀ st, Ensures m st (fun _ st' => st.records.toList <+: st'.records.toList)
    fun _ st' => st.records.toList <+: st'.records.toList

namespace Grows

variable {α β : Type}

theorem pure (a : α) : Grows (Pure.pure a) := fun _ => List.prefix_rfl

theorem fail (e : Failure) : Grows (throw e : Visit α) := fun _ => List.prefix_rfl

theorem bind {m : Visit α} {f : α → Visit β} (h : Grows m) (hf : ∀ a, Grows (f a)) :
    Grows (m >>= f) := fun st =>
  (h st).bind fun a st' hst' =>
    (hf a st').mono (fun _ _ h => hst'.trans h) fun _ _ h => hst'.trans h

theorem get : Grows (MonadState.get : Visit State) := fun _ => List.prefix_rfl

theorem forM {l : List α} {f : α → Visit PUnit} (hf : ∀ a, Grows (f a)) : Grows (l.forM f) := by
  induction l with
  | nil => exact pure _
  | cons a l ih => exact (hf a).bind fun _ => ih

theorem inside {n : Option String} {m : Visit Unit} (h : Grows m) : Grows (Paths.inside n m) :=
  fun st => ensures_inside (h { st with path := n :: st.path })

theorem emit (row : Record) : Grows (emit row) := fun _ =>
  ensures_modify.2 ⟨[row], (Array.toList_push).symm⟩

theorem say (n : Notice) : Grows (say n) := fun _ => ensures_modify.2 List.prefix_rfl

theorem pathNames : Grows pathNames := by
  refine get.bind fun st => ?_
  split
  · exact pure _
  · exact fail _

theorem elementMeant (s : SchemaSet) (met : Element) : Grows (elementMeant s met) := by
  unfold Paths.elementMeant
  split
  · exact pure _
  · split
    · exact pure _
    · exact fail _

theorem attributeMeant (s : SchemaSet) (used : Attribute) : Grows (attributeMeant s used) := by
  unfold Paths.attributeMeant
  split
  · exact pure _
  · split
    · exact pure _
    · exact fail _

theorem visitAttribute (s : SchemaSet) (r : Request) (a : AttributeId) :
    Grows (visitAttribute s r a) := by
  refine (attributeMeant s _).bind fun declaration => ?_
  split
  · exact pure _
  · exact pathNames.bind fun _ => get.bind fun _ => emit _

theorem emitElement (d : Declarations) (r : Request) (occurs : Occurs) (e : Element) (t : TypeRef) :
    Grows (emitElement d r occurs e t) := pathNames.bind fun _ => get.bind fun _ => emit _

theorem perform {s : SchemaSet} {r : Request} {visit : ElementId → Visit Unit}
    (h : ∀ e, Grows (visit e)) (step : Step) : Grows (perform s r visit step) := by
  cases step with
  | note m => exact fun _ => ensures_modify.2 List.prefix_rfl
  | element e => exact h e
  | attr a => exact visitAttribute s r a
  | stop f => exact fail f

/-- By induction on the fuel: the steps of the type of an element are visits with less of it. -/
theorem visitFrom (s : SchemaSet) (r : Request) (fuel : Nat) :
    ∀ i, Grows (visitFrom s r fuel i) := by
  induction fuel with
  | zero => exact fun _ => fail _
  | succ fuel ih =>
    intro i
    unfold Paths.visitFrom
    refine (elementMeant s _).bind fun e => ?_
    split
    · exact pure _
    · refine get.bind fun st => ?_
      split
      · exact (pathNames.bind fun _ => say _).bind fun _ => pure _
      · refine inside ?_
        rcases e.inline with _ | t
        · rcases e.type with _ | t
          · exact pure _
          · exact (emitElement _ _ _ _ _).bind fun _ => forM (perform ih)
        · exact forM (perform ih)

theorem visit (s : SchemaSet) (r : Request) (n : Node) : Grows (visit s r n) :=
  forM (perform (visitFrom s r _))

end Grows

/-! ## Paths -/

def AnyFailure (_ : Failure) : Prop := True

section Visits

variable {s : SchemaSet} {r : Request} {start p : Path}

theorem rests_elementMeant (met : Element) : Rests AnyFailure p (elementMeant s met) := by
  unfold elementMeant
  split
  · exact .pure _
  · split
    · exact .pure _
    · exact .fail trivial

theorem rests_attributeMeant (used : Attribute) : Rests AnyFailure p (attributeMeant s used) := by
  unfold attributeMeant
  split
  · exact .pure _
  · split
    · exact .pure _
    · exact .fail trivial

/-- A visit that starts at the path `p` on the way from `start`, comes back to it and is only ever at
paths that lead on from `start`. -/
def Balanced (r : Request) (start p : Path) (m : Trailed Unit) : Prop :=
  Stays (Onward r start) AnyFailure p m

theorem balanced_perform (hp : Onward r start p) {visit : ElementId → Trailed Unit}
    (h : ∀ i, Balanced r start p (visit i)) (step : Step) :
    Balanced r start p (Trailed.perform s r visit step) := by
  cases step with
  | note m =>
    have hnote : Rests AnyFailure p (perform s r (fun _ => pure ()) (.note m)) :=
      fun _ hst => ensures_modify.2 hst
    exact .step hp hnote
  | element e => exact h e
  | attr a => exact .step hp (.visitAttribute trivial (rests_attributeMeant _))
  | stop f => exact .step hp (.fail trivial)

/-- By induction on the fuel, for all paths: an element is only entered where its name is new and not
to be skipped. -/
theorem balanced_visitFrom (fuel : Nat) : ∀ (p : Path) (i : ElementId), Onward r start p →
    Balanced r start p (Trailed.visitFrom s r fuel i) := by
  induction fuel with
  | zero => exact fun _ _ _ => .fail trivial
  | succ fuel ih =>
    intro p i hp
    unfold Trailed.visitFrom
    refine .bind (.step hp (rests_elementMeant _)) fun e => ?_
    split
    · exact .pure _
    · rename_i hskip
      refine .get fun st trail hst => ?_
      dsimp only
      rw [hst]
      split
      · exact .bind (.step hp (.reportRecursion trivial _)) fun _ => .pure _
      · rename_i hnew
        have hinner : Onward r start (e.name :: p) := hp.cons hskip (by simpa using hnew)
        have htype (t : TypeRef) : Balanced r start (e.name :: p)
            ((steps s r.watch (.type t)).forM (Trailed.perform s r (Trailed.visitFrom s r fuel))) :=
          .forM fun step _ => balanced_perform hinner (fun j => ih _ j hinner) step
        refine .inside hp hinner ?_
        rcases e.inline with _ | t
        · rcases e.type with _ | t
          · exact .pure _
          · exact .bind (.step hinner (.emitElement trivial _ _ _ _ _)) fun _ => htype t
        · exact htype t

end Visits

/-- A visit of any node that writes down its paths. -/
def Trailed.visit (s : SchemaSet) (r : Request) (n : Node) : Trailed Unit :=
  (steps s r.watch n).forM (perform s r (visitFrom s r (s.declared.elements.size + 1)))

/-- A visit from any state with the paths it came to, in order. -/
def trailFrom (s : SchemaSet) (r : Request) (n : Node) (st : State) :
    List Path × State × Except Failure Unit :=
  let (outcome, st', trail) := (Trailed.visit s r n).run.run (st, [])
  (trail, st', outcome)

theorem erases_visit (s : SchemaSet) (r : Request) (n : Node) :
    Erases (Trailed.visit s r n) (visit s r n) := .forM (erases_perform s r (erases_visitFrom s r _))

theorem balanced_visit {s : SchemaSet} {r : Request} {p : Path} (n : Node) (hp : p.Nodup) :
    Balanced r p p (Trailed.visit s r n) :=
  .forM fun step _ => balanced_perform (.refl hp)
    (fun i => balanced_visitFrom _ p i (.refl hp)) step

theorem ensures_visit_path {s : SchemaSet} {r : Request} {st : State} (n : Node)
    (h : st.path.Nodup) :
    Ensures (visit s r n) st (fun _ st' => st'.path = st.path) fun _ st' => st'.path = st.path := by
  obtain ⟨trail, hrun⟩ := erases_visit s r n st []
  have hpaths := balanced_visit (s := s) (r := r) n h st [] rfl nofun
  unfold Ensures at hpaths ⊢
  rw [hrun] at hpaths
  rcases hvisit : (visit s r n).run.run st with ⟨e | a, st'⟩
  · rw [hvisit] at hpaths
    exact hpaths.2.1
  · rw [hvisit] at hpaths
    exact hpaths.1

/-- What is found below a root is found from the empty path, and the path is empty in the end. -/
theorem fromRoot_path (s : SchemaSet) (r : Request) (root : Node) :
    (fromRoot s r root).1.path = [] := by
  have hstart : ({} : State).path.Nodup := .nil
  have hrun : Ensures (visitRoot s r root) {} (fun _ st => st.path = []) fun _ st => st.path = [] :=
    (ensures_visit_path root hstart).bind fun _ _ hst =>
      ensures_bind.2 (ensures_get.2 (ensures_modify.2 hst))
  unfold Ensures at hrun
  unfold fromRoot
  split at hrun
  · rename_i heq
    rw [heq]
    exact hrun
  · rename_i heq
    rw [heq]
    exact hrun

/-- A visit of any node in any state, linked set or not, comes back to the path that it started at,
with the rows it found there in front of its own, whether it succeeds or fails.  On the way its paths
lead on from there, with no name twice and with no new one that is to be skipped.  So an export, which
starts at the empty path, ends there. -/
theorem visit_balanced (s : SchemaSet) (r : Request) (n : Node) (st : State) (h : st.path.Nodup) :
    let (trail, st', outcome) := trailFrom s r n st
    (visit s r n).run.run st = (outcome, st') ∧ st'.path = st.path ∧
      st.records.toList <+: st'.records.toList ∧ (∀ p ∈ trail, Onward r st.path p) ∧
      (fromRoot s r n).1.path = [] := by
  obtain ⟨trail, hrun⟩ := erases_visit s r n st []
  have hgrows := Grows.visit s r n st
  have hpaths := balanced_visit (s := s) (r := r) n h st [] rfl nofun
  have hroot := fromRoot_path s r n
  unfold trailFrom
  unfold Ensures at hgrows hpaths
  rw [hrun] at hpaths ⊢
  rcases hvisit : (visit s r n).run.run st with ⟨e | a, st'⟩
  · rw [hvisit] at hgrows hpaths
    exact ⟨rfl, hpaths.2.1, hgrows, hpaths.2.2, hroot⟩
  · rw [hvisit] at hgrows hpaths
    exact ⟨rfl, hpaths.1, hgrows, hpaths.2, hroot⟩

/-- The element `a` holds `b`, and then a reference to an element that is not declared. -/
def brokenText : String :=
  "<s:schema xmlns:s=\"" ++ xsSpace ++ "\"><s:element name=\"a\"><s:complexType><s:sequence>" ++
    "<s:element name=\"b\" type=\"s:int\"/><s:element ref=\"c\"/></s:sequence></s:complexType>" ++
    "</s:element></s:schema>"

def broken : SchemaSet := .ofText brokenText

/-- Inside of an element `x`, which has a row. -/
def insideX : State where
  path := [some "x"]
  records := #[{ node := "/x", path := "/x", notes := "", type := "Int" }]

/-- The set is left by a load that failed, and the visit goes into `a` and fails there. -/
theorem broken_visit_balanced : (Loader.ofText brokenText).2.isOk = false ∧ insideX.path.Nodup ∧
    let (trail, st', outcome) := trailFrom broken {} (.element 2) insideX
    outcome = .error (.schema (.unresolved .element ⟨"", some "c"⟩)) ∧
      st'.records.toList.map (·.path) = ["/x", "/x/a/b"] ∧ [some "b", some "a", some "x"] ∈ trail ∧
      st'.path = insideX.path ∧ insideX.records.toList <+: st'.records.toList ∧
      (∀ p ∈ trail, Onward {} insideX.path p) ∧ (fromRoot broken {} (.element 2)).1.path = [] := by
  have hpath : insideX.path.Nodup := by decide
  have hfacts : (Loader.ofText brokenText).2.isOk = false ∧
      let (trail, st', outcome) := trailFrom broken {} (.element 2) insideX
      outcome = .error (.schema (.unresolved .element ⟨"", some "c"⟩)) ∧
        st'.records.toList.map (·.path) = ["/x", "/x/a/b"] ∧
        [some "b", some "a", some "x"] ∈ trail := by
    rw [broken, SchemaSet.ofText_eq, Loader.ofText_eq]
    decide +kernel
  obtain ⟨hfailed, houtcome, hfound, hmet⟩ := hfacts
  obtain ⟨-, hback, hrows, htrail, hroot⟩ := visit_balanced broken {} (.element 2) insideX hpath
  exact ⟨hfailed, hpath, houtcome, hfound, hmet, hback, hrows, htrail, hroot⟩

end Paths
end Export
end SchemaPaths
