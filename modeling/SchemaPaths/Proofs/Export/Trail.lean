/-
The paths that a walk comes to.

This is the walk of an export, with its path written down each time it has done something: when it
goes inside an element, when it comes back out, and after each step in between.  What it finds and
how it ends are the same as without the writing.
-/
import SchemaPaths.Proofs.Export.Visiting

namespace SchemaPaths
namespace Export
namespace Paths

open Schema Walk

/-! ## Walks that write down their paths -/

abbrev Path := List (Option String)

abbrev Trailed := ExceptT Failure (StateM (State × List Path))

namespace Trailed

/-- Does what a walk does at one place. -/
def step {α : Type} (m : Visit α) : Trailed α := fun (st, trail) =>
  let (outcome, st') := m st
  (outcome, st', trail ++ [st'.path])

def inside (name : Option String) (body : Trailed Unit) : Trailed Unit := fun (st, trail) =>
  let (outcome, st', trail') := body ({ st with path := name :: st.path }, trail ++ [name :: st.path])
  (outcome, { st' with path := st'.path.tail }, trail' ++ [st'.path.tail])

def perform (s : SchemaSet) (r : Request) (visit : ElementId → Trailed Unit) : Step → Trailed Unit
  | .element e => visit e
  | other => step (Paths.perform s r (fun _ => pure ()) other)

def visitFrom (s : SchemaSet) (r : Request) : Nat → ElementId → Trailed Unit
  | 0, _ => throw .endless
  | fuel + 1, i => do
    let met := s.declared.element i
    let e ← step (elementMeant s met)
    if isSkipped r e.name then return
    if (← get).1.path.contains e.name then
      step (reportRecursion e.name)
      return
    inside e.name do
      match e.inline, e.type with
      | some t, _ => (steps s r.watch (.type t)).forM (perform s r (visitFrom s r fuel))
      | none, some t =>
        step (emitElement s.declared r met.occurs e t)
        (steps s r.watch (.type t)).forM (perform s r (visitFrom s r fuel))
      | none, none => pure ()

def visitRoot (s : SchemaSet) (r : Request) (root : Node) : Trailed Unit := do
  (steps s r.watch root).forM (perform s r (visitFrom s r (s.declared.elements.size + 1)))
  step (do Paths.say (.recordsWritten (← get).records.size))

end Trailed

/-- A walk below a root with the paths it came to, in order. -/
def trailFromRoot (s : SchemaSet) (r : Request) (root : Node) :
    List Path × State × Except Failure Unit :=
  let (outcome, st, trail) := (Trailed.visitRoot s r root).run.run ({}, [])
  (trail, st, outcome)

/-! ## The same walk -/

/-- The walks find the same and end in the same way. -/
def Erases {α : Type} (m' : Trailed α) (m : Visit α) : Prop :=
  ∀ st trail, ∃ trail', m'.run.run (st, trail) = ((m.run.run st).1, (m.run.run st).2, trail')

namespace Erases

variable {α β : Type} {m' : Trailed α} {m : Visit α}

theorem pure (a : α) : Erases (Pure.pure a) (Pure.pure a) := fun _ trail => ⟨trail, rfl⟩

theorem fail (e : Failure) : Erases (throw e : Trailed α) (throw e) := fun _ trail => ⟨trail, rfl⟩

theorem step (m : Visit α) : Erases (Trailed.step m) m := fun _ _ => ⟨_, rfl⟩

theorem bind {f' : α → Trailed β} {f : α → Visit β} (h : Erases m' m)
    (hf : ∀ a, Erases (f' a) (f a)) : Erases (m' >>= f') (m >>= f) := by
  intro st trail
  obtain ⟨trail', hrun⟩ := h st trail
  simp only [ExceptT.run_bind, StateT.run_bind, hrun]
  rcases m.run.run st with ⟨_ | a, st'⟩
  · exact ⟨trail', rfl⟩
  · exact hf a st' trail'

theorem get {f' : State × List Path → Trailed β} {f : State → Visit β}
    (hf : ∀ st trail, Erases (f' (st, trail)) (f st)) :
    Erases (MonadState.get >>= f') (MonadState.get >>= f) := fun st trail => hf st trail st trail

theorem forM {l : List α} {f' : α → Trailed PUnit} {f : α → Visit PUnit}
    (hf : ∀ a, Erases (f' a) (f a)) : Erases (l.forM f') (l.forM f) := by
  induction l with
  | nil => exact pure _
  | cons a l ih => exact (hf a).bind fun _ => ih

theorem inside {name : Option String} {m' : Trailed Unit} {m : Visit Unit} (h : Erases m' m) :
    Erases (Trailed.inside name m') (Paths.inside name m) := by
  intro st trail
  obtain ⟨trail', hrun⟩ := h { st with path := name :: st.path } (trail ++ [name :: st.path])
  refine ⟨trail' ++ [(m.run.run { st with path := name :: st.path }).2.path.tail], ?_⟩
  show Trailed.inside name m' (st, trail) = ((Paths.inside name m st).1, (Paths.inside name m st).2, _)
  have hrun' : m' ({ st with path := name :: st.path }, trail ++ [name :: st.path]) = _ := hrun
  unfold Trailed.inside
  dsimp only
  rw [hrun']
  rfl

end Erases

section Erasure

variable (s : SchemaSet) (r : Request)

theorem erases_perform {visit' : ElementId → Trailed Unit} {visit : ElementId → Visit Unit}
    (h : ∀ e, Erases (visit' e) (visit e)) (step : Step) :
    Erases (Trailed.perform s r visit' step) (perform s r visit step) := by
  have hrest (other : Step) : Erases (Trailed.step (perform s r (fun _ => pure ()) other))
      (perform s r (fun _ => pure ()) other) := .step _
  cases step with
  | element e => exact h e
  | note m => exact hrest (.note m)
  | attr a => exact hrest (.attr a)
  | stop f => exact hrest (.stop f)

theorem erases_visitFrom (fuel : Nat) :
    ∀ i, Erases (Trailed.visitFrom s r fuel i) (visitFrom s r fuel i) := by
  induction fuel with
  | zero => exact fun _ => .fail _
  | succ fuel ih =>
    intro i
    unfold Trailed.visitFrom visitFrom
    refine .bind (.step _) fun e => ?_
    split
    · exact .pure _
    · refine .get fun st trail => ?_
      split
      · exact .bind (.step _) fun _ => .pure _
      · refine .inside ?_
        rcases e.inline with _ | t
        · rcases e.type with _ | t
          · exact .pure _
          · exact .bind (.step _) fun _ => .forM (erases_perform s r ih)
        · exact .forM (erases_perform s r ih)

/-- Writing down its paths changes nothing about a walk. -/
theorem trailFromRoot_eq (root : Node) : (trailFromRoot s r root).2 = fromRoot s r root := by
  have hrun : Erases (Trailed.visitRoot s r root) (visitRoot s r root) :=
    .bind (.forM (erases_perform s r (erases_visitFrom s r _))) fun _ => .step _
  obtain ⟨trail, htrail⟩ := hrun {} []
  unfold trailFromRoot fromRoot
  rw [htrail]
  rfl

end Erasure

/-! ## What holds of all paths -/

/-- A walk that starts at the path `p` is only ever at paths with `P`, comes back to `p` however it
ends, and fails with nothing but `F`. -/
def Stays (P : Path → Prop) (F : Failure → Prop) (p : Path) {α : Type} (m : Trailed α) : Prop :=
  ∀ st trail, st.path = p → (∀ q ∈ trail, P q) →
    Ensures m (st, trail) (fun _ c => c.1.path = p ∧ ∀ q ∈ c.2, P q)
      fun e c => F e ∧ c.1.path = p ∧ ∀ q ∈ c.2, P q

/-- What is done at the path `p` leaves it as it is, and fails with nothing but `F`. -/
def Rests (F : Failure → Prop) (p : Path) {α : Type} (m : Visit α) : Prop :=
  ∀ st, st.path = p → Ensures m st (fun _ st' => st'.path = p) fun e st' => F e ∧ st'.path = p

section Rules

variable {P : Path → Prop} {F : Failure → Prop} {p : Path} {α β : Type}

theorem ensures_step {m : Visit α} {st : State} {trail : List Path} {ok : α → State × List Path → Prop}
    {bad : Failure → State × List Path → Prop}
    (h : Ensures m st (fun a st' => ok a (st', trail ++ [st'.path]))
      fun e st' => bad e (st', trail ++ [st'.path])) :
    Ensures (Trailed.step m) (st, trail) ok bad := by
  unfold Ensures at h ⊢
  rcases hm : m.run.run st with ⟨outcome, st'⟩
  have hrun : (Trailed.step m).run.run (st, trail) = (outcome, st', trail ++ [st'.path]) := by
    have hm : m st = (outcome, st') := hm
    show Trailed.step m (st, trail) = _
    rw [Trailed.step, hm]
  rw [hm] at h
  rw [hrun]
  cases outcome <;> exact h

theorem ensures_trailed_inside {n : Option String} {m : Trailed Unit} {st : State} {trail : List Path}
    {ok : Unit → State × List Path → Prop} {bad : Failure → State × List Path → Prop}
    (h : Ensures m ({ st with path := n :: st.path }, trail ++ [n :: st.path])
      (fun a c => ok a ({ c.1 with path := c.1.path.tail }, c.2 ++ [c.1.path.tail]))
      fun e c => bad e ({ c.1 with path := c.1.path.tail }, c.2 ++ [c.1.path.tail])) :
    Ensures (Trailed.inside n m) (st, trail) ok bad := by
  unfold Ensures at h ⊢
  rcases hm : m.run.run ({ st with path := n :: st.path }, trail ++ [n :: st.path])
    with ⟨outcome, st', trail'⟩
  have hrun : (Trailed.inside n m).run.run (st, trail) =
      (outcome, { st' with path := st'.path.tail }, trail' ++ [st'.path.tail]) := by
    have hm : m ({ st with path := n :: st.path }, trail ++ [n :: st.path]) =
        (outcome, st', trail') := hm
    show Trailed.inside n m (st, trail) = _
    rw [Trailed.inside, hm]
  rw [hm] at h
  rw [hrun]
  cases outcome <;> exact h

namespace Rests

theorem pure (a : α) : Rests F p (Pure.pure a : Visit α) := fun _ h => h

theorem fail {e : Failure} (h : F e) : Rests F p (throw e : Visit α) := fun _ hst => ⟨h, hst⟩

theorem bind {m : Visit α} {f : α → Visit β} (h : Rests F p m) (hf : ∀ a, Rests F p (f a)) :
    Rests F p (m >>= f) := fun st hst => (h st hst).bind fun a st' hst' => hf a st' hst'

theorem get : Rests F p (MonadState.get : Visit State) := fun _ h => h

theorem emit (r : Record) : Rests F p (emit r) := fun _ h => ensures_modify.2 h

theorem say (n : Notice) : Rests F p (say n) := fun _ h => ensures_modify.2 h

theorem pathNames (h : F .nameless) : Rests F p pathNames := by
  refine get.bind fun st => ?_
  split
  · exact pure _
  · exact fail h

theorem reportRecursion (h : F .nameless) (n : Option String) : Rests F p (reportRecursion n) :=
  (pathNames h).bind fun _ => say _

theorem emitElement (h : F .nameless) (d : Declarations) (r : Request) (occurs : Occurs) (e : Element)
    (t : TypeRef) : Rests F p (emitElement d r occurs e t) :=
  (pathNames h).bind fun _ => get.bind fun _ => emit _

theorem visitAttribute {s : SchemaSet} {r : Request} {a : AttributeId} (h : F .nameless)
    (hmeant : Rests F p (attributeMeant s (s.declared.attr a))) : Rests F p (visitAttribute s r a) := by
  refine hmeant.bind fun declaration => ?_
  split
  · exact pure _
  · exact (pathNames h).bind fun _ => get.bind fun _ => emit _

end Rests

namespace Stays

theorem pure (a : α) : Stays P F p (Pure.pure a) := fun _ _ hst htrail => ⟨hst, htrail⟩

theorem fail {e : Failure} (h : F e) : Stays P F p (throw e : Trailed α) :=
  fun _ _ hst htrail => ⟨h, hst, htrail⟩

theorem bind {m : Trailed α} {f : α → Trailed β} (h : Stays P F p m)
    (hf : ∀ a, Stays P F p (f a)) : Stays P F p (m >>= f) :=
  fun st trail hst htrail => (h st trail hst htrail).bind fun a c hc => hf a c.1 c.2 hc.1 hc.2

theorem get {f : State × List Path → Trailed β}
    (hf : ∀ st trail, st.path = p → Stays P F p (f (st, trail))) :
    Stays P F p (MonadState.get >>= f) := fun st trail hst htrail =>
  ensures_bind.2 (ensures_get.2 (hf st trail hst st trail hst htrail))

theorem forM {l : List α} {f : α → Trailed PUnit} (hf : ∀ a ∈ l, Stays P F p (f a)) :
    Stays P F p (l.forM f) := by
  induction l with
  | nil => exact pure _
  | cons a l ih =>
    exact (hf a List.mem_cons_self).bind fun _ => ih fun b hb => hf b (List.mem_cons_of_mem _ hb)

theorem step {m : Visit α} (hp : P p) (h : Rests F p m) : Stays P F p (Trailed.step m) := by
  intro st trail hst htrail
  have hsnoc {q : Path} (hq : q = p) : ∀ q' ∈ trail ++ [q], P q' :=
    List.forall_mem_append.2 ⟨htrail, List.forall_mem_singleton.2 (hq ▸ hp)⟩
  exact ensures_step ((h st hst).mono (fun _ _ hst' => ⟨hst', hsnoc hst'⟩)
    fun _ _ he => ⟨he.1, he.2, hsnoc he.2⟩)

/-- What is known at once is used at once. -/
theorem known {a : α} {f : α → Trailed β} (hp : P p) (h : Stays P F p (f a)) :
    Stays P F p (Trailed.step (Pure.pure a) >>= f) := by
  intro st trail hst htrail
  refine ensures_bind.2 (ensures_step (h st _ hst ?_))
  exact List.forall_mem_append.2 ⟨htrail, List.forall_mem_singleton.2 (hst ▸ hp)⟩

/-- Inside an element the path is longer by its name. -/
theorem inside {n : Option String} {m : Trailed Unit} (hp : P p) (hn : P (n :: p))
    (h : Stays P F (n :: p) m) : Stays P F p (Trailed.inside n m) := by
  intro st trail hst htrail
  have hback {c : State × List Path} (hc : c.1.path = n :: p) (htrail : ∀ q ∈ c.2, P q) :
      c.1.path.tail = p ∧ ∀ q ∈ c.2 ++ [c.1.path.tail], P q := by
    have htail : c.1.path.tail = p := by rw [hc, List.tail_cons]
    refine ⟨htail, List.forall_mem_append.2 ⟨htrail, List.forall_mem_singleton.2 ?_⟩⟩
    rwa [htail]
  have hopen : ∀ q ∈ trail ++ [n :: st.path], P q :=
    List.forall_mem_append.2 ⟨htrail, List.forall_mem_singleton.2 (hst ▸ hn)⟩
  have hbody := h { st with path := n :: st.path } _ (congrArg (n :: ·) hst) hopen
  exact ensures_trailed_inside (hbody.mono (fun _ _ hc => hback hc.1 hc.2)
    fun _ _ he => ⟨he.1, hback he.2.1 he.2.2⟩)

end Stays

end Rules

end Paths
end Export
end SchemaPaths
