/-
Exports of sets whose declarations stand in other places.

An export names declarations and shows what they hold; where they stand it does not show.  The walk
through a set with its declarations in other places takes the same steps, with the places renamed, and
so it writes the same rows, notes down the same nodes and ends in the same way.
-/
import SchemaPaths.Export.Paths
import SchemaPaths.Export.Root
import SchemaPaths.Proofs.Schema.Naming

namespace SchemaPaths

open Schema Renaming

variable {s s' : SchemaSet} {d d' : Declarations} {ρ σ : Renaming}

/-! ## Declarations -/

namespace Schema.Declarations.Rearranged

theorem simple (h : d.Rearranged ρ σ d') (r : SimpleRef) :
    d'.simple (r.rename ρ) = (d.simple r).rename ρ := by
  match r with
  | .builtin b => 
    have hbase : (ofBuiltin b).base.map (·.rename ρ) = (ofBuiltin b).base := by
      unfold ofBuiltin
      cases b.base.bind Builtin.find? <;> rfl
    rw [SimpleType.rename, show d.simple (.builtin b) = ofBuiltin b from rfl, hbase]
    rfl
  | .declared i => exact h.simpleType i

theorem complex (h : d.Rearranged ρ σ d') (r : ComplexRef) :
    d'.complex (r.rename ρ) = (d.complex r).rename ρ := by
  match r with
  | .anyType => rfl
  | .declared i => exact h.complexType i

theorem simpleCodeFrom (h : d.Rearranged ρ σ d') (fuel : Nat) (r : SimpleRef) :
    d'.simpleCodeFrom fuel (r.rename ρ) = d.simpleCodeFrom fuel r := by
  induction fuel generalizing r with
  | zero => rfl
  | succ fuel ih =>
    have hbase : ((d.simple r).rename ρ).base.bind (d'.simpleCodeFrom fuel) =
        (d.simple r).base.bind (d.simpleCodeFrom fuel) := by
      rw [SimpleType.rename]
      cases (d.simple r).base with
      | none => rfl
      | some b => exact ih b
    rw [Declarations.simpleCodeFrom, Declarations.simpleCodeFrom, h.simple, hbase]
    rfl

theorem typeCode (h : d.Rearranged ρ σ d') (t : TypeRef) :
    d'.typeCode (t.rename ρ) = d.typeCode t := by
  have hbound : d'.chainBound = d.chainBound :=
    congrArg (· + Builtin.all.length + 1) (congrArg Extent.simpleTypes h.extent)
  match t with
  | .complex .anyType => rfl
  | .complex (.declared _) => rfl
  | .simple r =>
    change d'.simpleCodeFrom d'.chainBound (r.rename ρ) = d.simpleCodeFrom d.chainBound r
    rw [hbound, h.simpleCodeFrom]

end Schema.Declarations.Rearranged

/-! ## What a walk meets -/

namespace Walk

theorem openingBound_rearranged (h : d.Rearranged ρ σ d') : openingBound d' = openingBound d := by
  have hcomplex : d'.complexTypes.size = d.complexTypes.size :=
    congrArg Extent.complexTypes h.extent
  have hgroups : d'.groups.size = d.groups.size := congrArg Extent.groups h.extent
  rw [openingBound, openingBound, hcomplex, hgroups]

theorem sighting?_rename (h : d.Rearranged ρ σ d') (watch : Watch) (n : Node) :
    sighting? watch d' (n.rename ρ) = sighting? watch d n := by
  have hname : nodeName d' (n.rename ρ) = nodeName d n := by
    match n with
    | .element e => exact (congrArg Element.name (h.element e) :)
    | .attr a => exact (congrArg Attribute.name (h.attr a) :)
    | .type t => exact h.typeName t
    | .group g => exact (congrArg Group.name (h.group g) :)
    | .sequence .. | .choice .. | .any .. | .content .. | .derivation .. | .groupRef ..
    | .unknown .. => rfl
  rw [sighting?, sighting?, Node.kind?_rename, hname]

theorem kindFailure?_rename (ρ : Renaming) (idle ruled : List Kind) (n : Node) :
    kindFailure? idle ruled (n.rename ρ) = kindFailure? idle ruled n := by
  have hlabel : kindLabel (n.rename ρ) = kindLabel n := by
    cases n with
    | type t => cases t <;> rfl
    | content simple p => cases simple <;> rfl
    | _ => rfl
  simp only [kindFailure?, unsupported, Node.kind?_rename, hlabel]

theorem inner_rename (ρ : Renaming) (c : ComplexType) :
    Outline.inner (c.rename ρ) = (Outline.inner c).map (·.rename ρ) := by
  have hsome : (c.rename ρ).content.isSome = c.content.isSome := Option.isSome_map
  have htype : (c.rename ρ).contentType = c.contentType := rfl
  rw [Outline.inner, Outline.inner, hsome, htype]
  split <;> rfl

end Walk

namespace Export

open Walk

/-! ## Steps -/

namespace Paths

def Step.rename (ρ : Renaming) : Step → Step
  | .note m => .note m
  | .element e => .element (ρ .element e)
  | .attr a => .attr (ρ .attr a)
  | .stop f => .stop f

section Steps

theorem notedOr_rename (h : d.Rearranged ρ σ d') (watch : Watch) (n : Node)
    {steps steps' : List Step} (hsteps : steps' = steps.map (·.rename ρ)) :
    notedOr .note (sighting? watch d' (n.rename ρ)) steps' =
      (notedOr .note (sighting? watch d n) steps).map (·.rename ρ) := by
  rw [sighting?_rename h, hsteps]
  cases sighting? watch d n <;> rfl

theorem attrSteps_rename (h : d.Rearranged ρ σ d') (watch : Watch) (a : AttributeId) :
    attrSteps d' watch (ρ .attr a) = (attrSteps d watch a).map (·.rename ρ) :=
  notedOr_rename h watch (.attr a) rfl

theorem kindSteps_rename (ρ : Renaming) (n : Node) :
    kindSteps (n.rename ρ) = (kindSteps n).map (·.rename ρ) := by
  rw [kindSteps, kindSteps, kindFailure?_rename, List.map_map]
  rfl

variable {watch : Watch} {opened opened' : Node → List Step}

theorem flatMap_opened (hopened : ∀ n, opened' (n.rename ρ) = (opened n).map (·.rename ρ))
    (o : Option Node) :
    (o.map (·.rename ρ)).toList.flatMap opened' =
      (o.toList.flatMap opened).map (·.rename ρ) := by
  cases o with
  | none => rfl
  | some n => simp only [Option.map_some, Option.toList_some, List.flatMap_singleton, hopened]

theorem typeSteps_rename (h : d.Rearranged ρ σ d')
    (hopened : ∀ n, opened' (n.rename ρ) = (opened n).map (·.rename ρ)) (c : ComplexType) :
    typeSteps d' watch opened' (c.rename ρ) = (typeSteps d watch opened c).map (·.rename ρ) := by
  have huses : (c.rename ρ).uses.flatMap (attrSteps d' watch) =
      (c.uses.flatMap (attrSteps d watch)).map (·.rename ρ) := by
    rw [ComplexType.rename, List.flatMap_map, List.map_flatMap]
    exact List.flatMap_congr fun a _ => attrSteps_rename h watch a
  rw [typeSteps, typeSteps, inner_rename, flatMap_opened hopened, huses, List.map_append]

theorem groupSteps_rename (h : s.Rearranged ρ σ s')
    (hopened : ∀ n, opened' (n.rename ρ) = (opened n).map (·.rename ρ)) (q : QName) :
    groupSteps s' opened' q = (groupSteps s opened q).map (·.rename ρ) := by
  rw [groupSteps, groupSteps, h.group?]
  cases s.group? q with
  | none => rfl
  | some g =>
    have hgroup := h.declared.group g
    rw [Option.map_some]
    dsimp only
    rw [hgroup]
    exact flatMap_opened hopened (s.declared.group g).particle

mutual

theorem nodeSteps_rename (h : s.Rearranged ρ σ s')
    (hopened : ∀ n, opened' (n.rename ρ) = (opened n).map (·.rename ρ)) : ∀ n : Node,
    nodeSteps s' watch opened' (n.rename ρ) = (nodeSteps s watch opened n).map (·.rename ρ)
  | .sequence i c o items =>
    notedOr_rename h.declared watch (.sequence i c o items) (listSteps_rename h hopened items)
  | .choice i o items =>
    notedOr_rename h.declared watch (.choice i o items) (listSteps_rename h hopened items)
  | .element e => notedOr_rename h.declared watch (.element e) rfl
  | .attr a => attrSteps_rename h.declared watch a
  | .type (.simple r) => notedOr_rename h.declared watch (.type (.simple r)) rfl
  | .type (.complex r) => notedOr_rename h.declared watch (.type (.complex r)) <| by
    rw [h.declared.complex, typeSteps_rename h.declared hopened]
  | .any i w => notedOr_rename h.declared watch (.any i w) rfl
  | .groupRef q o =>
    notedOr_rename h.declared watch (.groupRef q o) (groupSteps_rename h hopened q)
  | .content simple p =>
    notedOr_rename h.declared watch (.content simple p) (kindSteps_rename ρ (.content simple p))
  | .derivation k p =>
    notedOr_rename h.declared watch (.derivation k p) (kindSteps_rename ρ (.derivation k p))
  | .group g => notedOr_rename h.declared watch (.group g) (kindSteps_rename ρ (.group g))
  | .unknown kind family =>
    notedOr_rename h.declared watch (.unknown kind family)
      (kindSteps_rename ρ (.unknown kind family))

theorem listSteps_rename (h : s.Rearranged ρ σ s')
    (hopened : ∀ n, opened' (n.rename ρ) = (opened n).map (·.rename ρ)) : ∀ ns : List Node,
    listSteps s' watch opened' (Node.renameAll ρ ns) =
      (listSteps s watch opened ns).map (·.rename ρ)
  | [] => rfl
  | n :: ns => by
    rw [Node.renameAll, listSteps, listSteps, nodeSteps_rename h hopened n,
      listSteps_rename h hopened ns, List.map_append]

end

theorem stepsFrom_rename (h : s.Rearranged ρ σ s') (watch : Watch) (fuel : Nat) (n : Node) :
    stepsFrom s' watch fuel (n.rename ρ) = (stepsFrom s watch fuel n).map (·.rename ρ) := by
  induction fuel generalizing n with
  | zero => rfl
  | succ fuel ih => exact nodeSteps_rename h ih n

theorem steps_rename (h : s.Rearranged ρ σ s') (watch : Watch) (n : Node) :
    steps s' watch (n.rename ρ) = (steps s watch n).map (·.rename ρ) := by
  rw [steps, steps, openingBound_rearranged h.declared, stepsFrom_rename h]

end Steps

/-! ## The walk -/

section Visits

theorem emitElement_rename (h : d.Rearranged ρ σ d') (r : Request) (occurs : Occurs) (e : Element)
    (t : TypeRef) :
    emitElement d' r occurs (e.rename ρ) (t.rename ρ) = emitElement d r occurs e t := by
  have htext : typeText d' (t.rename ρ) = typeText d t := by
    rw [typeText, typeText, h.typeCode, h.typeName]
  rw [emitElement, emitElement, htext]
  rfl

variable (h : s.Rearranged ρ σ s')
include h

theorem visitAttribute_rename (r : Request) (a : AttributeId) :
    visitAttribute s' r (ρ .attr a) = visitAttribute s r a := by
  have hmeant (k : Attribute → Visit Unit) (hk : ∀ a : Attribute, k (a.rename ρ) = k a) :
      (attributeMeant s' ((s.declared.attr a).rename ρ) >>= k) =
        attributeMeant s (s.declared.attr a) >>= k := by
    have href : ((s.declared.attr a).rename ρ).ref = (s.declared.attr a).ref := rfl
    rw [attributeMeant, attributeMeant, href]
    cases (s.declared.attr a).ref with
    | none => exact hk _
    | some q =>
      dsimp only
      rw [h.attr?]
      cases s.attr? q with
      | none => rfl
      | some i =>
        dsimp only [Option.map_some]
        rw [h.declared.attr, pure_bind, pure_bind, hk]
  unfold visitAttribute
  dsimp only
  rw [h.declared.attr]
  exact hmeant _ fun _ => rfl

theorem perform_rename (r : Request) {visit visit' : ElementId → Visit Unit}
    (hvisit : ∀ e, visit' (ρ .element e) = visit e) (step : Step) :
    perform s' r visit' (step.rename ρ) = perform s r visit step := by
  cases step with
  | note m => rfl
  | element e => exact hvisit e
  | attr a => exact visitAttribute_rename h r a
  | stop f => rfl

theorem forM_perform_rename (r : Request) {visit visit' : ElementId → Visit Unit}
    (hvisit : ∀ e, visit' (ρ .element e) = visit e) (n : Node) :
    (steps s' r.watch (n.rename ρ)).forM (perform s' r visit') =
      (steps s r.watch n).forM (perform s r visit) := by
  rw [steps_rename h]
  induction steps s r.watch n with
  | nil => rfl
  | cons step steps ih =>
    change (perform s' r visit' (step.rename ρ) >>= fun _ => _) = perform s r visit step >>= fun _ => _
    rw [perform_rename h r hvisit, ih]

theorem visitFrom_rename (r : Request) (fuel : Nat) (i : ElementId) :
    visitFrom s' r fuel (ρ .element i) = visitFrom s r fuel i := by
  induction fuel generalizing i with
  | zero => rfl
  | succ fuel ih =>
    have hmeant (k k' : Element → Visit Unit) (hk : ∀ e : Element, k' (e.rename ρ) = k e) :
        (elementMeant s' ((s.declared.element i).rename ρ) >>= k') =
          elementMeant s (s.declared.element i) >>= k := by
      have href : ((s.declared.element i).rename ρ).ref = (s.declared.element i).ref := rfl
      rw [elementMeant, elementMeant, href]
      cases (s.declared.element i).ref with
      | none => exact hk _
      | some q =>
        dsimp only
        rw [h.element?]
        cases s.element? q with
        | none => rfl
        | some j =>
          dsimp only [Option.map_some]
          rw [h.declared.element, pure_bind, pure_bind, hk]
    have htypes (t : TypeRef) := forM_perform_rename h r ih (.type t)
    simp only [Node.rename] at htypes
    unfold visitFrom
    dsimp only
    rw [h.declared.element]
    refine hmeant _ _ fun e => ?_
    have hname : (e.rename ρ).name = e.name := rfl
    have hinline : (e.rename ρ).inline = e.inline.map (·.rename ρ) := rfl
    have htype : (e.rename ρ).type = e.type.map (·.rename ρ) := rfl
    have hoccurs : ((s.declared.element i).rename ρ).occurs = (s.declared.element i).occurs := rfl
    rw [hname, hinline, htype, hoccurs]
    cases e.inline with
    | some t => simp only [Option.map_some, htypes]
    | none =>
      cases e.type with
      | some t => simp only [Option.map_some, Option.map_none, htypes, emitElement_rename h.declared]
      | none => rfl

/-- An export does not show where declarations stand. -/
theorem fromRoot_rename (r : Request) (n : Node) : fromRoot s' r (n.rename ρ) = fromRoot s r n := by
  have hsize : s'.declared.elements.size = s.declared.elements.size :=
    congrArg Extent.elements h.declared.extent
  have hvisit (e : ElementId) : visitElement s' r (ρ .element e) = visitElement s r e := by
    rw [visitElement, visitElement, hsize, visitFrom_rename h]
  have hroot : visitRoot s' r (n.rename ρ) = visitRoot s r n := by
    rw [visitRoot, visitRoot, visit, visit, forM_perform_rename h r hvisit]
  rw [fromRoot, fromRoot, hroot]

end Visits

end Paths

/-! ## Roots -/

namespace Root

def rename (ρ : Renaming) : Root → Root
  | .element e => .element (ρ .element e)
  | .type t => .type (t.rename ρ)

variable (h : s.Rearranged ρ σ s')
include h

/-- A name means the same root, wherever it stands. -/
theorem find_rearranged (name : String) :
    find s' name = (find s name).map fun found => (found.1.rename ρ, found.2) := by
  rw [find, find]
  cases Text.cutLast? ':' name with
  | some p =>
    have hqualified : qualified? s' p.1 p.2 = (qualified? s p.1 p.2).map (·.rename ρ) := by
      rw [qualified?, qualified?, h.prefixes, h.type?]
      cases s.type? _ with
      | some t => rfl
      | none =>
        dsimp only [Option.map_none]
        rw [h.element?, Option.map_map, Option.map_map]
        rfl
    dsimp only
    rw [hqualified]
    cases qualified? s p.1 p.2 <;> rfl
  | none =>
    have hunqualified : unqualified? s' name =
        (unqualified? s name).map fun found => (found.1, ρ .element found.2) := by
      rw [unqualified?, unqualified?, h.namespaces]
      induction s.namespaces with
      | nil => rfl
      | cons space spaces ih =>
        rw [List.findSome?_cons, List.findSome?_cons, h.element?]
        cases s.element? ⟨space, some name⟩ with
        | none => exact ih
        | some e => rfl
    dsimp only
    rw [hunqualified]
    cases unqualified? s name <;> rfl

end Root
end Export
end SchemaPaths
