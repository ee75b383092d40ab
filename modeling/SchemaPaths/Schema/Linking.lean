/-
Linking: what declarations mean to each other.

Every type gets its base, every complex type its content with the content of its base in front and
every group written out, and its attributes with those of its base; every element and attribute gets
its type.  Whatever is not declared, and whatever derives from or contains itself, is an error.

Linking works through the declarations in their order and keeps what it found out before an error.
The tables it looks names up in do not change meanwhile, so nothing has to be settled twice: a run
keeps an account of what is linked already.
-/
import SchemaPaths.Schema.SchemaSet

namespace SchemaPaths
namespace Schema
namespace Linking

/-- How far a run has come: the declarations, the types that are linked, the contents of the groups
that are written out, and the elements whose heads are known to come to an end. -/
structure Progress where
  declared : Declarations
  simple : List SimpleId := []
  complex : List ComplexId := []
  contents : List (GroupId × Option Node) := []
  headed : List ElementId := []

/-- A step of linking keeps what it has found out when it fails. -/
abbrev Link := ExceptT Failure (StateM Progress)

def lift {α : Type} (r : Except Failure α) : Link α :=
  match r with
  | .ok a => pure a
  | .error e => throw e

def declared : Link Declarations := return (← get).declared

def modifyDeclared (f : Declarations → Declarations) : Link Unit :=
  modify fun p => { p with declared := f p.declared }

/-! ## Groups -/

/-- Whether what became of the items of a particle are these items themselves. -/
def unchanged (items expanded : List Node) : Bool :=
  expanded.length == items.length && (expanded.zip items).all fun p => p.1.is p.2

mutual

/-- A particle with every reference to a group replaced by what the reference stands for.  Elements
and wildcards are kept as they are, and so is a sequence or a choice in which nothing is replaced;
any other is copied. -/
def expandWith (resolve : QName → Link (Option Node)) : Node → Link (Option Node)
  | .groupRef q _ => resolve q
  | .sequence i c o items => do
    let expanded ← expandItems resolve items
    if unchanged items expanded then return some (.sequence i c o items)
    return some (.sequence (.copy i) c o expanded)
  | .choice i o items => do
    let expanded ← expandItems resolve items
    if unchanged items expanded then return some (.choice i o items)
    return some (.choice (.copy i) o expanded)
  | n => return some n

def expandItems (resolve : QName → Link (Option Node)) : List Node → Link (List Node)
  | [] => return []
  | n :: ns => do
    let first ← expandWith resolve n
    let rest ← expandItems resolve ns
    return first.toList ++ rest

end

def expandOption (resolve : QName → Link (Option Node)) : Option Node → Link (Option Node)
  | none => return none
  | some p => expandWith resolve p

/-- Fails at something that is met again while it is worked on. -/
def refuseAgain (met : List Nat) (i : Nat) (problem : LoadProblem) : Link Unit :=
  if met.contains i then throw (.load problem) else pure ()

/-- The content of a group, written out once.  `outer` holds the groups that this one is written
out for; meeting one of them again is an error, so there are never more of them than groups. -/
def groupContent (s : SchemaSet) : Nat → List GroupId → GroupId → Link (Option Node)
  | 0, _, _ => throw .endless
  | fuel + 1, outer, g => do
    match (← get).contents.lookup g with
    | some content => return content
    | none =>
      let group := s.declared.group g
      refuseAgain outer g (.circularGroup group.name)
      let content ← expandOption
        (fun q => do groupContent s fuel (g :: outer) (← lift (s.group q))) group.particle
      modify fun p => { p with contents := (g, content) :: p.contents }
      return content

def expandGroup (s : SchemaSet) (g : GroupId) : Link (Option Node) :=
  groupContent s (s.declared.groups.size + 1) [] g

def expand (s : SchemaSet) : Option Node → Link (Option Node) :=
  expandOption fun q => do expandGroup s (← lift (s.group q))

/-! ## Simple types -/

def setSimpleBase (i : SimpleId) (r : SimpleRef) : Link Unit :=
  modifyDeclared fun d => d.modifySimpleType i fun t => { t with base := some r }

/-- Gives a type the base that it names, if that is simple and the type has none written in it. -/
def nameSimpleBase (s : SchemaSet) (i : SimpleId) : Link Unit := do
  let t := (← declared).simpleType i
  match t.base, t.baseName with
  | none, some q =>
    match ← lift (s.type q) with
    | .simple r => setSimpleBase i r
    | .complex _ => pure ()
  | _, _ => pure ()

/-- Goes on to the base of a type, when that is declared too. -/
def onSimpleBase (i : SimpleId) (go : SimpleId → Link Unit) : Link Unit := do
  match ((← declared).simpleType i).base with
  | some (.declared j) => go j
  | _ => pure ()

/-- Looks a type up only to see that it is there. -/
def seeType (s : SchemaSet) : Option QName → Link Unit
  | some q => do let _ ← lift (s.type q)
  | none => pure ()

def simpleTypeFrom (s : SchemaSet) : Nat → List SimpleId → SimpleId → Link Unit
  | 0, _, _ => throw .endless
  | fuel + 1, derived, i => do
    if (← get).simple.contains i then return
    let t := (← declared).simpleType i
    refuseAgain derived i (.circularType t.name)
    nameSimpleBase s i
    onSimpleBase i fun j => simpleTypeFrom s fuel (i :: derived) j
    seeType s t.itemName
    modify fun p => { p with simple := i :: p.simple }

def simpleType (s : SchemaSet) (i : SimpleId) : Link Unit := do
  simpleTypeFrom s ((← declared).simpleTypes.size + 1) [] i

/-! ## Attributes of complex types -/

/-- The attributes of groups and of the groups they refer to, each group once and before what it
refers to.  Every group is opened at most once, so the references of all groups bound the work. -/
def attributesOfGroups (s : SchemaSet) :
    Nat → List QName → List QName → Except Failure (List AttributeId)
  | 0, _, _ => .error .endless
  | _ + 1, _, [] => .ok []
  | fuel + 1, seen, q :: qs =>
    if seen.contains q then attributesOfGroups s fuel seen qs
    else do
      let g := s.declared.attributeGroup (← s.attributeGroup q)
      let rest ← attributesOfGroups s fuel (q :: seen) (g.attributeGroups ++ qs)
      return g.attributes ++ rest

def groupReferenceCount (d : Declarations) : Nat :=
  d.attributeGroups.foldl (fun n g => n + g.attributeGroups.length) 0

def attributesOfGroup (s : SchemaSet) (q : QName) : Except Failure (List AttributeId) :=
  attributesOfGroups s (groupReferenceCount s.declared + 2) [] [q]

/-- What an attribute goes by among the attributes of a type. -/
def useKey (a : Attribute) : Option String :=
  match a.ref with
  | some q => some q.text
  | none => a.name

abbrev Uses := List (Option String × AttributeId)

def putUse (key : Option String) (a : AttributeId) : Uses → Uses
  | [] => [(key, a)]
  | (k, b) :: us => if k == key then (k, a) :: us else (k, b) :: putUse key a us

/-- A later attribute takes the place of an earlier one of its key, and a prohibited one removes
it. -/
def addUse (d : Declarations) (us : Uses) (a : AttributeId) : Uses :=
  let key := useKey (d.attr a)
  if (d.attr a).use == "prohibited" then us.filter fun u => u.1 != key
  else putUse key a us

/-- The attributes of a base, no two of one key, with those that a type adds to them. -/
def effectiveUses (d : Declarations) (before declared : List AttributeId) : List AttributeId :=
  (declared.foldl (addUse d) (before.map fun a => (useKey (d.attr a), a))).map (·.2)

def ownAttributes (t : ComplexType) : List AttributeId × List QName :=
  match t.model with
  | some m => (m.attributes, m.attributeGroups)
  | none => (t.attributes, t.attributeGroups)

def declaredUses (s : SchemaSet) (t : ComplexType) : Except Failure (List AttributeId) := do
  let (own, groups) := ownAttributes t
  let fromGroups ← groups.mapM (attributesOfGroup s)
  return own ++ fromGroups.flatten

/-! ## Complex types -/

def modifyComplex (i : ComplexId) (f : ComplexType → ComplexType) : Link Unit :=
  modifyDeclared fun d => d.modifyComplexType i f

/-- What a type takes over from its base: a built-in base gives nothing. -/
def inherited (d : Declarations) : TypeRef → Option ComplexType
  | .complex (.declared j) => some (d.complexType j)
  | _ => none

/-- What a type puts its own content behind: only an extension goes on from its base. -/
def extended (t : ComplexType) (base : Option ComplexType) : Option Node :=
  if t.model.any fun m => m.derivation.isExtension then base.bind (·.content) else none

/-- The content of a base with that of the type `i` behind it. -/
def joined (i : ComplexId) : Option Node → Option Node → Option Node
  | some b, some p => some (.sequence (.joined i) .sequence {} [b, p])
  | some b, none => some b
  | none, p => p

/-- A particle as content, where one without members counts as none. -/
def asContent (mixed : Bool) (whole : Option Node) : ContentType × Option Node :=
  if whole.any fun p => !p.items.isEmpty then (if mixed then .mixed else .elementOnly, whole)
  else (if mixed then .textOnly else .empty, none)

/-- The content of the type `i` from its base and from its own particle, written out. -/
def contentOf (i : ComplexId) (t : ComplexType) (base : Option ComplexType) (own : Option Node) :
    ContentType × Option Node :=
  match t.model with
  | some ⟨true, _, _, _, _, _, _⟩ => (.textOnly, none)
  | _ => asContent (t.mixed || t.model.any (·.mixed)) (joined i (extended t base) own)

/-- The base that a type names; a type without a content model comes from any type. -/
def complexBase (s : SchemaSet) (t : ComplexType) : Link TypeRef :=
  match t.model with
  | none => pure anyType
  | some m =>
    match m.base with
    | none => throw .missingPart
    | some q => lift (s.type q)

def onComplexBase (base : TypeRef) (go : ComplexId → Link Unit) : Link Unit :=
  match base with
  | .complex (.declared j) => go j
  | _ => pure ()

def ownParticle (t : ComplexType) : Option Node :=
  match t.model with
  | some m => m.particle
  | none => t.particle

/-- Fills in what a type is, once its base is linked. -/
def fillComplex (s : SchemaSet) (i : ComplexId) (t : ComplexType) (base : TypeRef) : Link Unit := do
  modifyComplex i fun t => { t with base := some base }
  let own ← expand s (ownParticle t)
  let d ← declared
  let (contentType, content) := contentOf i t (inherited d base) own
  modifyComplex i fun t => { t with contentType, content }
  let added ← lift (declaredUses s t)
  let before := ((inherited d base).map (·.uses)).getD []
  modifyComplex i fun t => { t with uses := effectiveUses d before added }

def complexTypeFrom (s : SchemaSet) : Nat → List ComplexId → ComplexId → Link Unit
  | 0, _, _ => throw .endless
  | fuel + 1, derived, i => do
    if (← get).complex.contains i then return
    let t := (← declared).complexType i
    refuseAgain derived i (.circularType t.name)
    let base ← complexBase s t
    onComplexBase base fun j => complexTypeFrom s fuel (i :: derived) j
    fillComplex s i t base
    modify fun p => { p with complex := i :: p.complex }

def complexType (s : SchemaSet) (i : ComplexId) : Link Unit := do
  complexTypeFrom s ((← declared).complexTypes.size + 1) [] i

/-! ## Attributes and elements -/

def setAttributeType (i : AttributeId) (r : TypeRef) : Link Unit :=
  modifyDeclared fun d => d.modifyAttribute i fun a => { a with type := some r }

/-- The type of an attribute: written in it, named by it, or any simple type. -/
def attributeType (s : SchemaSet) (a : Attribute) : Link TypeRef :=
  match a.inline, a.typeName with
  | some t, _ => pure (.simple (.declared t))
  | none, some q => lift (s.type q)
  | none, none => pure (.simple (.builtin Builtin.anySimple))

def attr (s : SchemaSet) (i : AttributeId) : Link Unit := do
  let a := (← declared).attr i
  match a.ref with
  | some q => let _ ← lift (s.attr q)
  | none => setAttributeType i (← attributeType s a)

/-- Follows the heads of substitution groups, those in `seen` already, and fails when one comes
back. -/
def checkHeads (s : SchemaSet) : Nat → List ElementId → ElementId → Link Unit
  | 0, _, _ => throw .endless
  | fuel + 1, seen, i => do
    let e := s.declared.element i
    match if (← get).headed.contains i then none else e.substitution with
    | none => modify fun p => { p with headed := seen ++ p.headed }
    | some q =>
      if seen.contains i then throw (.load (.circularSubstitution e.name))
      else checkHeads s fuel (i :: seen) (← lift (s.element q))

def setElementType (i : ElementId) (r : Option TypeRef) : Link Unit :=
  modifyDeclared fun d => d.modifyElement i fun e => { e with type := r }

/-- The head of the substitution group of an element, once its heads are known to come to an end. -/
def headOf (s : SchemaSet) (i : ElementId) : Option QName → Link (Option ElementId)
  | none => pure none
  | some q => do
    checkHeads s (s.declared.elements.size + 1) [] i
    return some (← lift (s.element q))

/-- The type of an element: written in it, named by it, that of the head of its substitution group,
or any type.  An element that has its type already keeps it. -/
def elementFrom (s : SchemaSet) : Nat → ElementId → Link Unit
  | 0, _ => throw .endless
  | fuel + 1, i => do
    let e := (← declared).element i
    if e.type.isSome then return
    match e.ref with
    | some q => let _ ← lift (s.element q)
    | none =>
      let head ← headOf s i e.substitution
      match e.inline, e.typeName, head with
      | some r, _, _ => setElementType i (some r)
      | none, some q, _ => setElementType i (some (← lift (s.type q)))
      | none, none, some h =>
        if h == i then setElementType i (some anyType)
        else
          elementFrom s fuel h
          setElementType i ((← declared).element h).type
      | none, none, none => setElementType i (some anyType)

def element (s : SchemaSet) (i : ElementId) : Link Unit := do
  elementFrom s ((← declared).elements.size + 1) i

/-! ## The whole set -/

def places {α : Type} (a : Array α) : List Nat := List.range a.size

def all (s : SchemaSet) : Link Unit := do
  let d := s.declared
  (places d.simpleTypes).forM (simpleType s)
  (places d.complexTypes).forM (complexType s)
  (places d.attributes).forM (attr s)
  (places d.elements).forM (element s)
  s.groups.forM fun (_, g) => do let _ ← expandGroup s g

end Linking

/-- The set with its declarations linked as far as linking came, and why it stopped, if it did. -/
def SchemaSet.link (s : SchemaSet) : SchemaSet × Except Failure Unit :=
  let (outcome, p) := (Linking.all s).run.run { declared := s.declared }
  ({ s with declared := p.declared }, outcome)

end Schema
end SchemaPaths
