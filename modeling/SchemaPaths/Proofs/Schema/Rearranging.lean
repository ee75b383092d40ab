/-
Declarations in other places.

The same declarations stand in other places when what declares them stands in another order.  Two
renamings, each the inverse of the other, say where each of them has gone and where it was, and
whatever a declaration refers to is renamed along.  Declarations of two kinds of order can be put
behind each other, and what stands behind can be put in front.
-/
import SchemaPaths.Proofs.Schema.Moving

namespace SchemaPaths
namespace Schema

open Renaming

/-! ## Declarations behind others, one by one -/

namespace Declarations

section Append

variable (x e : Declarations)

theorem getD_append_map {α : Type} (a b : Array α) (f : α → α) {fill : α} (hf : f fill = fill)
    (i : Nat) : (a ++ b.map f).getD i fill =
      if i < a.size then a.getD i fill else f (b.getD (i - a.size) fill) := by
  simp only [Array.getD_eq_getD_getElem?, Array.getElem?_append]
  split
  · rfl
  · rw [Array.getElem?_map]
    cases b[i - a.size]? with
    | none => exact hf.symm
    | some v => rfl

theorem element_append (i : ElementId) : (x ++ e).element i =
    if i < x.extent.count .element then x.element i
    else (e.element (i - x.extent.count .element)).rename x.shift := getD_append_map _ _ _ rfl i

theorem attr_append (i : AttributeId) : (x ++ e).attr i =
    if i < x.extent.count .attr then x.attr i
    else (e.attr (i - x.extent.count .attr)).rename x.shift := getD_append_map _ _ _ rfl i

theorem simpleType_append (i : SimpleId) : (x ++ e).simpleType i =
    if i < x.extent.count .simple then x.simpleType i
    else (e.simpleType (i - x.extent.count .simple)).rename x.shift := getD_append_map _ _ _ rfl i

theorem complexType_append (i : ComplexId) : (x ++ e).complexType i =
    if i < x.extent.count .complex then x.complexType i
    else (e.complexType (i - x.extent.count .complex)).rename x.shift := getD_append_map _ _ _ rfl i

theorem group_append (i : GroupId) : (x ++ e).group i =
    if i < x.extent.count .group then x.group i
    else (e.group (i - x.extent.count .group)).rename x.shift := getD_append_map _ _ _ rfl i

theorem attributeGroup_append (i : AttributeGroupId) : (x ++ e).attributeGroup i =
    if i < x.extent.count .attributeGroup then x.attributeGroup i
    else (e.attributeGroup (i - x.extent.count .attributeGroup)).rename x.shift :=
  getD_append_map _ _ _ rfl i

theorem shift_append : (x ++ e).shift = x.shift.after e.shift := by
  funext k i
  rw [shift, count_append, after, shift, shift, Nat.add_assoc]

theorem append_assoc (y : Declarations) : x ++ e ++ y = x ++ (e ++ y) := by
  have hshift := shift_append x e
  simp only [append_def, append] at hshift ⊢
  simp only [hshift, Array.map_append, Array.append_assoc, Array.map_map, Function.comp_def,
    Nat.add_assoc, Element.rename_rename, Attribute.rename_rename, SimpleType.rename_rename,
    ComplexType.rename_rename, Group.rename_rename, AttributeGroup.rename_rename]

end Append

theorem extent_eq {x y : Extent} (h : ∀ k, x.count k = y.count k) : x = y := by
  cases x
  cases y
  exact Extent.mk.injEq .. ▸ ⟨h .element, h .attr, h .simple, h .complex, h .group,
    h .attributeGroup, h .particle⟩

/-! ## Rearranged declarations -/

/-- The declarations of `d` are those of `d'`, where `ρ` says they have gone and from where `σ` says
they have come. -/
structure Rearranged (ρ σ : Renaming) (d d' : Declarations) : Prop where
  back : σ.after ρ = same
  forth : ρ.after σ = same
  extent : d'.extent = d.extent
  within : ∀ k i, ρ k i < d.extent.count k ↔ i < d.extent.count k
  element : ∀ i, d'.element (ρ .element i) = (d.element i).rename ρ
  attr : ∀ i, d'.attr (ρ .attr i) = (d.attr i).rename ρ
  simpleType : ∀ i, d'.simpleType (ρ .simple i) = (d.simpleType i).rename ρ
  complexType : ∀ i, d'.complexType (ρ .complex i) = (d.complexType i).rename ρ
  group : ∀ i, d'.group (ρ .group i) = (d.group i).rename ρ
  attributeGroup : ∀ i,
    d'.attributeGroup (ρ .attributeGroup i) = (d.attributeGroup i).rename ρ

namespace Rearranged

theorem refl (d : Declarations) : Rearranged same same d d where
  back := rfl
  forth := rfl
  extent := rfl
  within _ _ := Iff.rfl
  element _ := (Element.rename_same _).symm
  attr _ := (Attribute.rename_same _).symm
  simpleType _ := (SimpleType.rename_same _).symm
  complexType _ := (ComplexType.rename_same _).symm
  group _ := (Group.rename_same _).symm
  attributeGroup _ := (AttributeGroup.rename_same _).symm

variable {ρ σ τ υ : Renaming} {d d' d'' e e' : Declarations}

theorem back_apply (h : Rearranged ρ σ d d') (k : Family) (i : Nat) : σ k (ρ k i) = i :=
  congrFun (congrFun h.back k) i

theorem forth_apply (h : Rearranged ρ σ d d') (k : Family) (i : Nat) : ρ k (σ k i) = i :=
  congrFun (congrFun h.forth k) i

theorem lt_iff (h : Rearranged ρ σ d d') (k : Family) (i : Nat) :
    ρ k i < d'.extent.count k ↔ i < d.extent.count k := by
  rw [h.extent]
  exact h.within k i

/-- What is found at a place, back at the place that it came from. -/
theorem get_symm {α : Type} {rename : Renaming → α → α} (hsame : ∀ a, rename same a = a)
    (hafter : ∀ σ ρ a, rename σ (rename ρ a) = rename (σ.after ρ) a) {k : Family}
    {get get' : Nat → α} (h : Rearranged ρ σ d d') (hget : ∀ i, get' (ρ k i) = rename ρ (get i))
    (j : Nat) : get (σ k j) = rename σ (get' j) := by
  have hj := hget (σ k j)
  rw [h.forth_apply] at hj
  rw [hj, hafter, h.back, hsame]

theorem symm (h : Rearranged ρ σ d d') : Rearranged σ ρ d' d where
  back := h.forth
  forth := h.back
  extent := h.extent.symm
  within k i := by rw [h.extent, ← h.within, h.forth_apply]
  element := h.get_symm Element.rename_same Element.rename_rename h.element
  attr := h.get_symm Attribute.rename_same Attribute.rename_rename h.attr
  simpleType := h.get_symm SimpleType.rename_same SimpleType.rename_rename h.simpleType
  complexType := h.get_symm ComplexType.rename_same ComplexType.rename_rename h.complexType
  group := h.get_symm Group.rename_same Group.rename_rename h.group
  attributeGroup :=
    h.get_symm AttributeGroup.rename_same AttributeGroup.rename_rename h.attributeGroup

theorem trans (h : Rearranged ρ σ d d') (h' : Rearranged τ υ d' d'') :
    Rearranged (τ.after ρ) (σ.after υ) d d'' where
  back := by
    funext k i
    rw [after, after, after, h'.back_apply, h.back_apply, same]
  forth := by
    funext k i
    rw [after, after, after, h.forth_apply, h'.forth_apply, same]
  extent := h'.extent.trans h.extent
  within k i := by rw [after, ← h.extent, h'.within, h.extent, h.within]
  element i := by rw [after, h'.element, h.element, Element.rename_rename]
  attr i := by rw [after, h'.attr, h.attr, Attribute.rename_rename]
  simpleType i := by rw [after, h'.simpleType, h.simpleType, SimpleType.rename_rename]
  complexType i := by rw [after, h'.complexType, h.complexType, ComplexType.rename_rename]
  group i := by rw [after, h'.group, h.group, Group.rename_rename]
  attributeGroup i := by
    rw [after, h'.attributeGroup, h.attributeGroup, AttributeGroup.rename_rename]

theorem typeName (h : Rearranged ρ σ d d') (t : TypeRef) :
    d'.typeName (t.rename ρ) = d.typeName t := by
  match t with
  | .simple (.builtin _) => rfl
  | .simple (.declared i) => exact (congrArg SimpleType.name (h.simpleType i) :)
  | .complex .anyType => rfl
  | .complex (.declared i) => exact (congrArg ComplexType.name (h.complexType i) :)

end Rearranged

/-! ### Declarations behind each other -/

/-- One renaming for the declarations in front, another for those behind. -/
def beside (x : Declarations) (ρ τ : Renaming) : Renaming := fun k i =>
  if i < x.extent.count k then ρ k i else x.extent.count k + τ k (i - x.extent.count k)

/-- What stands in front goes behind what stood behind it. -/
def swapped (p q : Declarations) : Renaming := fun k i =>
  if i < p.extent.count k then q.extent.count k + i
  else if i < p.extent.count k + q.extent.count k then i - p.extent.count k
  else i

section Append

variable {x e : Declarations} {B α β : Renaming}

/-- A renaming of declarations that stand behind each other is one of those in front and one of
those behind. -/
structure Splits (x e : Declarations) (B α β : Renaming) : Prop where
  closed : x.Closed
  behind : e.Closed
  front : Agree x.extent B α
  rest : Agree e.extent (B.after x.shift) β

theorem Splits.element (h : Splits x e B α β) (i : ElementId) :
    ((x ++ e).element i).rename B =
      if i < x.extent.count .element then (x.element i).rename α
      else (e.element (i - x.extent.count .element)).rename β := by
  rw [element_append]
  split
  · exact Element.rename_congr h.front (h.closed.element i)
  · rw [Element.rename_rename]
    exact Element.rename_congr h.rest (h.behind.element _)

theorem Splits.attr (h : Splits x e B α β) (i : AttributeId) :
    ((x ++ e).attr i).rename B =
      if i < x.extent.count .attr then (x.attr i).rename α
      else (e.attr (i - x.extent.count .attr)).rename β := by
  rw [attr_append]
  split
  · exact Attribute.rename_congr h.front (h.closed.attr i)
  · rw [Attribute.rename_rename]
    exact Attribute.rename_congr h.rest (h.behind.attr _)

theorem Splits.simpleType (h : Splits x e B α β) (i : SimpleId) :
    ((x ++ e).simpleType i).rename B =
      if i < x.extent.count .simple then (x.simpleType i).rename α
      else (e.simpleType (i - x.extent.count .simple)).rename β := by
  rw [simpleType_append]
  split
  · exact SimpleType.rename_congr h.front (h.closed.simpleType i)
  · rw [SimpleType.rename_rename]
    exact SimpleType.rename_congr h.rest (h.behind.simpleType _)

theorem Splits.complexType (h : Splits x e B α β) (i : ComplexId) :
    ((x ++ e).complexType i).rename B =
      if i < x.extent.count .complex then (x.complexType i).rename α
      else (e.complexType (i - x.extent.count .complex)).rename β := by
  rw [complexType_append]
  split
  · exact ComplexType.rename_congr h.front (h.closed.complexType i)
  · rw [ComplexType.rename_rename]
    exact ComplexType.rename_congr h.rest (h.behind.complexType _)

theorem Splits.group (h : Splits x e B α β) (i : GroupId) :
    ((x ++ e).group i).rename B =
      if i < x.extent.count .group then (x.group i).rename α
      else (e.group (i - x.extent.count .group)).rename β := by
  rw [group_append]
  split
  · exact Group.rename_congr h.front (h.closed.group i)
  · rw [Group.rename_rename]
    exact Group.rename_congr h.rest (h.behind.group _)

theorem Splits.attributeGroup (h : Splits x e B α β) (i : AttributeGroupId) :
    ((x ++ e).attributeGroup i).rename B =
      if i < x.extent.count .attributeGroup then (x.attributeGroup i).rename α
      else (e.attributeGroup (i - x.extent.count .attributeGroup)).rename β := by
  rw [attributeGroup_append]
  split
  · exact AttributeGroup.rename_congr h.front (h.closed.attributeGroup i)
  · rw [AttributeGroup.rename_rename]
    exact AttributeGroup.rename_congr h.rest (h.behind.attributeGroup _)

end Append

namespace Rearranged

section Beside

variable {ρ σ τ υ : Renaming} {d d' e e' : Declarations}

theorem beside_lt {x : Declarations} {k : Family} {i : Nat} (h : i < x.extent.count k) :
    beside x ρ τ k i = ρ k i := if_pos h

theorem beside_ge {x : Declarations} {k : Family} {i : Nat} (h : ¬ i < x.extent.count k) :
    beside x ρ τ k i = x.extent.count k + τ k (i - x.extent.count k) := if_neg h

theorem beside_inverse (h : Rearranged ρ σ d d') (h' : Rearranged τ υ e e') :
    (beside d' σ υ).after (beside d ρ τ) = same := by
  funext k i
  rw [after, same]
  by_cases hi : i < d.extent.count k
  · rw [beside_lt hi, beside_lt (h.extent ▸ (h.within k i).2 hi), h.back_apply]
  · rw [beside_ge hi, beside_ge (by rw [h.extent]; omega), h.extent, Nat.add_sub_cancel_left,
      h'.back_apply]
    omega

/-- What is found behind each other, one kind of declaration at a time. -/
theorem get_beside {α : Type} {rename : Renaming → α → α}
    (hafter : ∀ σ ρ a, rename σ (rename ρ a) = rename (σ.after ρ) a) {k : Family}
    {f f' g g' : Nat → α} (h : Rearranged ρ σ d d') (hf : ∀ i, f' (ρ k i) = rename ρ (f i))
    (hg : ∀ i, g' (τ k i) = rename τ (g i)) (i : Nat) :
    (if beside d ρ τ k i < d'.extent.count k then f' (beside d ρ τ k i)
      else rename d'.shift (g' (beside d ρ τ k i - d'.extent.count k))) =
      if i < d.extent.count k then rename ρ (f i)
      else rename (d'.shift.after τ) (g (i - d.extent.count k)) := by
  rw [h.extent]
  by_cases hi : i < d.extent.count k
  · rw [beside_lt hi, if_pos ((h.within k i).2 hi), if_pos hi, hf]
  · rw [beside_ge hi, if_neg (by omega), if_neg hi, Nat.add_sub_cancel_left, hg, hafter]

theorem splits_beside (h : Rearranged ρ σ d d') (hd : d.Closed) (he : e.Closed) :
    Splits d e (beside d ρ τ) ρ (d'.shift.after τ) where
  closed := hd
  behind := he
  front _ _ hi := beside_lt hi
  rest k i _ := by
    rw [after, shift, beside_ge (by omega), Nat.add_sub_cancel_left, after, shift, h.extent]

/-- What is rearranged in front and behind is rearranged. -/
theorem append (h : Rearranged ρ σ d d') (h' : Rearranged τ υ e e') (hd : d.Closed)
    (he : e.Closed) : Rearranged (beside d ρ τ) (beside d' σ υ) (d ++ e) (d' ++ e') := by
  have hsplits := h.splits_beside (τ := τ) hd he
  exact {
    back := h.beside_inverse h'
    forth := h.symm.beside_inverse h'.symm
    extent := extent_eq fun k => by rw [count_append, count_append, h.extent, h'.extent]
    within := fun k i => by
      rw [count_append]
      by_cases hi : i < d.extent.count k
      · have hlt := (h.within k i).2 hi
        rw [beside_lt hi]
        omega
      · have hlt := h'.within k (i - d.extent.count k)
        rw [beside_ge hi]
        omega
    element := fun i => by
      rw [hsplits.element, element_append]
      exact h.get_beside Element.rename_rename h.element h'.element i
    attr := fun i => by
      rw [hsplits.attr, attr_append]
      exact h.get_beside Attribute.rename_rename h.attr h'.attr i
    simpleType := fun i => by
      rw [hsplits.simpleType, simpleType_append]
      exact h.get_beside SimpleType.rename_rename h.simpleType h'.simpleType i
    complexType := fun i => by
      rw [hsplits.complexType, complexType_append]
      exact h.get_beside ComplexType.rename_rename h.complexType h'.complexType i
    group := fun i => by
      rw [hsplits.group, group_append]
      exact h.get_beside Group.rename_rename h.group h'.group i
    attributeGroup := fun i => by
      rw [hsplits.attributeGroup, attributeGroup_append]
      exact h.get_beside AttributeGroup.rename_rename h.attributeGroup h'.attributeGroup i }

end Beside

section Swapped

variable {p q : Declarations}

theorem swapped_front {k : Family} {i : Nat} (h : i < p.extent.count k) :
    swapped p q k i = q.extent.count k + i := if_pos h

theorem swapped_behind {k : Family} {i : Nat} (h : ¬ i < p.extent.count k)
    (h' : i < p.extent.count k + q.extent.count k) :
    swapped p q k i = i - p.extent.count k := (if_neg h).trans (if_pos h')

theorem swapped_beyond {k : Family} {i : Nat}
    (h : ¬ i < p.extent.count k + q.extent.count k) : swapped p q k i = i :=
  (if_neg (by omega)).trans (if_neg h)

theorem swapped_inverse (p q : Declarations) : (swapped q p).after (swapped p q) = same := by
  funext k i
  rw [after, same]
  by_cases hi : i < p.extent.count k
  · rw [swapped_front hi, swapped_behind (by omega) (by omega)]
    omega
  · by_cases hi' : i < p.extent.count k + q.extent.count k
    · rw [swapped_behind hi hi', swapped_front (by omega)]
      omega
    · rw [swapped_beyond hi', swapped_beyond (by omega)]

theorem get_swapped {α : Type} {rename : Renaming → α → α} (hsame : ∀ a, rename same a = a)
    {k : Family} {f g : Nat → α} {fill : α} (hfill : rename q.shift fill = fill)
    (hf : ∀ i, p.extent.count k ≤ i → f i = fill) (hg : ∀ i, q.extent.count k ≤ i → g i = fill)
    (i : Nat) :
    (if swapped p q k i < q.extent.count k then g (swapped p q k i)
      else rename q.shift (f (swapped p q k i - q.extent.count k))) =
      if i < p.extent.count k then rename q.shift (f i)
      else rename same (g (i - p.extent.count k)) := by
  by_cases hi : i < p.extent.count k
  · rw [swapped_front hi, if_neg (by omega), if_pos hi, Nat.add_sub_cancel_left]
  · rw [if_neg hi, hsame]
    by_cases hi' : i < p.extent.count k + q.extent.count k
    · rw [swapped_behind hi hi', if_pos (by omega)]
    · rw [swapped_beyond hi', if_neg (by omega), hf _ (by omega), hg _ (by omega), hfill]

theorem splits_swapped (hp : p.Closed) (hq : q.Closed) : Splits p q (swapped p q) q.shift same where
  closed := hp
  behind := hq
  front _ _ hi := swapped_front hi
  rest k i hi := by
    rw [after, shift, swapped_behind (by omega) (by omega), Nat.add_sub_cancel_left, same]

/-- What stands behind can be put in front. -/
theorem swap (hp : p.Closed) (hq : q.Closed) :
    Rearranged (swapped p q) (swapped q p) (p ++ q) (q ++ p) := by
  have hsplits := splits_swapped hp hq
  exact {
    back := swapped_inverse p q
    forth := swapped_inverse q p
    extent := extent_eq fun k => by rw [count_append, count_append, Nat.add_comm]
    within := fun k i => by
      rw [count_append]
      by_cases hi : i < p.extent.count k
      · rw [swapped_front hi]
        omega
      · by_cases hi' : i < p.extent.count k + q.extent.count k
        · rw [swapped_behind hi hi']
          omega
        · rw [swapped_beyond hi']
    element := fun i => by
      rw [hsplits.element, element_append]
      exact get_swapped Element.rename_same rfl (fun _ => getD_of_le) (fun _ => getD_of_le) i
    attr := fun i => by
      rw [hsplits.attr, attr_append]
      exact get_swapped Attribute.rename_same rfl (fun _ => getD_of_le) (fun _ => getD_of_le) i
    simpleType := fun i => by
      rw [hsplits.simpleType, simpleType_append]
      exact get_swapped SimpleType.rename_same rfl (fun _ => getD_of_le) (fun _ => getD_of_le) i
    complexType := fun i => by
      rw [hsplits.complexType, complexType_append]
      exact get_swapped ComplexType.rename_same rfl (fun _ => getD_of_le) (fun _ => getD_of_le) i
    group := fun i => by
      rw [hsplits.group, group_append]
      exact get_swapped Group.rename_same rfl (fun _ => getD_of_le) (fun _ => getD_of_le) i
    attributeGroup := fun i => by
      rw [hsplits.attributeGroup, attributeGroup_append]
      exact get_swapped AttributeGroup.rename_same rfl (fun _ => getD_of_le) (fun _ => getD_of_le) i }

end Swapped

end Rearranged

end Declarations
end Schema
end SchemaPaths
