/-
What the scans of a document leave of its text.

A scan takes characters from the front and never gives any back, so what it leaves is an end of what
it found.  `Yields` says what holds of a scan that succeeds, and one rule for each way of putting
scans together carries that from the parts to the whole.
-/
import SchemaPaths.Markup.Document
import SchemaPaths.Proofs.Ensures

namespace SchemaPaths
namespace Markup

namespace Scan

/-- What holds of the result of `m` and of the characters it leaves, when it is started on `cs` and
does not fail. -/
def Yields {α : Type} (m : Scan α) (cs : List Char) (ok : α → List Char → Prop) : Prop :=
  ∀ alphabet a rest, (m.run alphabet).run cs = .ok (a, rest) → ok a rest

section Rules

variable {α β : Type} {m : Scan α} {f : α → Scan β} {cs : List Char} {ok ok' : α → List Char → Prop}

theorem yields_pure {a : α} (h : ok a cs) : Yields (pure a) cs ok := by
  intro _ _ _ hr
  cases hr
  exact h

theorem yields_fail : Yields (fail : Scan α) cs ok := nofun

theorem yields_throw {e : Fault} : Yields (throw e : Scan α) cs ok := nofun

theorem yields_set {cs' : List Char} {ok : PUnit → List Char → Prop} (h : ok ⟨⟩ cs') :
    Yields (set cs') cs ok := by
  intro _ _ _ hr
  cases hr
  exact h

theorem yields_any : Yields m cs fun _ _ => True := fun _ _ _ _ => trivial

theorem Yields.mono (h : Yields m cs ok) (imp : ∀ a rest, ok a rest → ok' a rest) :
    Yields m cs ok' := fun alphabet a rest hr => imp a rest (h alphabet a rest hr)

theorem Yields.bind {ok' : β → List Char → Prop} (h : Yields m cs ok)
    (hf : ∀ a rest, ok a rest → Yields (f a) rest ok') : Yields (m >>= f) cs ok' := by
  intro alphabet b rest hr
  rw [ReaderT.run_bind, StateT.run_bind] at hr
  rcases hm : (m.run alphabet).run cs with e | ⟨a, mid⟩
  · rw [hm] at hr
    cases hr
  · rw [hm] at hr
    exact hf a mid (h alphabet a mid hm) alphabet b rest hr

theorem Yields.get {f : List Char → Scan β} {ok : β → List Char → Prop} (h : Yields (f cs) cs ok) :
    Yields (get >>= f) cs ok := h

theorem Yields.set {f : PUnit → Scan β} {cs' : List Char} {ok : β → List Char → Prop}
    (h : Yields (f ⟨⟩) cs' ok) : Yields (set cs' >>= f) cs ok := h

theorem Yields.read {f : NameChar.Alphabet → Scan β} {ok : β → List Char → Prop}
    (h : ∀ alphabet, Yields (f alphabet) cs ok) : Yields (read >>= f) cs ok :=
  fun alphabet => h alphabet alphabet

theorem Yields.lift {r : Except Fault α} {ok : β → List Char → Prop}
    (h : ∀ a, Yields (f a) cs ok) : Yields (liftM r >>= f) cs ok := by
  cases r with
  | error => nofun
  | ok a => exact h a

theorem yields_ite {c : Prop} [Decidable c] {m m' : Scan α} (h : c → Yields m cs ok)
    (h' : ¬ c → Yields m' cs ok) : Yields (if c then m else m') cs ok := by
  split
  · exact h ‹_›
  · exact h' ‹_›

end Rules

/-- A scan that never leaves the text: what is left is an end of it. -/
def Stays {α : Type} (text : List Char) (m : Scan α) : Prop :=
  ∀ cs, cs <:+ text → Yields m cs fun _ rest => rest <:+ text

namespace Stays

variable {α β : Type} {m m' : Scan α} {f : α → Scan β} {text : List Char}

protected theorem pure {a : α} : Stays text (pure a) := fun _ h => yields_pure h

protected theorem fail : Stays text (fail : Scan α) := fun _ _ => yields_fail

protected theorem throw {e : Fault} : Stays text (throw e : Scan α) := fun _ _ => yields_throw

protected theorem set {cs : List Char} (h : cs <:+ text) : Stays text (set cs) :=
  fun _ _ => yields_set h

protected theorem read {f : NameChar.Alphabet → Scan β}
    (h : ∀ alphabet, Stays text (f alphabet)) : Stays text (read >>= f) :=
  fun cs hcs => .read fun alphabet => h alphabet cs hcs

protected theorem bind (h : Stays text m) (hf : ∀ a, Stays text (f a)) : Stays text (m >>= f) :=
  fun cs hcs => (h cs hcs).bind fun a rest hrest => hf a rest hrest

protected theorem get {f : List Char → Scan β} (h : ∀ cs, cs <:+ text → Stays text (f cs)) :
    Stays text (get >>= f) := fun cs hcs => .get (h cs hcs cs hcs)

protected theorem ite {c : Prop} [Decidable c] (h : Stays text m) (h' : Stays text m') :
    Stays text (if c then m else m') := by
  split
  · exact h
  · exact h'

/-- Two branches that go on in one way. -/
theorem branch {γ : Type} {c : Prop} [Decidable c] {m m' : Scan γ} {k : γ → Scan β}
    (h : Stays text m) (h' : Stays text m') (hk : ∀ r, Stays text (k r)) :
    Stays text (if c then m >>= k else m' >>= k) :=
  .ite (.bind h hk) (.bind h' hk)

theorem optional {c : Prop} [Decidable c] {m : Scan Unit} {k : Unit → Scan β} (h : Stays text m)
    (hk : ∀ r, Stays text (k r)) : Stays text (if c then m >>= k else k ⟨⟩) :=
  .ite (.bind h hk) (hk _)

end Stays

variable {text : List Char}

theorem stays_takeWhile (p : Char → Bool) : Stays text (takeWhile p) :=
  .get fun _ h => .bind (.set ((List.dropWhile_suffix p).trans h)) fun _ => .pure

theorem stays_spaces : Stays text spaces := .bind (stays_takeWhile _) fun _ => .pure

theorem stays_spaces1 : Stays text spaces1 :=
  .bind (stays_takeWhile _) fun _ => .ite .fail .pure

theorem stays_next? : Stays text next? := .get fun _ _ => .pure

theorem stays_skip? (s : String) : Stays text (skip? s) :=
  .get fun _ h => .ite (.bind (.set ((List.drop_suffix _ _).trans h)) fun _ => .pure) .pure

theorem stays_skip (s : String) : Stays text (skip s) :=
  .bind (stays_skip? s) fun _ => .ite .fail .pure

theorem stays_plainName : Stays text plainName := .read fun _ => .get fun cs h => by
  split
  · exact .ite (.bind (.set (((List.dropWhile_suffix _).trans (List.suffix_cons _ _)).trans h))
      fun _ => .pure) .fail
  · exact .fail

theorem stays_rawName : Stays text rawName :=
  .bind stays_plainName fun _ => .bind (stays_skip? _) fun _ =>
    .ite (.bind stays_plainName fun _ => .pure) .pure

theorem stays_reference : Stays text reference := by
  refine .bind (stays_skip? _) fun _ => .ite ?_ ?_
  · refine .bind (stays_skip? _) fun _ => .branch .pure .pure fun base => ?_
    refine .bind (stays_takeWhile _) fun _ => .bind (stays_skip _) fun _ => ?_
    split
    · exact .pure
    · exact .fail
  · exact .bind stays_plainName fun _ => .bind (stays_skip _) fun _ => .pure

theorem stays_quote : Stays text quote := .get fun cs h => by
  split
  · exact .bind (.set ((List.suffix_cons _ _).trans h)) fun _ => .pure
  · exact .bind (.set ((List.suffix_cons _ _).trans h)) fun _ => .pure
  · exact .fail

theorem stays_literal (q : Char) : Stays text (literal q) :=
  .bind (stays_takeWhile _) fun _ => .bind (stays_skip _) fun _ => .ite .pure .fail

theorem stays_valueUpTo (lenient : Bool) (q : Char) (fuel : Nat) (done : List Char) :
    Stays text (valueUpTo lenient q fuel done) := by
  induction fuel generalizing done with
  | zero => exact .fail
  | succ fuel ih =>
    refine .get fun cs h => ?_
    split
    · exact .fail
    refine .bind (.set ((List.suffix_cons _ _).trans h)) fun _ => ?_
    refine .ite .pure (.ite .fail (.ite ?_ (.ite (ih _) (.ite (ih _) .fail))))
    refine .bind stays_reference fun _ => ?_
    split
    · exact ih _
    · split
      · exact ih _
      · exact .ite (ih _) .fail

theorem stays_attributeValue (lenient : Bool) (fuel : Nat) :
    Stays text (attributeValue lenient fuel) :=
  .bind stays_quote fun _ => .bind (stays_valueUpTo _ _ _ _) fun _ => .pure

theorem afterComment?_suffix {cs rest : List Char} (h : afterComment? cs = some rest) :
    rest <:+ cs := by
  fun_induction afterComment? cs with
  | case1 => exact Option.some.inj h ▸ List.suffix_append ['-', '-', '>'] _
  | case2 => cases h
  | case3 _ _ _ _ _ ih => exact (ih h).trans (List.suffix_cons _ _)
  | case4 => cases h
  | case5 => cases h

theorem stays_comment : Stays text comment := .get fun cs h => by
  split
  · exact .set ((afterComment?_suffix ‹_›).trans h)
  · exact .fail

theorem cutAtMark?_suffix {mark done cs before rest : List Char}
    (h : cutAtMark? mark done cs = some (before, rest)) : rest <:+ cs := by
  fun_induction cutAtMark? mark done cs with
  | case1 => cases h
  | case2 =>
    cases h
    exact List.drop_suffix _ _
  | case3 _ _ _ _ _ ih => exact (ih h).trans (List.suffix_cons _ _)
  | case4 => cases h

theorem stays_upToMark (mark : String) : Stays text (upToMark mark) := .get fun cs h => by
  split
  · exact .bind (.set ((cutAtMark?_suffix ‹_›).trans h)) fun _ => .pure
  · exact .fail

theorem stays_instruction : Stays text instruction := by
  refine .bind stays_plainName fun _ => .ite .fail ?_
  refine .bind (stays_skip? _) fun _ => .ite .pure ?_
  exact .bind stays_spaces1 fun _ => .bind (stays_upToMark _) fun _ => .pure

theorem stays_markedText : Stays text markedText := stays_upToMark _

end Scan

namespace Doctype
open Scan

variable {text : List Char}

theorem stays_declaredName : Stays text declaredName := by
  refine .bind stays_plainName fun _ => .bind (stays_skip? _) fun _ => .ite ?_ .pure
  refine .read fun _ => .bind (stays_takeWhile _) fun _ => ?_
  exact .ite .fail .pure

theorem stays_multiplicity : Stays text multiplicity := .get fun cs h => by
  split
  · exact .set ((List.suffix_cons _ _).trans h)
  · exact .set ((List.suffix_cons _ _).trans h)
  · exact .set ((List.suffix_cons _ _).trans h)
  · exact .pure

mutual

theorem stays_particle : ∀ fuel, Stays text (particle fuel)
  | 0 => .fail
  | fuel + 1 => .bind (stays_skip? _) fun _ => .ite (stays_group fuel none)
      (.bind stays_declaredName fun _ => stays_multiplicity)

theorem stays_group : ∀ fuel connector, Stays text (group fuel connector)
  | 0, _ => .fail
  | fuel + 1, connector => by
    refine .bind stays_spaces fun _ => .bind (stays_particle fuel) fun _ => ?_
    refine .bind stays_spaces fun _ => .get fun cs h => ?_
    split
    · exact .bind (.set ((List.suffix_cons _ _).trans h)) fun _ => stays_multiplicity
    · exact .ite (.bind (.set ((List.suffix_cons _ _).trans h)) fun _ => stays_group fuel _) .fail
    · exact .fail

end

theorem stays_mixedNames (fuel : Nat) (several : Bool) : Stays text (mixedNames fuel several) := by
  induction fuel generalizing several with
  | zero => exact .fail
  | succ fuel ih =>
    refine .bind stays_spaces fun _ => .bind (stays_skip? _) fun _ => .ite ?_ ?_
    · exact .bind stays_spaces fun _ => .bind stays_declaredName fun _ => ih true
    · exact .bind (stays_skip _) fun _ => .bind (stays_skip? _) fun _ => .ite .fail .pure

theorem stays_elementDeclaration (fuel : Nat) : Stays text (elementDeclaration fuel) := by
  have closing (_ : Unit) : Stays text (do spaces; skip ">") :=
    .bind stays_spaces fun _ => stays_skip _
  refine .bind stays_spaces1 fun _ => .bind stays_declaredName fun _ => ?_
  refine .bind stays_spaces1 fun _ => .bind (stays_skip? _) fun _ => .ite ?_ ?_
  · refine .bind stays_spaces fun _ => .bind (stays_skip? _) fun _ => .ite ?_ ?_
    · exact .bind (stays_mixedNames _ _) closing
    · exact .bind (stays_group _ _) closing
  · exact .bind stays_plainName fun _ => .optional .fail closing

theorem stays_alternatives {word : Scan Unit} (h : Stays text word) (fuel : Nat) :
    Stays text (alternatives word fuel) := by
  induction fuel with
  | zero => exact .fail
  | succ fuel ih =>
    refine .bind stays_spaces fun _ => .bind h fun _ => .bind stays_spaces fun _ => ?_
    exact .bind (stays_skip? _) fun _ => .ite ih (stays_skip _)

theorem stays_nameToken : Stays text nameToken :=
  .read fun _ => .bind (stays_takeWhile _) fun _ => .ite .fail .pure

theorem stays_attributeType (fuel : Nat) : Stays text (attributeType fuel) := by
  refine .bind (stays_skip? _) fun _ => .ite ?_ ?_
  · exact .bind (stays_alternatives stays_nameToken _) fun _ => .pure
  refine .bind stays_plainName fun _ => .ite .pure (.ite ?_ (.ite .pure .fail))
  refine .bind stays_spaces1 fun _ => .bind (stays_skip _) fun _ => ?_
  refine .bind (stays_alternatives ?_ _) fun _ => .pure
  exact .bind stays_plainName fun _ => .pure

theorem stays_givenValue (reading : Reading) (fuel : Nat) :
    Stays text (givenValue reading fuel) :=
  .ite (stays_attributeValue _ _) <| .bind stays_quote fun _ =>
    .bind (stays_literal _) fun _ => .pure

theorem stays_attributeDefault (reading : Reading) (words : Bool) (fuel : Nat) :
    Stays text (attributeDefault reading words fuel) := by
  have value : Stays text (do
      let v ← givenValue reading fuel
      return some (if words then collapse v else v)) :=
    .bind (stays_givenValue _ _) fun _ => .pure
  refine .bind (stays_skip? _) fun _ => .ite ?_ value
  refine .bind stays_plainName fun _ => .ite .pure (.ite ?_ .fail)
  exact .bind stays_spaces1 fun _ => value

theorem stays_attributeRules (reading : Reading) (element : String) (fuel : Nat)
    (done : List AttributeRule) : Stays text (attributeRules reading element fuel done) := by
  induction fuel generalizing done with
  | zero => exact .fail
  | succ fuel ih =>
    refine .bind (stays_takeWhile _) fun _ => .bind (stays_skip? _) fun _ => .ite .pure ?_
    refine .ite .fail (.bind stays_declaredName fun _ => .bind stays_spaces1 fun _ => ?_)
    refine .bind (stays_attributeType _) fun _ => .bind stays_spaces1 fun _ => ?_
    exact .bind (stays_attributeDefault _ _ _) fun _ => ih _

theorem stays_attributeList (reading : Reading) (fuel : Nat) :
    Stays text (attributeList reading fuel) :=
  .bind stays_spaces1 fun _ => .bind stays_declaredName fun _ => stays_attributeRules _ _ _ _

theorem stays_publicLiteral : Stays text publicLiteral :=
  .bind stays_quote fun _ => .bind (stays_literal _) fun _ => .ite .fail .pure

theorem stays_systemLiteral : Stays text systemLiteral :=
  .bind stays_quote fun _ => .bind (stays_literal _) fun _ => .pure

theorem stays_externalName (short : Bool) : Stays text (externalName short) := by
  refine .bind (stays_skip? _) fun _ => .ite ?_ ?_
  · exact .bind stays_spaces1 fun _ => stays_systemLiteral
  refine .bind (stays_skip _) fun _ => .bind stays_spaces1 fun _ => ?_
  refine .bind stays_publicLiteral fun _ => .bind (stays_takeWhile _) fun _ => ?_
  refine .bind stays_next? fun _ => ?_
  split
  · exact .ite .fail stays_systemLiteral
  · exact .ite .fail stays_systemLiteral
  · exact .ite .fail .pure

theorem stays_entityValue (q : Char) (fuel : Nat) : Stays text (entityValue q fuel) := by
  induction fuel with
  | zero => exact .fail
  | succ fuel ih =>
    refine .get fun cs h => ?_
    split
    · exact .fail
    refine .bind (.set ((List.suffix_cons _ _).trans h)) fun _ => ?_
    refine .ite .pure (.ite .fail (.ite ?_ (.ite ih .fail)))
    exact .bind stays_reference fun _ => ih

theorem stays_ends (allowed : String) : Stays text (ends allowed) := .bind stays_next? fun _ => by
  split
  · exact .ite .fail .pure
  · exact .pure

theorem stays_entityDeclaration (counting : Bool) (fuel : Nat) :
    Stays text (entityDeclaration counting fuel) := by
  have closing (counts : Bool) (_ : Unit) : Stays text (do
      spaces
      skip ">"
      if counts then throw .entityDeclared) :=
    .bind stays_spaces fun _ => .bind (stays_skip _) fun _ => .ite .throw .pure
  have ended (allowed : String) (counts : Bool) (_ : Unit) : Stays text (do
      ends allowed
      if counts then throw .entityDeclared
      spaces
      skip ">"
      if counts then throw .entityDeclared) :=
    .bind (stays_ends _) fun _ => .optional .throw (closing counts)
  refine .bind stays_spaces1 fun _ => .bind (stays_skip? _) fun parameter => ?_
  refine .optional stays_spaces1 fun _ => ?_
  refine .bind stays_plainName fun name => .bind stays_spaces1 fun _ => ?_
  refine .bind stays_next? fun _ => ?_
  dsimp only
  split
  · refine .bind stays_quote fun _ => .ite (.bind (stays_entityValue _ _) (ended _ _)) ?_
    exact .bind (stays_literal _) fun _ => ended _ _ ⟨⟩
  · refine .bind stays_quote fun _ => .ite (.bind (stays_entityValue _ _) (ended _ _)) ?_
    exact .bind (stays_literal _) fun _ => ended _ _ ⟨⟩
  · refine .bind (stays_externalName _) fun _ => .bind (stays_takeWhile _) fun _ => ?_
    refine .ite (.bind (stays_skip? _) fun _ => .ite ?_ (closing _ ⟨⟩)) (closing _ ⟨⟩)
    exact .bind stays_spaces1 fun _ => .bind stays_plainName fun _ => ended _ _ ⟨⟩

theorem stays_notationDeclaration : Stays text notationDeclaration := by
  refine .bind stays_spaces1 fun _ => .bind stays_plainName fun _ => ?_
  refine .bind stays_spaces1 fun _ => .bind (stays_externalName _) fun _ => ?_
  exact .bind stays_spaces fun _ => stays_skip _

theorem stays_declarations (standalone : Bool) (fuel : Nat) (p : Progress) :
    Stays text (declarations standalone fuel p) := by
  induction fuel generalizing p with
  | zero => exact .fail
  | succ fuel ih =>
    refine .bind stays_spaces fun _ => .bind (stays_skip? _) fun _ => .ite .pure ?_
    refine .bind (stays_skip? _) fun _ => .ite ?_ ?_
    · exact .bind stays_plainName fun _ => .bind (stays_skip _) fun _ => ih _
    refine .bind (stays_skip? _) fun _ => .ite (.bind stays_comment fun _ => ih _) ?_
    refine .bind (stays_skip? _) fun _ => .ite (.bind stays_instruction fun _ => ih _) ?_
    refine .bind (stays_skip? _) fun _ =>
      .ite (.bind (stays_elementDeclaration _) fun _ => ih _) ?_
    refine .bind (stays_skip? _) fun _ => .ite (.bind (stays_attributeList _ _) fun _ => ih _) ?_
    refine .bind (stays_skip? _) fun _ =>
      .ite (.bind (stays_entityDeclaration _ _) fun _ => ih _) ?_
    exact .bind (stays_skip? _) fun _ =>
      .ite (.bind stays_notationDeclaration fun _ => ih _) .fail

theorem stays_scan (standalone : Bool) (fuel : Nat) : Stays text (scan standalone fuel) := by
  have closing (p : Progress) : Stays text (do
      skip ">"
      return (⟨p.elsewhere && !standalone, p.rules⟩ : Doctype)) :=
    .bind (stays_skip _) fun _ => .pure
  have inside (external : Bool) : Stays text (do
      let p ←
        if ← skip? "[" then do
          let p ← declarations standalone fuel ⟨true, external, []⟩
          spaces
          pure p
        else pure ⟨true, external, []⟩
      skip ">"
      return (⟨p.elsewhere && !standalone, p.rules⟩ : Doctype)) := by
    refine .bind (stays_skip? _) fun _ => .ite ?_ (.bind .pure closing)
    refine .bind (stays_declarations _ _ _) fun _ => .bind stays_spaces fun _ => ?_
    exact .bind .pure closing
  refine .bind stays_spaces1 fun _ => .bind stays_declaredName fun _ => ?_
  refine .bind (stays_takeWhile _) fun gap => .bind stays_next? fun _ => ?_
  split
  · refine .ite (.bind .fail inside) (.bind (stays_externalName _) fun _ => ?_)
    exact .bind stays_spaces fun _ => .bind .pure inside
  · refine .ite (.bind .fail inside) (.bind (stays_externalName _) fun _ => ?_)
    exact .bind stays_spaces fun _ => .bind .pure inside
  · exact .bind .pure inside

end Doctype

namespace Declaration
open Scan

/-- What stands in the declaration is looked at apart from the text behind it. -/
theorem stays_scan? {text : List Char} : Stays text scan? := .get fun cs h => by
  split
  · refine .ite ?_ .pure
    refine .bind (.set ((List.suffix_append ['<', '?', 'x', 'm', 'l'] _).trans h)) fun _ => ?_
    refine .bind (stays_upToMark _) fun inside => .get fun rest hrest => ?_
    exact fun _ _ => .set <| yields_any.bind fun _ _ _ => .set (yields_pure hrest)
  · exact .pure

end Declaration

namespace Document
open Scan

variable {text : List Char}

theorem stays_endTag (name : RawName) : Stays text (endTag name) := by
  refine .bind (stays_skip _) fun _ => .bind stays_rawName fun _ => .ite .fail ?_
  exact .bind stays_spaces fun _ => stays_skip _

theorem stays_run (fuel : Nat) (done : List Char) : Stays text (run fuel done) := by
  induction fuel generalizing done with
  | zero => exact .fail
  | succ fuel ih =>
    refine .get fun cs h => ?_
    split
    · exact .pure
    · exact .pure
    · exact .fail
    · refine .bind (.set ((List.suffix_cons _ _).trans h)) fun _ => ?_
      refine .bind stays_reference fun _ => ?_
      split
      · exact ih _
      · split
        · exact ih _
        · exact .fail
    · exact .ite (.bind (.set ((List.suffix_cons _ _).trans h)) fun _ => ih _) .fail

end Document
end Markup
end SchemaPaths
