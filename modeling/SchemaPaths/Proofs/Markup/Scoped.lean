/-
Documents with their namespace declarations.

A tree has no declarations left.  A `Scoped` tree is what the same reading gives when it keeps, with
every element, the declarations in its start tag: as they are written, and as they count once the
document type has had its say.  Forgetting them gives the tree back (`ofBytes_eq`).
-/
import SchemaPaths.Markup.Document

namespace SchemaPaths
namespace Markup

/-- A namespace declaration as it is written, with the characters between its quotes. -/
structure Written where
  pre : String
  value : String
  literal : List Char

def Written.pair (w : Written) : String × String := (w.pre, w.value)

/-- The declarations in a start tag. -/
structure Declared where
  written : List Written
  counting : Bindings

inductive Scoped where
  | text (s : String)
  | element (declared : Declared) (name : Name) (attributes : List (Name × String))
      (content : List Scoped)

namespace Scoped
open Scan Document

/-! ## What a document declares -/

mutual

def tree : Scoped → Tree
  | .text s => .text s
  | .element _ name attributes content => .element name attributes (trees content)

def trees : List Scoped → List Tree
  | [] => []
  | t :: ts => tree t :: trees ts

end

mutual

/-- The declarations in every start tag, in the order of the document. -/
def tags : Scoped → List Declared
  | .text _ => []
  | .element declared _ _ content => declared :: tagsList content

def tagsList : List Scoped → List Declared
  | [] => []
  | t :: ts => tags t ++ tagsList ts

end

mutual

/-- The bindings in force in every element.  An element adds its own to those `b` around it, and the
innermost binding of a prefix comes first. -/
def scopes (b : Bindings) : Scoped → List Bindings
  | .text _ => []
  | .element declared _ _ content =>
    (declared.counting.reverse ++ b) :: scopesList (declared.counting.reverse ++ b) content

def scopesList (b : Bindings) : List Scoped → List Bindings
  | [] => []
  | t :: ts => scopes b t ++ scopesList b ts

end

/-- All declarations as they are written. -/
def written (t : Scoped) : List Written := t.tags.flatMap (·.written)

/-- All declarations as they count, in the order of the document. -/
def declarations (t : Scoped) : Bindings := t.tags.flatMap (·.counting)

/-- The declarations of the root alone. -/
def own : Scoped → Bindings
  | .text _ => []
  | .element declared _ _ _ => declared.counting

/-! ## Reading -/

/-- An attribute as it is written. -/
structure Given where
  name : RawName
  value : String
  literal : List Char

def Given.pair (g : Given) : RawName × String := (g.name, g.value)

/-- The declaration that an attribute is, if it is one. -/
def Given.written? (g : Given) : Option Written :=
  (Bindings.bound? g.name).map fun p => ⟨p, g.value, g.literal⟩

/-- The characters between the quotes that `cs` begins with. -/
def literalOf (cs : List Char) : List Char :=
  match cs with
  | [] => []
  | q :: cs => cs.takeWhile (· != q)

def given (lenient : Bool) (fuel : Nat) : Scan Given := do
  let name ← rawName
  spaces
  skip "="
  spaces
  let quoted ← get
  let value ← attributeValue lenient fuel
  return ⟨name, value, literalOf quoted⟩

def givenFrom (lenient : Bool) : Nat → List Given → Scan (List Given × Bool)
  | 0, _ => fail
  | fuel + 1, done => do
    let gap ← takeWhile isSpace
    if ← skip? "/>" then return (done.reverse, true)
    if ← skip? ">" then return (done.reverse, false)
    if gap.isEmpty then fail
    let g ← given lenient fuel
    if done.any fun d => d.name == g.name then fail
    givenFrom lenient fuel (g :: done)

structure Tag where
  name : RawName
  given : List Given
  attributes : List (RawName × String)
  closed : Bool

def Tag.startTag (t : Tag) : StartTag := ⟨t.name, t.attributes, t.closed⟩

def Tag.declared (t : Tag) : Declared where
  written := t.given.filterMap Given.written?
  counting := t.attributes.filterMap fun (n, v) => (Bindings.bound? n).map fun p => (p, v)

def tag (doctype : Doctype) (fuel : Nat) : Scan Tag := do
  let name ← rawName
  let (given, closed) ← givenFrom doctype.lenient fuel []
  let rules := doctype.rules.filter fun r => r.element == name.text
  return ⟨name, given, withRules rules (given.map Given.pair), closed⟩

def contentFrom (doctype : Doctype) : Nat → Bindings → Scan (List Scoped)
  | 0, _ => fail
  | fuel + 1, b => do
    match ← get with
    | [] => return []
    | '<' :: '/' :: _ => return []
    | '<' :: cs =>
      if ← skip? "<!--" then
        comment
        contentFrom doctype fuel b
      else if ← skip? "<![CDATA[" then
        let cs ← markedText
        let more ← contentFrom doctype fuel b
        return .text (String.ofList cs) :: more
      else if ← skip? "<?" then
        instruction
        contentFrom doctype fuel b
      else
        set cs
        let t ← tag doctype fuel
        let b' ← Document.bind b t.attributes
        let some name := b'.element? t.name | fail
        let attributes ← expandAttributes b' t.attributes
        let inner ←
          if t.closed then pure []
          else do
            let inner ← contentFrom doctype fuel b'
            endTag t.name
            pure inner
        let more ← contentFrom doctype fuel b
        return .element t.declared name attributes inner :: more
    | _ =>
      let cs ← run (fuel + 1) []
      let more ← contentFrom doctype fuel b
      return .text (String.ofList cs) :: more

def rootFrom (doctype : Doctype) (fuel : Nat) : Scan Scoped := do
  let t ← tag doctype fuel
  let b ← Document.bind [] t.attributes
  let some name := b.element? t.name | fail
  let attributes ← expandAttributes b t.attributes
  if t.closed then return .element t.declared name attributes []
  let inner ← contentFrom doctype fuel b
  endTag t.name
  return .element t.declared name attributes inner

def bodyFrom (standalone : Bool) : Nat → Option Doctype → Scan Scoped
  | 0, _ => fail
  | fuel + 1, doctype => do
    spaces
    if ← skip? "<!--" then
      comment
      bodyFrom standalone fuel doctype
    else if ← skip? "<?" then
      instruction
      bodyFrom standalone fuel doctype
    else if ← skip? "<!DOCTYPE" then
      if doctype.isSome then fail
      let d ← Doctype.scan standalone fuel
      bodyFrom standalone fuel (some d)
    else
      skip "<"
      let element ← rootFrom (doctype.getD {}) fuel
      epilogue fuel
      return element

def scan : Scan Scoped := do
  let d ← Declaration.scan?
  bodyFrom (d.map (·.standalone) |>.getD false) ((← get).length + 1) none

def ofChars (alphabet : NameChar.Alphabet) (cs : List Char) : Except Fault Scoped := do
  let (document, _) ← (scan.run alphabet).run (unifyEnds cs)
  return document

/-- The document in these bytes, or why there is none. -/
def ofBytes (bs : List UInt8) : Except Fault Scoped := do
  let (encoding, bs) ← encodingOf bs
  let (cs, whole) := encoding.decode bs
  let document ← ofChars encoding.alphabet cs
  if whole then return document else .error .malformed

/-! ## Forgetting the declarations -/

theorem fail_bind {α β : Type} (f : α → Scan β) : (fail >>= f) = fail := rfl

theorem map_fail {α β : Type} (f : α → β) : f <$> (fail : Scan α) = fail := rfl

theorem map_ite {α β : Type} (f : α → β) (c : Bool) (m m' : Scan α) :
    f <$> (if c then m else m') = if c then f <$> m else f <$> m' := by
  cases c <;> rfl

theorem get_bind_const {α : Type} (m : Scan α) : (get >>= fun _ => m) = m := rfl

theorem attributesFrom_eq (lenient : Bool) (fuel : Nat) (done : List Given) :
    attributesFrom lenient fuel (done.map Given.pair) =
      (fun r => (r.1.map Given.pair, r.2)) <$> givenFrom lenient fuel done := by
  induction fuel generalizing done with
  | zero => rfl
  | succ fuel ih =>
    have names (name : RawName) :
        ((done.map Given.pair).any fun d => d.1 == name) = done.any fun d => d.name == name := by
      rw [List.any_map]
      rfl
    have more (name : RawName) (value : String) (literal : List Char) :
        (fun r => (r.1.map Given.pair, r.2)) <$>
            givenFrom lenient fuel (⟨name, value, literal⟩ :: done) =
          attributesFrom lenient fuel ((name, value) :: done.map Given.pair) :=
      (ih (⟨name, value, literal⟩ :: done)).symm
    rw [attributesFrom, givenFrom]
    simp only [given, bind_assoc, pure_bind, map_bind, map_ite, map_pure, names, fail_bind,
      map_fail, more, get_bind_const, List.map_reverse]

theorem startTag_eq (doctype : Doctype) (fuel : Nat) :
    startTag doctype fuel = Tag.startTag <$> tag doctype fuel := by
  have given := attributesFrom_eq doctype.lenient fuel []
  rw [List.map_nil] at given
  simp only [startTag, tag, given, map_bind, bind_map_left, map_pure]
  rfl

theorem content_eq (doctype : Doctype) (fuel : Nat) (b : Bindings) :
    Document.content doctype fuel b = trees <$> contentFrom doctype fuel b := by
  induction fuel generalizing b with
  | zero => rfl
  | succ fuel ih =>
    rw [Document.content, contentFrom, map_bind]
    refine bind_congr fun cs => ?_
    split
    · rfl
    · rfl
    · simp only [map_bind, ih, startTag_eq, map_ite, bind_map_left, map_pure,
        pure_bind]
      refine bind_congr fun _ => ite_congr rfl (fun _ => rfl) fun _ => ?_
      refine bind_congr fun _ => ite_congr rfl (fun _ => rfl) fun _ => ?_
      refine bind_congr fun _ => ite_congr rfl (fun _ => rfl) fun _ => ?_
      refine bind_congr fun _ => bind_congr fun t => bind_congr fun b' => ?_
      rw [Tag.startTag]
      cases b'.element? t.name with
      | none => rfl
      | some name => simp only [map_bind, map_ite, map_pure, trees, tree]
    · simp only [ih, map_bind, bind_map_left, map_pure]
      rfl


theorem root_eq (doctype : Doctype) (fuel : Nat) :
    root doctype fuel = tree <$> rootFrom doctype fuel := by
  simp only [root, rootFrom, startTag_eq, content_eq, map_bind, bind_map_left]
  refine bind_congr fun t => bind_congr fun b => ?_
  rw [Tag.startTag]
  cases b.element? t.name with
  | none => rfl
  | some name => simp only [map_bind, map_ite, map_pure, trees, tree]

theorem body_eq (standalone : Bool) (fuel : Nat) (doctype : Option Doctype) :
    body standalone fuel doctype = tree <$> bodyFrom standalone fuel doctype := by
  induction fuel generalizing doctype with
  | zero => rfl
  | succ fuel ih =>
    simp only [body, bodyFrom, ih, root_eq, map_bind, map_ite, bind_map_left, map_pure]

theorem ofChars_eq (alphabet : NameChar.Alphabet) (cs : List Char) :
    Document.ofChars alphabet cs = tree <$> ofChars alphabet cs := by
  simp only [Document.ofChars, ofChars, scan, body_eq, ReaderT.run_bind, StateT.run_bind,
    ReaderT.run_map, StateT.run_map, bind_assoc, bind_map_left, map_bind, map_pure]

/-- Reading with the declarations kept is reading: only the declarations are gone from the tree. -/
theorem ofBytes_eq (bs : List UInt8) : Document.ofBytes bs = tree <$> ofBytes bs := by
  simp only [Document.ofBytes, ofBytes, ofChars_eq, map_bind, bind_map_left]
  refine bind_congr fun found => bind_congr fun document => ?_
  cases (found.1.decode found.2).2 <;> rfl

/-! ## Declarations in force -/

/-- A prefix with one meaning only has it wherever it is looked up. -/
theorem expand?_eq {own b all : Bindings} {p : String} (hown : own ⊆ b) (hb : b ⊆ all)
    (h : ∀ d ∈ all, d.1 = p → own.expand? p = some d.2) : b.expand? p = own.expand? p := by
  by_cases hp : p = "xml"
  · simp [Bindings.expand?, hp]
  cases hlook : b.lookup p with
  | some uri =>
    obtain ⟨before, after, heq, _⟩ := List.lookup_eq_some_iff.1 hlook
    have hmem : (p, uri) ∈ b := heq ▸ List.mem_append_right _ List.mem_cons_self
    rw [h _ (hb hmem) rfl]
    simp [Bindings.expand?, hp, hlook]
  | none =>
    have hnone : own.lookup p = none := by
      rw [List.lookup_eq_none_iff] at hlook ⊢
      exact fun d hd => hlook d (hown hd)
    simp [Bindings.expand?, hp, hlook, hnone]

mutual

/-- In every element the declarations of the root are in force or overridden, and all that are in
force are declarations of the document. -/
theorem subset_scopes {own all b : Bindings} :
    ∀ t : Scoped, own ⊆ b → b ⊆ all → t.declarations ⊆ all → ∀ b' ∈ t.scopes b, own ⊆ b' ∧ b' ⊆ all
  | .text _, _, _, _ => fun _ h => absurd h List.not_mem_nil
  | .element declared _ _ content, hown, hb, ht => by
    rw [declarations, tags, List.flatMap_cons, List.append_subset] at ht
    have hown' : own ⊆ declared.counting.reverse ++ b := List.subset_append_of_subset_right _ hown
    have hb' : declared.counting.reverse ++ b ⊆ all :=
      List.append_subset.2 ⟨List.reverse_subset.2 ht.1, hb⟩
    intro b' hb''
    rw [scopes, List.mem_cons] at hb''
    rcases hb'' with rfl | hb''
    · exact ⟨hown', hb'⟩
    · exact subset_scopesList content hown' hb' ht.2 b' hb''

theorem subset_scopesList {own all b : Bindings} :
    ∀ ts : List Scoped, own ⊆ b → b ⊆ all → (tagsList ts).flatMap (·.counting) ⊆ all →
      ∀ b' ∈ scopesList b ts, own ⊆ b' ∧ b' ⊆ all
  | [], _, _, _ => fun _ h => absurd h List.not_mem_nil
  | t :: ts, hown, hb, ht => by
    rw [tagsList, List.flatMap_append, List.append_subset] at ht
    intro b' hb'
    rw [scopesList, List.mem_append] at hb'
    rcases hb' with hb' | hb'
    · exact subset_scopes t hown hb ht.1 b' hb'
    · exact subset_scopesList ts hown hb ht.2 b' hb'

end

/-- A prefix that the document declares only as its root does means in every element what it is
declared for first. -/
theorem expand?_scopes {t : Scoped} {p : String}
    (agree : ∀ d ∈ t.declarations, d.1 = p → t.own.expand? p = some d.2) :
    ∀ b ∈ t.scopes [], t.declarations.expand? p = b.expand? p := by
  cases t with
  | text => exact fun _ h => absurd h List.not_mem_nil
  | element declared name attributes content =>
    have parts : (element declared name attributes content).declarations =
        declared.counting ++ (tagsList content).flatMap (·.counting) := rfl
    rw [parts] at agree ⊢
    have own : declared.counting ⊆ declared.counting.reverse ++ [] := by simp
    have all : declared.counting.reverse ++ [] ⊆
        declared.counting ++ (tagsList content).flatMap (·.counting) := by simp
    intro b hb
    have here : declared.counting ⊆ b ∧
        b ⊆ declared.counting ++ (tagsList content).flatMap (·.counting) := by
      rcases List.mem_cons.1 hb with rfl | hb
      · exact ⟨own, all⟩
      · exact subset_scopesList content own all (List.subset_append_right _ _) b hb
    have first := expand?_eq (List.Subset.trans own all) (List.Subset.refl _) agree
    exact first.trans (expand?_eq here.1 here.2 agree).symm

end Scoped
end Markup
end SchemaPaths
