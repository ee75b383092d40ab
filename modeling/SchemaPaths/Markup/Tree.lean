/-
A document as a tree: elements with their attributes, and text between them.

Names are expanded, so the prefixes of the document are gone; comments and instructions are left
out.
-/
namespace SchemaPaths
namespace Markup

/-- A name with the namespace it belongs to, empty when it belongs to none. -/
structure Name where
  space : String
  localPart : String
deriving DecidableEq, Repr

/-- A name in one piece, its namespace in braces. -/
def Name.text (n : Name) : String :=
  if n.space == "" then n.localPart else "\x7b" ++ n.space ++ "\x7d" ++ n.localPart

inductive Tree where
  | text (s : String)
  | element (name : Name) (attributes : List (Name × String)) (content : List Tree)

namespace Tree

mutual

def decEq : (t u : Tree) → Decidable (t = u)
  | .text s, .text s' => decidable_of_iff (s = s') (by simp)
  | .element n as cs, .element n' as' cs' =>
    have := decEqList cs cs'
    decidable_of_iff (n = n' ∧ as = as' ∧ cs = cs') (by simp)
  | .text _, .element .. => .isFalse nofun
  | .element .., .text _ => .isFalse nofun

def decEqList : (ts us : List Tree) → Decidable (ts = us)
  | [], [] => .isTrue rfl
  | t :: ts, u :: us =>
    have := decEq t u
    have := decEqList ts us
    decidable_of_iff (t = u ∧ ts = us) (by simp)
  | [], _ :: _ => .isFalse nofun
  | _ :: _, [] => .isFalse nofun

end

instance : DecidableEq Tree := decEq

def name? : Tree → Option Name
  | .text _ => none
  | .element n _ _ => some n

def attributes : Tree → List (Name × String)
  | .text _ => []
  | .element _ as _ => as

def content : Tree → List Tree
  | .text _ => []
  | .element _ _ cs => cs

def attr? (t : Tree) (n : Name) : Option String := t.attributes.lookup n

/-- The value of an attribute whose name belongs to no namespace. -/
def plain? (t : Tree) (n : String) : Option String := t.attr? ⟨"", n⟩

mutual

/-- All text inside, in the order of the document. -/
def allText : Tree → List Char
  | .text s => s.toList
  | .element _ _ cs => allTextList cs

def allTextList : List Tree → List Char
  | [] => []
  | t :: ts => allText t ++ allTextList ts

end

end Tree
end Markup
end SchemaPaths
