/-
Qualified names, and the tables that declarations are found in by them.

A declaration may lack a name; it is still entered in its table, under its namespace alone.  A later
declaration of the same name takes the place of the earlier one, where that stood.
-/
namespace SchemaPaths
namespace Schema

def xsSpace : String := "http://www.w3.org/2001/XMLSchema"

/-- How an absent name, or an absent value of another kind, is spelled in messages. -/
def noName : String := "None"

structure QName where
  space : String
  name : Option String
deriving DecidableEq, Repr

namespace QName

/-- A name with neither part has no text. -/
def text? (q : QName) : Option String :=
  if q.space == "" then q.name else some (q.space ++ ":" ++ q.name.getD noName)

def text (q : QName) : String := q.text?.getD noName

end QName

abbrev Table (α : Type) := List (QName × α)

namespace Table

def put {α : Type} (q : QName) (a : α) : Table α → Table α
  | [] => [(q, a)]
  | (k, b) :: t => if k = q then (q, a) :: t else (k, b) :: put q a t

def find? {α : Type} (t : Table α) (q : QName) : Option α := t.lookup q

def names {α : Type} (t : Table α) : List QName := t.map (·.1)

theorem find?_put {α : Type} (q k : QName) (a : α) (t : Table α) :
    (put q a t).find? k = if k = q then some a else t.find? k := by
  induction t with
  | nil =>
    by_cases h : k = q
    · simp [put, find?, h]
    · have : (k == q) = false := by simpa using h
      simp [put, find?, List.lookup_cons, h, this]
  | cons e t ih =>
    obtain ⟨k', b⟩ := e
    simp only [find?] at ih
    by_cases hq : k' = q
    · by_cases h : k = q
      · simp [put, find?, hq, h]
      · have : (k == q) = false := by simpa using h
        simp [put, find?, List.lookup_cons, hq, h, this]
    · by_cases hk : k = k'
      · subst hk
        simp [put, find?, hq]
      · have : (k == k') = false := by simpa using hk
        simp [put, find?, List.lookup_cons, hq, this, ih]

end Table
end Schema
end SchemaPaths
