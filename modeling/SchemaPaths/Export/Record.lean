/-
Rows of an export and how they are written.

Fields are parted by commas.  The annotation alone stands in quotes, each quote inside it doubled;
all other fields are written as they are.
-/
namespace SchemaPaths
namespace Export

/-- A text as one quoted field. -/
def quoteChars : List Char → List Char
  | [] => []
  | c :: cs => if c == '"' then '"' :: '"' :: quoteChars cs else c :: quoteChars cs

def quoted (s : String) : String := "\"" ++ String.ofList (quoteChars s.toList) ++ "\""

/-- One row.  A row for an attribute says neither whether it is optional nor what its additional
columns hold. -/
structure Record where
  node : String
  path : String
  notes : String
  type : String
  optional : Option Bool := none
  extra : List String := []
  isAttribute : Bool := false
deriving DecidableEq, Repr

namespace Record

def fields (r : Record) : List String :=
  let common := [r.node, r.path, quoted r.notes, r.type]
  if r.isAttribute then common
  else common ++ [if r.optional.getD false then "true" else "false"] ++ r.extra

def line (r : Record) : String := ",".intercalate r.fields

end Record

def fixedColumns : List String := ["Node", "XPath", "Annotation", "Data Type", "Optional"]

end Export
end SchemaPaths
