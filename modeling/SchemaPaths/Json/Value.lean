/-
Values of the data format of lists and records.

Texts are lists of code points, since an escaped half of a surrogate pair may stand in one without
its other half.  A record keeps the order of its keys.
-/
import SchemaPaths.Decimal.Binary

namespace SchemaPaths
namespace Json

abbrev Points := List Nat

inductive Value where
  | null
  | bool (b : Bool)
  | integer (n : Int)
  | real (x : Decimal.Binary)
  | text (s : Points)
  | list (items : List Value)
  | record (fields : List (Points × Value))

/-- Enters a field.  A key that is there already keeps its place. -/
def putField (k : Points) (v : Value) : List (Points × Value) → List (Points × Value)
  | [] => [(k, v)]
  | f :: fs => if f.1 = k then (k, v) :: fs else f :: putField k v fs

end Json
end SchemaPaths
