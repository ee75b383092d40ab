/-
Lists in the fields of a form.
-/
import SchemaPaths.Json.Reading
import SchemaPaths.Json.Wording
import SchemaPaths.Service.Problem

namespace SchemaPaths
namespace Service
namespace FormList

/-- An item in words.  One that is not whole holds half a pair, for which a mark stands. -/
structure Item where
  text : String
  isWhole : Bool := true
deriving DecidableEq, Repr

def Item.ofValue (v : Json.Value) : Item := ⟨Json.Wording.ofValue v, Json.Wording.isWhole v⟩

/-- The items of a field.  A field that is empty or absent is no list, but is not refused. -/
def read (field : String) (value : Option String) : Except Problem (Option (List Item)) :=
  match value with
  | none => .ok none
  | some (text : String) =>
    if text == "" then .ok none
    else match Json.Value.ofString text with
      | .ok (.list items) => .ok (some (items.map Item.ofValue))
      | .ok _ => .error (.refused (.noList field))
      | .error .malformed => .error (.refused (.noList field))
      | .error .tooLong => .error .longNumber

def texts (items : List Item) : List String := items.map (·.text)

end FormList
end Service
end SchemaPaths
