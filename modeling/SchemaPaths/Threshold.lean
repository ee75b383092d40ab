/-
Which notices are shown: those that weigh at least as much as the level that was asked for.
-/
import SchemaPaths.Notice
import SchemaPaths.Text.Upper

namespace SchemaPaths
namespace Threshold

def names : List (String × Nat) := [
  ("CRITICAL", 50), ("FATAL", 50), ("ERROR", 40), ("WARN", 30), ("WARNING", 30), ("INFO", 20),
  ("DEBUG", 10), ("NOTSET", 0)]

/-- The least weight shown at a level that goes by a name, in capitals or not. -/
def ofName? (name : String) : Option Nat := names.lookup (Text.Upper.ofString name)

def shows (least : Nat) (n : Notice) : Bool := least ≤ n.level.weight

end Threshold
end SchemaPaths
