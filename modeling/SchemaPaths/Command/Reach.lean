/-
Where a run would look.

A disk holds only what has been looked at.  Loading on it stops at the first document that it does
not hold, and tells of the places it was led to.  Once all of those have been looked at, a run on
the disk finds what it would find on the whole tree.
-/
import SchemaPaths.Command.Run

namespace SchemaPaths
namespace Command

def followed (ns : List Notice) : List String :=
  ns.filterMap fun n => match n with
    | .following _ location => some location
    | _ => none

/-- The paths that a run on the disk would follow: the source, what it refers to, and the target. -/
def paths (d : Disk) (a : Arguments) : List String :=
  let (loader, _) := Schema.Loader.load { source := .disk d } a.sourceText
  let target := a.target.getD ""
  [a.sourceText, Location.ofSteps (d.resolve a.sourceText), target,
    Location.ofSteps (d.resolve (Location.directory target))] ++ followed loader.notices

def reach (d : Disk) (a : Arguments) : List (List String) :=
  ((paths d a).filter fun p => !hasZero p).flatMap d.way

end Command
end SchemaPaths
