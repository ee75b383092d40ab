/-
What is checked about the files of a command line before any work is done.
-/
import SchemaPaths.Disk

namespace SchemaPaths
namespace Command

/-- Why the named files cannot be used. -/
inductive Complaint where
  | sourceMissing (source : String)
  | directoryMissing (directory : String)
  | readOnly (name : String)
deriving DecidableEq, Repr

def Complaint.message : Complaint → String
  | .sourceMissing source => "Missing source file specified: '" ++ source ++ "'"
  | .directoryMissing directory => "Missing target directory specified: '" ++ directory ++ "'"
  | .readOnly name => "Target file '" ++ name ++ "' is read only. Please make it writable."

/-- Why the check itself fails. -/
inductive CheckFault where
  | blocked (o : Disk.Obstacle)
  | zeroCharacter
deriving DecidableEq, Repr

def hasZero (path : String) : Bool := path.toList.contains '\x00'

/-- Whether a path leads to something that `p` holds of; nothing has a name with a zero
character. -/
def leadsTo (d : Disk) (p : Disk.Entry → Bool) (path : String) : Except CheckFault Bool :=
  if hasZero path then .ok false
  else (d.leadsTo p (Location.plain path)).mapError .blocked

/-- The directory of the target is looked for where its path means, whatever is on the way.  A
target that is there already has to be one that may be written. -/
def checkTarget (d : Disk) (target : String) : Except CheckFault (Option Complaint) := do
  let directory := Location.directory target
  if hasZero directory then throw .zeroCharacter
  let place := Location.ofSteps (d.resolve directory)
  if !(← leadsTo d Disk.Entry.isDirectory place) then return some (.directoryMissing place)
  if (← leadsTo d (fun _ => true) target) && !d.mayWrite (Location.plain target) then
    return some (.readOnly (Location.lastStep target))
  return none

/-- The source has to be a file, and a target has to be one that can be written. -/
def checkFiles (d : Disk) (source : String) (target : Option String) :
    Except CheckFault (Option Complaint) := do
  if !(← leadsTo d Disk.Entry.isFile source) then return some (.sourceMissing source)
  match target with
  | none => return none
  | some t => checkTarget d t

end Command
end SchemaPaths
