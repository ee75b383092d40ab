/-
The command as a program: it looks at the files that a run asks for, and does what the run says.
-/
import SchemaPaths.Command.Output
import SchemaPaths.Command.Reach

namespace SchemaPaths
namespace Main

open Command

/-- The number by which reading a directory as a file is refused. -/
def directoryCode : UInt32 := 21

/-- Whether opening a file for writing is refused; opening it this way leaves it as it is. -/
def isLocked (place : List String) : IO Bool := do
  match ← (IO.FS.Handle.mk (Location.ofSteps place) .readWrite).toBaseIO with
  | .error (.permissionDenied ..) => return true
  | _ => return false

def look (d : Disk) (place : List String) : IO Disk := do
  match ← (IO.FS.readBinFile (Location.ofSteps place)).toBaseIO with
  | .ok bytes =>
    let d := d.learn place (.file bytes.toList)
    return if ← isLocked place then d.lock place else d
  | .error (.inappropriateType _ code _) =>
    return if code == directoryCode then d.learn place .directory else d
  | .error _ => return d

/-- Looks wherever the run would look, until there is nothing new. -/
partial def explore (a : Arguments) (seen : List (List String)) (d : Disk) : IO Disk := do
  match ((reach d a).filter fun p => !seen.contains p).eraseDups with
  | [] => return d
  | places => explore a (places ++ seen) (← places.foldlM look d)

def environment : IO Environment := do
  let found ← Settings.keys.mapM fun key => return (key, ← IO.getEnv key)
  return found.filterMap fun (key, value) => value.map fun v => (key, v)

def diskFor (line : List String) : IO Disk := do
  let d : Disk := {
    here := Location.absolute [] (toString (← IO.currentDir)), files := [], directories := [] }
  match Arguments.ofLine line with
  | .ok a => explore a [] d
  | .error _ => return d

def run (line : List String) : IO UInt32 := do
  let disk ← diskFor line
  let ran := Command.run (← environment) disk line
  ran.complaints.forM fun s => IO.eprintln s
  (ran.disk.changedSince disk).forM fun f =>
    IO.FS.writeBinFile (Location.ofSteps f.1) f.2.toByteArray
  ran.output.forM fun l => IO.println l.shown
  return ran.code.toUInt32

end Main
end SchemaPaths

def main (line : List String) : IO UInt32 := SchemaPaths.Main.run line
