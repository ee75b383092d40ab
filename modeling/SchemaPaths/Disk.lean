/-
A directory tree as far as it can be seen: files with their bytes, and directories.

Places are given by their steps from the root.  The directory that the work is done in exists, and
so does everything above a known file or directory.  Everything can be looked at, but there may be
places that must not be written: a file there keeps its bytes, a directory the names in it.
-/
import SchemaPaths.Location
import SchemaPaths.Text.Quoted

namespace SchemaPaths

structure Disk where
  here : List String
  files : List (List String × List UInt8)
  directories : List (List String)
  readOnly : List (List String) := []

namespace Disk

inductive Entry where
  | file (bytes : List UInt8)
  | directory

/-- Why a place cannot be opened. -/
inductive Obstacle where
  | missing
  | forbidden
  | isDirectory
  | notDirectory
  | nameTooLong
deriving DecidableEq, Repr

def Obstacle.number : Obstacle → Nat
  | .missing => 2
  | .forbidden => 13
  | .notDirectory => 20
  | .isDirectory => 21
  | .nameTooLong => 36

def Obstacle.wording : Obstacle → String
  | .missing => "No such file or directory"
  | .forbidden => "Permission denied"
  | .notDirectory => "Not a directory"
  | .isDirectory => "Is a directory"
  | .nameTooLong => "File name too long"

def Obstacle.message (o : Obstacle) (path : String) : String :=
  "[Errno " ++ toString o.number ++ "] " ++ o.wording ++ ": " ++ Text.Quoted.ofString path

def file? (d : Disk) (place : List String) : Option (List UInt8) := d.files.lookup place

def isDirectory (d : Disk) (place : List String) : Bool :=
  place.isPrefixOf d.here ||
    d.directories.any (fun p => place.isPrefixOf p) ||
    d.files.any fun f => place.isPrefixOf f.1 && place != f.1

def entryAt (d : Disk) (place : List String) : Except Obstacle Entry :=
  match d.file? place with
  | some bytes => .ok (.file bytes)
  | none => if d.isDirectory place then .ok .directory else .error .missing

/-- The longest name that a step may have, and the longest path, in bytes. -/
def nameLimit : Nat := 255
def pathLimit : Nat := 4095

/-- Takes the steps one after the other.  Only a directory can be left, upwards too, so a step that
leads nowhere is not mended by a later one. -/
def follow (d : Disk) : List String → List String → Except Obstacle (List String)
  | place, [] => .ok place
  | place, s :: ss => do
    match d.entryAt place with
    | .error o => throw o
    | .ok (.file _) => throw .notDirectory
    | .ok .directory =>
      if s == "" || s == "." then follow d place ss
      else if s == ".." then follow d place.dropLast ss
      else if s.utf8ByteSize > nameLimit then throw .nameTooLong
      else follow d (place ++ [s]) ss

def start (d : Disk) (path : String) : List String :=
  if Location.isRooted path then [] else d.here

/-- The place that a path leads to, from the root or from here. -/
def locate (d : Disk) (path : String) : Except Obstacle (List String) := do
  if path == "" then throw .missing
  if path.utf8ByteSize > pathLimit then throw .nameTooLong
  follow d (d.start path) (Location.steps path)

/-- What a path leads to. -/
def find (d : Disk) (path : String) : Except Obstacle Entry := do
  d.entryAt (← d.locate path)

/-- Whether a path leads to something that `p` holds of.  A way that leads nowhere is an answer, but
one that cannot be walked because it is too long is none. -/
def leadsTo (d : Disk) (p : Entry → Bool) (path : String) : Except Obstacle Bool :=
  match d.find path with
  | .ok e => .ok (p e)
  | .error .nameTooLong => .error .nameTooLong
  | .error _ => .ok false

def isReadOnly (d : Disk) (place : List String) : Bool := d.readOnly.contains place

/-- Whether what a path leads to may be written; nothing may where it leads nowhere. -/
def mayWrite (d : Disk) (path : String) : Bool :=
  match d.locate path with
  | .ok place => (d.entryAt place).isOk && !d.isReadOnly place
  | .error _ => false

def Entry.isFile : Entry → Bool
  | .file _ => true
  | .directory => false

def Entry.isDirectory : Entry → Bool
  | .file _ => false
  | .directory => true

/-- The bytes of the file that a path leads to. -/
def read (d : Disk) (path : String) : Except Obstacle (List UInt8) := do
  match ← d.find path with
  | .file bytes => return bytes
  | .directory => throw .isDirectory

/-- The file of a directory that a path names for writing: the steps to the directory, then a step
that leads on from it. -/
def fileStep? (path : String) : Except Obstacle (List String × String) :=
  if path == "" then .error .missing
  else
    let steps := Location.steps path
    match steps.reverse.dropWhile (· == "") with
    | [] => .error .isDirectory
    | last :: before => .ok (before.reverse, if steps.getLast? == some "" then "" else last)

/-- Whether a file may be put at a place: a file that is there is written, or else its directory. -/
def mayPut (d : Disk) (place : List String) : Bool :=
  !d.isReadOnly (if (d.file? place).isSome then place else place.dropLast)

/-- The place of the file that is written through a path.  Its directory has to be there; a last
step that can only lead to a directory cannot be written to. -/
def placeFor (d : Disk) (path : String) : Except Obstacle (List String) := do
  if path.utf8ByteSize > pathLimit then throw .nameTooLong
  let (before, last) ← fileStep? path
  let directory ← follow d (d.start path) before
  match ← d.entryAt directory with
  | .file _ => throw .notDirectory
  | .directory =>
    if last == "" || last == "." || last == ".." then throw .isDirectory
    if last.utf8ByteSize > nameLimit then throw .nameTooLong
    let place := directory ++ [last]
    if d.isDirectory place then throw .isDirectory
    if !d.mayPut place then throw .forbidden
    return place

def put (place : List String) (bytes : List UInt8) :
    List (List String × List UInt8) → List (List String × List UInt8)
  | [] => [(place, bytes)]
  | f :: fs => if f.1 = place then (place, bytes) :: fs else f :: put place bytes fs

/-- Takes up what was found at a place. -/
def learn (d : Disk) (place : List String) : Entry → Disk
  | .file bytes => { d with files := put place bytes d.files }
  | .directory => { d with directories := place :: d.directories }

/-- Takes up that a place must not be written. -/
def lock (d : Disk) (place : List String) : Disk := { d with readOnly := place :: d.readOnly }

/-- Makes the file that a path names hold the bytes and nothing else. -/
def write (d : Disk) (path : String) (bytes : List UInt8) : Except Obstacle Disk := do
  let place ← d.placeFor path
  return d.learn place (.file bytes)

/-- The absolute place that a path means, whether or not anything is there. -/
def resolve (d : Disk) (path : String) : List String := Location.absolute d.here path

/-- The files that hold something else than they do in `before`. -/
def changedSince (d before : Disk) : List (List String × List UInt8) :=
  d.files.filter fun f => before.file? f.1 != some f.2

/-! ## Getting to know a tree -/

def wayFrom : List String → List String → List (List String)
  | place, [] => [place]
  | place, s :: ss => place :: wayFrom (Location.walk true [] (place ++ [s])) ss

/-- The places on the way along a path, with its end. -/
def way (d : Disk) (path : String) : List (List String) :=
  wayFrom (d.start path) (Location.steps path)

end Disk
end SchemaPaths
