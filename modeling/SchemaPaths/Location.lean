/-
Locations of documents: slashes between steps, `.` for the same place and `..` for the one above.
-/
namespace SchemaPaths
namespace Location

/-- The pieces between slashes; there is always one. -/
def pieces : List Char → List (List Char)
  | [] => [[]]
  | c :: cs =>
    match pieces cs with
    | [] => [[c]]
    | p :: ps => if c == '/' then [] :: p :: ps else (c :: p) :: ps

def steps (s : String) : List String := (pieces s.toList).map String.ofList

/-- Backslashes count as slashes. -/
def withSlashes (s : String) : String :=
  String.ofList (s.toList.map fun c => if c == '\\' then '/' else c)

/-- The slashes that a location keeps at its front: two are kept as two, more are one. -/
def rootSlashes : List Char → Nat
  | '/' :: '/' :: '/' :: _ => 1
  | '/' :: '/' :: _ => 2
  | '/' :: _ => 1
  | _ => 0

/-- Walks the steps, the ones taken so far innermost first.  Going up undoes a step; where there is
none to undo it is kept, except at the root, which is above itself. -/
def walk (rooted : Bool) : List String → List String → List String
  | taken, [] => taken.reverse
  | taken, s :: ss =>
    if s == "" || s == "." then walk rooted taken ss
    else if s == ".." then
      match taken with
      | [] => if rooted then walk rooted [] ss else walk rooted [".."] ss
      | t :: ts => if t == ".." then walk rooted (".." :: t :: ts) ss else walk rooted ts ss
    else walk rooted (s :: taken) ss

/-- A location in its plainest form; the empty one is the place itself. -/
def normalize (s : String) : String :=
  let slashes := rootSlashes s.toList
  let path := "/".intercalate (walk (slashes != 0) [] (steps s))
  let whole := String.ofList (List.replicate slashes '/') ++ path
  if whole == "" then "." else whole

/-- What stands before the last slash. -/
def parent (s : String) : String :=
  let head := (s.toList.reverse.dropWhile (· != '/')).reverse
  if head.all (· == '/') then String.ofList head
  else String.ofList (head.reverse.dropWhile (· == '/')).reverse

/-- What stands after the last slash. -/
def baseName (s : String) : String :=
  String.ofList (s.toList.reverse.takeWhile (· != '/')).reverse

def isRooted (s : String) : Bool := s.toList.head? == some '/'

/-- `s` as seen from `base`; a location from the root stays what it is. -/
def join (base s : String) : String :=
  if isRooted s then s
  else if base == "" || base.toList.getLast? == some '/' then base ++ s
  else base ++ "/" ++ s

/-- Whether a location names a way to reach it, such as `http`. -/
def isRemote (s : String) : Bool :=
  match s.toList with
  | c :: cs =>
    c.isAlpha &&
      "://".toList.isPrefixOf
        (cs.dropWhile fun c => c.isAlphanum || c == '+' || c == '.' || c == '-')
  | [] => false

/-- A file name without its last extension.  Points at the front of a name begin no extension. -/
def withoutExtension (name : String) : String :=
  let cs := name.toList
  let front := cs.takeWhile (· == '.')
  let rest := cs.drop front.length
  if rest.contains '.' then
    String.ofList (front ++ ((rest.reverse.dropWhile (· != '.')).drop 1).reverse)
  else name

/-! ## Paths as they stand

A step up is kept here, since what is above a step is known only where the step leads. -/

def plainSteps (s : String) : List String := (steps s).filter fun p => p != "" && p != "."

def ofPlainSteps (rooted : Bool) (ss : List String) : String :=
  if rooted then "/" ++ "/".intercalate ss
  else if ss.isEmpty then "." else "/".intercalate ss

/-- A path without the steps that stay where they are. -/
def plain (s : String) : String := ofPlainSteps (isRooted s) (plainSteps s)

/-- The last step of a path; there is none to the root or to the place itself. -/
def lastStep (s : String) : String := (plainSteps s).getLastD ""

/-- A path without its last step. -/
def directory (s : String) : String := ofPlainSteps (isRooted s) (plainSteps s).dropLast

/-! ## Absolute places -/

/-- The steps from the root to a location, seen from a place given by its own steps. -/
def absolute (place : List String) (s : String) : List String :=
  walk true [] ((if isRooted s then [] else place) ++ steps s)

def ofSteps (ss : List String) : String := "/" ++ "/".intercalate ss

end Location
end SchemaPaths
