/-
Requests as forms send them, and the file that an export is sent back as.
-/
import SchemaPaths.Service.Answer
import SchemaPaths.Service.FormList

namespace SchemaPaths
namespace Service

/-- The fields of a form.  Lists are texts that are still to be read. -/
structure Form where
  primary : Option String := none
  paths : Option String := some "[]"
  groups : Option Bool := none
  root : Option String := none
  ignore : Option String := none
  add : Option String := none
deriving DecidableEq, Repr

namespace Form

def request (form : Form) (sent : List SentFile) : Except Problem Request := do
  let paths ← FormList.read "file_paths" form.paths
  return { sent, paths := (paths.map FormList.texts).getD [], primary := form.primary }

def dependencies (settings : Settings) (form : Form) (sent : List SentFile) :
    Except Problem DependencyAnswer := do
  Service.dependencies settings (← form.request sent) form.groups

/-- A file sent back, with what its headers say. -/
structure Download where
  body : String
  mediaType : String := "text/csv"
  disposition : String
  root : String
deriving DecidableEq, Repr

/-- A name for the export of a file. -/
def exportName (primary : String) : String :=
  Location.withoutExtension (Location.baseName primary) ++ ".csv"

def disposition (name : String) : String := "attachment; filename=\"" ++ name ++ "\""

def isHeaderText (s : String) : Bool := s.toList.all fun c => c.toNat ≤ 0xff

/-- An item that is not whole is the name of nothing that could be ignored; as a column it cannot be
sent back. -/
def exportPaths (settings : Settings) (form : Form) (sent : List SentFile) :
    Except Problem Download := do
  let request ← form.request sent
  let ignore ← FormList.read "ignore" form.ignore
  let add ← FormList.read "add" form.add
  let answer ← Service.exportPaths settings request form.root
    (ignore.map fun items => FormList.texts (items.filter (·.isWhole))) (add.map FormList.texts)
  if add.any fun items => items.any fun i => !i.isWhole then throw .bodyText
  let disposition := disposition (exportName answer.primary)
  if !(isHeaderText disposition && isHeaderText answer.root) then throw .headerText
  return { body := answer.csv, disposition, root := answer.root }

end Form
end Service
end SchemaPaths
