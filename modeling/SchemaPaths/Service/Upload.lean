/-
The files of a request.

Each file is known by a path, which is its name unless paths are given.  Files whose names do not
end as those of schemas do are passed over, but they count towards the number of files.
-/
import SchemaPaths.Service.Problem
import SchemaPaths.Settings

namespace SchemaPaths
namespace Service

structure SentFile where
  name : Option String
  bytes : List UInt8

namespace Upload

abbrev Files := List (String × List UInt8)

def ending : String := ".xsd"

def isSchema (name : String) : Bool := ending.toList.isSuffixOf name.toList

/-- A later file takes the place of an earlier one of the same path. -/
def put (path : String) (bytes : List UInt8) : Files → Files
  | [] => [(path, bytes)]
  | f :: fs => if f.1 = path then (path, bytes) :: fs else f :: put path bytes fs

def bytesIn (megabytes : Int) : Int := megabytes * 1024 * 1024

def totalSize (files : Files) : Nat := files.foldl (fun n f => n + f.2.length) 0

/-- The schemas of a request, under their paths. -/
def read (settings : Settings) (sent : List SentFile) (paths : List String) :
    Except Problem Files := do
  if sent.isEmpty then throw (.refused .noFiles)
  if settings.maxFiles < sent.length then
    throw (.refused (.tooManyFiles sent.length settings.maxFiles))
  if !paths.isEmpty && sent.length != paths.length then throw (.refused .pathCount)
  match sent.mapM (·.name) with
  | none => throw .namelessFile
  | some names =>
    let known := names.zip ((if paths.isEmpty then names else paths).zip (sent.map (·.bytes)))
    let schemas := (known.filter fun f => isSchema f.1).map (·.2)
    if schemas.isEmpty then throw (.refused .noSchemas)
    if bytesIn settings.maxMegabytes < totalSize schemas then
      throw (.refused (.tooLarge settings.maxMegabytes))
    return schemas.foldl (fun fs f => put f.1 f.2 fs) []

end Upload
end Service
end SchemaPaths
