/-
Why a request is not answered.

A refusal is told to whoever asked, with a status and a wording.  The other problems are faults of
the service.
-/
import SchemaPaths.Schema.Error

namespace SchemaPaths
namespace Service

open Schema

inductive Refusal where
  | wrongToken
  | noFiles
  | tooManyFiles (count : Nat) (most : Int)
  | pathCount
  | noSchemas
  | tooLarge (megabytes : Int)
  | noList (field : String)
  | schema (e : SchemaError)
deriving DecidableEq, Repr

namespace Refusal

/-- A schema that cannot be loaded is a bad request; one that does not hold together is not. -/
def status : Refusal → Nat
  | .wrongToken => 401
  | .schema (.load ..) => 400
  | .schema _ => 422
  | _ => 400

def detail : Refusal → String
  | .wrongToken => "Invalid authentication token"
  | .noFiles => "No files provided"
  | .tooManyFiles count most =>
    "Too many files: " ++ toString count ++ " uploaded, maximum is " ++ toString most
  | .pathCount => "Number of files and paths must match"
  | .noSchemas => "No XSD files found in upload"
  | .tooLarge megabytes => "Total file size exceeds " ++ toString megabytes ++ "MB limit"
  | .noList field => field ++ " must be a JSON array"
  | .schema e => e.message

end Refusal

inductive Problem where
  | refused (r : Refusal)
  | failed (f : Failure)
  /-- A file was sent without a name. -/
  | namelessFile
  /-- A whole number in a list has too many digits. -/
  | longNumber
  /-- A node without a name would be part of the answer. -/
  | namelessNode
  /-- A text outside Latin-1 would be part of a header. -/
  | headerText
  /-- Half of a pair would be part of what is sent back. -/
  | bodyText
deriving DecidableEq, Repr

/-- Schema errors are told to whoever asked. -/
def Problem.ofFailure : Failure → Problem
  | .schema (.unsupported kind) => .failed (.schema (.unsupported kind))
  | .schema e => .refused (.schema e)
  | f => .failed f

end Service
end SchemaPaths
