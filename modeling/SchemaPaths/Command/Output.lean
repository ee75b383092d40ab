/-
What a run prints, line by line.

A notice is printed as a record of its parts, so that other programs can read it.
-/
import SchemaPaths.Command.Run
import SchemaPaths.Json.Written

namespace SchemaPaths
namespace Command

/-- A field that was given as nothing is an empty list. -/
def fieldOf : Option Given → String
  | some (.text s) => Json.Written.text s
  | some .nothing => Json.Written.emptyList
  | none => Json.Written.absent

def recordOf (n : Notice) : String :=
  Json.Written.record [("name", fieldOf (some (.text n.speaker))),
    ("levelname", fieldOf (some (.text n.level.text))), ("message", fieldOf (some (.text n.text))),
    ("schema_file", fieldOf (n.schemaFile?.map .text)), ("root_node", fieldOf n.rootNode?)]

def Line.shown : Line → String
  | .notice n => recordOf n
  | .text s => s

def CheckFault.message : CheckFault → String
  | .blocked o => o.wording
  | .zeroCharacter => "A path holds a zero character"

/-- What is said of a run that breaks off. -/
def Fault.message : Fault → String
  | .unknownLevel => "Unknown log level"
  | .noText => "A text is missing"
  | .check f => f.message
  | .work f => f.message?.getD "The schema cannot be read"
  | .target o => o.wording
  | .targetZero => CheckFault.zeroCharacter.message

/-- The lines for errors: those of the run, then why it broke off. -/
def Ran.complaints (r : Ran) : List String :=
  r.errors ++ match r.exit with
    | .ok _ => []
    | .error f => [program ++ ": " ++ f.message]

/-- The number that the command ends with; breaking off counts as failure. -/
def Ran.code (r : Ran) : Nat :=
  match r.exit with
  | .ok n => n
  | .error _ => 1

end Command
end SchemaPaths
