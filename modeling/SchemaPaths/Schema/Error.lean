/-
What can go wrong with a schema.

Each cause has a constructor and its wording is given in one place.  A `SchemaError` is expected:
whoever asked for the work reports it.  A `Failure` may also be one that nobody reports.
-/
import SchemaPaths.Markup.Fault
import SchemaPaths.Schema.Declaration

namespace SchemaPaths
namespace Schema

/-- What a reference points to. -/
inductive Symbol where
  | element
  | type
  | group
  | attr
  | attrGroup
deriving DecidableEq, Repr

def Symbol.text : Symbol → String
  | .element => "element"
  | .type => "type"
  | .group => "group"
  | .attr => "attribute"
  | .attrGroup => "attribute group"

inductive LoadProblem where
  | notUploaded
  | unreadable (reason : String)
  | malformed
  | notSchema (root : String)
  | remote (location : String)
  | noLocation
  | undeclaredPrefix (pre value : String)
  | noDerivation (type : Option String)
  | circularType (name : Option String)
  | circularGroup (name : Option String)
  | circularSubstitution (name : Option String)
deriving DecidableEq, Repr

def LoadProblem.message : LoadProblem → String
  | .notUploaded => "Schema file not found in upload"
  | .unreadable reason => "Unable to read schema file: " ++ reason
  | .malformed => "Failed to parse schema: *"
  | .notSchema root => "Root element is " ++ root ++ ", not xs:schema"
  | .remote location => "Remote schema location '" ++ location ++ "' is not supported"
  | .noLocation => "Schema location not specified for included schema"
  | .undeclaredPrefix p value =>
    "Undeclared namespace prefix '" ++ p ++ "' in '" ++ value ++ "'"
  | .noDerivation type =>
    "Content of type '" ++ (if type.getD "" == "" then "(anonymous)" else type.getD "") ++
      "' has no derivation"
  | .circularType name => "Circular type derivation through '" ++ name.getD noName ++ "'"
  | .circularGroup name => "Circular model group reference through '" ++ name.getD noName ++ "'"
  | .circularSubstitution name =>
    "Circular substitution group through '" ++ name.getD noName ++ "'"

/-- A message with the file that it is about in front, when there is one. -/
def withSource (message : String) (source : Option String) : String :=
  if source.getD "" == "" then message else source.getD "" ++ ": " ++ message

def unresolvedMessage (what name : String) : String :=
  "Unable to resolve " ++ what ++ " '" ++ name ++ "'"

def unsupportedMessage (kind : String) : String :=
  "No handler registered for node kind '" ++ kind ++ "'"

def cycleMessage (node : String) : String :=
  "Dependency cycle detected at '" ++ node ++ "'"

inductive SchemaError where
  | load (problem : LoadProblem) (source : Option String)
  | unresolved (what : Symbol) (name : QName)
  | rootMissing (name : String)
  | noRoot
  | unsupported (kind : String)
  | cycle (node : Option String)
deriving DecidableEq, Repr

def SchemaError.message : SchemaError → String
  | .load problem source => withSource problem.message source
  | .unresolved what name => unresolvedMessage what.text name.text
  | .rootMissing name =>
    "Unable to find a root node " ++ name ++ ". Please supply a properly qualified node name."
  | .noRoot => "Unable to find a root node. Please supply one."
  | .unsupported kind => unsupportedMessage kind
  | .cycle node => cycleMessage (node.getD noName)

/-- Everything that can end the work early.  Beyond schema errors: a number of occurrences that is
none, a node without a part that its kind promises, such as a derivation without a base, a name that
is missing where a text is to be made of it, a walk that has no rule for elements or attributes,
what the markup refuses, a location with a zero character, and a walk through declarations that
contain themselves. -/
inductive Failure where
  | schema (e : SchemaError)
  | badNumber
  | missingPart
  | nameless
  | unhandled (what : String)
  | entityDeclared
  | encoding (f : Markup.EncodingFault)
  | zeroCharacter
  | endless
deriving DecidableEq, Repr

namespace Failure

def load (problem : LoadProblem) (source : Option String := none) : Failure :=
  .schema (.load problem source)

/-- A name is not found.  One that has no text cannot be reported. -/
def unresolved (what : Symbol) (name : QName) : Failure :=
  if name.text?.isSome then .schema (.unresolved what name) else .nameless

/-- The wording of a failure that has one. -/
def message? : Failure → Option String
  | .schema e => some e.message
  | .unhandled what => some ("SchemaVisitor does not handle " ++ what)
  | _ => none

end Failure
end Schema
end SchemaPaths
