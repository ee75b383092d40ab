/-
What the work reports while it goes on.

A notice is kept as what happened; its wording, its weight and the part of the program that speaks
are functions of that.
-/
import SchemaPaths.Given
import SchemaPaths.Schema.QName

namespace SchemaPaths

inductive Level where
  | debug
  | info
  | warning
  | error
deriving DecidableEq, Repr

def Level.text : Level → String
  | .debug => "DEBUG"
  | .info => "INFO"
  | .warning => "WARNING"
  | .error => "ERROR"

def Level.weight : Level → Nat
  | .debug => 10
  | .info => 20
  | .warning => 30
  | .error => 40

inductive Notice where
  | alreadyLoaded (location : String)
  | loaded (location space : String)
  | importSkipped (space : Option String)
  | following (base location : String)
  | filesLoaded (count : Nat)
  | linked (elements types groups : Nat)
  | collecting (source : String)
  | edgeFound (source target : Option String)
  | graphBuilt (edges : Nat)
  | cycleBroken (node current : Option String)
  | recursionSkipped (name : Option String) (path : List (Option String))
  | recordsWritten (count : Nat)
  | rootFound (name space : String)
  | rootsFound (names : List String)
  | rootChosen (name : String)
  | loadingStarted
  | filesRead (count : Nat)
  | fileListed (location space : String)
  | targetMissing
  | argumentRefused (reason : String)
  | exportFailed (reason source : String) (root : Option Given)
  | exported (count : Nat) (root target : String)
  | serviceStarted
  | serviceStopped
deriving Repr

namespace Notice

def word (name : Option String) : String := name.getD Schema.noName

def text : Notice → String
  | .alreadyLoaded l => "Referenced schema " ++ l ++ " already loaded"
  | .loaded l space => "Loaded schema " ++ l ++ " (namespace '" ++ space ++ "')"
  | .importSkipped space =>
    "Import of namespace '" ++ word space ++ "' has no schemaLocation - skipped"
  | .following base l => base ++ ": loading referenced schema " ++ l
  | .filesLoaded n => toString n ++ " schema files loaded"
  | .linked e t g =>
    "Compiled schema set: " ++ toString e ++ " elements, " ++ toString t ++ " types, " ++
      toString g ++ " groups"
  | .collecting source => "Collecting dependencies from " ++ source
  | .edgeFound s t => "Edge found: Source=" ++ word s ++ ", Target=" ++ word t
  | .graphBuilt n => "Dependency graph built with " ++ toString n ++ " edges"
  | .cycleBroken node current =>
    "Cycle through '" ++ word node ++ "' broken at '" ++ word current ++ "'"
  | .recursionSkipped name path =>
    "Skipping recursive element " ++ word name ++ " under /" ++ "/".intercalate (path.map word)
  | .recordsWritten n => toString n ++ " XPath records written"
  | .rootFound name space => "Found root node " ++ name ++ " in namespace " ++ space
  | .rootsFound names => "Found the following root nodes: " ++ ",".intercalate names
  | .rootChosen name => "Automatically selecting: " ++ name ++ " as the root node"
  | .loadingStarted => "Loading schemas..."
  | .filesRead n => toString n ++ " files loaded"
  | .fileListed l space => "File: " ++ l ++ ", Namespace: " ++ space
  | .targetMissing => "A target csv file is required unless --list-roots is given"
  | .argumentRefused reason => reason
  | .exportFailed reason _ _ => "XPath extraction failed: " ++ reason
  | .exported n root target =>
    "Wrote " ++ toString n ++ " records from root " ++ root ++ " to " ++ target
  | .serviceStarted => "Starting XSD XPath export service"
  | .serviceStopped => "Shutting down XSD XPath export service"

def level : Notice → Level
  | .alreadyLoaded _ | .importSkipped _ | .following _ _ | .collecting _ | .edgeFound _ _
  | .cycleBroken _ _ | .recursionSkipped _ _ => .debug
  | .targetMissing | .argumentRefused _ | .exportFailed _ _ _ => .error
  | _ => .info

/-- The part of the program that speaks. -/
def speaker : Notice → String
  | .alreadyLoaded _ | .loaded _ _ | .importSkipped _ | .following _ _ | .filesLoaded _
  | .linked _ _ _ => "xsd_xpath.services.domain.schema.loader"
  | .collecting _ | .edgeFound _ _ | .graphBuilt _ =>
    "xsd_xpath.services.domain.schema.visitors.dependency_graph"
  | .cycleBroken _ _ => "xsd_xpath.services.domain.schema.topological_sort"
  | .recursionSkipped _ _ | .recordsWritten _ =>
    "xsd_xpath.services.domain.schema.visitors.xpath_csv"
  | .rootFound _ _ | .rootsFound _ | .rootChosen _ =>
    "xsd_xpath.services.domain.schema.exporter"
  | .loadingStarted | .filesRead _ | .fileListed _ _ | .targetMissing | .argumentRefused _
  | .exportFailed _ _ _ | .exported _ _ _ => "xsd_xpath.cli"
  | .serviceStarted | .serviceStopped => "xsd_xpath.main"

/-- The file that a notice is about, if it names one apart from its wording. -/
def schemaFile? : Notice → Option String
  | .loaded l _ => some l
  | .fileListed l _ => some l
  | .exportFailed _ source _ => some source
  | _ => none

/-- The root that a notice is about: its name, or what was given for that. -/
def rootNode? : Notice → Option Given
  | .rootFound name _ => some (.text name)
  | .rootChosen name => some (.text name)
  | .exportFailed _ _ root => root
  | .exported _ root _ => some (.text root)
  | _ => none

end Notice
end SchemaPaths
