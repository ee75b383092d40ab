/-
The options of the command.
-/
namespace SchemaPaths
namespace Command

def program : String := "xsd-xpath-export"

inductive Opt where
  | help
  | source
  | target
  | root
  | ignore
  | add
  | listRoots
  | expandGroups
  | logLevel
deriving DecidableEq, Repr

namespace Opt

def all : List Opt :=
  [.help, .source, .target, .root, .ignore, .add, .listRoots, .expandGroups, .logLevel]

def spellings : Opt → List String
  | .help => ["-h", "--help"]
  | .source => ["-s", "--source"]
  | .target => ["-t", "--target"]
  | .root => ["-r", "--root"]
  | .ignore => ["-i", "--ignore"]
  | .add => ["-a", "--add"]
  | .listRoots => ["--list-roots"]
  | .expandGroups => ["--expand-groups"]
  | .logLevel => ["--log-level"]

def takesValue : Opt → Bool
  | .help | .listRoots | .expandGroups => false
  | _ => true

/-- How messages name an option. -/
def label (o : Opt) : String := "/".intercalate o.spellings

/-- Every spelling with its option. -/
def spelled : List (String × Opt) := all.flatMap fun o => o.spellings.map fun s => (s, o)

def ofSpelling? (s : String) : Option Opt := spelled.lookup s

end Opt

/-! ## Texts -/

def usage : List String := [
  "usage: xsd-xpath-export [-h] -s SOURCE [-t TARGET] [-r ROOT] [-i ELEMENT]",
  "                        [-a ATTRIBUTE] [--list-roots] [--expand-groups]",
  "                        [--log-level LOG_LEVEL]"]

def helpText : List String := usage ++ [
  "",
  "Extracts XPaths for each element in the source schema and creates a CSV file",
  "with the node name and parent as well as full XPath.",
  "",
  "options:",
  "  -h, --help            show this help message and exit",
  "  -s SOURCE, --source SOURCE",
  "                        The SOURCE xsd file to use to generate the XPaths",
  "  -t TARGET, --target TARGET",
  "                        The TARGET csv file containing the extracted XPaths",
  "                        (required unless --list-roots)",
  "  -r ROOT, --root ROOT  The ROOT element or type to start from. Defaults to",
  "                        the first root node found",
  "  -i ELEMENT, --ignore ELEMENT",
  "                        An element or attribute to ignore when generating the",
  "                        XPaths (repeatable)",
  "  -a ATTRIBUTE, --add ATTRIBUTE",
  "                        An additional attribute to extract from each element,",
  "                        e.g. annotation:deprecated (repeatable)",
  "  --list-roots          Print the root nodes and sorted dependencies instead",
  "                        of writing the CSV",
  "  --expand-groups       Traverse named model groups as dependency roots",
  "  --log-level LOG_LEVEL",
  "                        Log level (default: LOG_LEVEL or INFO)"]

end Command
end SchemaPaths
