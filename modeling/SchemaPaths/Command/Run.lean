/-
The command: an export to a file, or a list of the roots.

A run is a function of the environment, the files and the command line.  It says what the command
prints, how it ends, and what the files are afterwards: only a run that ends well with an export has
changed one, its target.
-/
import SchemaPaths.Command.Arguments
import SchemaPaths.Command.Checks
import SchemaPaths.Export.Csv
import SchemaPaths.Schema.Loading
import SchemaPaths.Settings
import SchemaPaths.Threshold

namespace SchemaPaths
namespace Command

open Schema

/-- Why a run breaks off without reporting. -/
inductive Fault where
  | unknownLevel
  /-- An option that needs a text was given nothing. -/
  | noText
  | check (f : CheckFault)
  | work (f : Failure)
  | target (o : Disk.Obstacle)
  | targetZero
deriving DecidableEq, Repr

/-- A line of the output. -/
inductive Line where
  | notice (n : Notice)
  | text (s : String)

/-- What a run leads to.  `exit` is the number that the command ends with. -/
structure Ran where
  exit : Except Fault Nat
  output : List Line := []
  errors : List String := []
  disk : Disk

def errorLine (r : Refusal) : String := program ++ ": error: " ++ r.message

/-! ## The parts of the work -/

/-- What the work has come to: its lines so far, and the files. -/
structure Work where
  lines : List Line := []
  disk : Disk

/-- Work that breaks off or ends with a number keeps what it has come to. -/
inductive Ending where
  | fault (f : Fault)
  | exit (code : Nat)

abbrev Working := ExceptT Ending (StateM Work)

def say (ns : List Notice) : Working Unit :=
  modify fun w => { w with lines := w.lines ++ ns.map .notice }

def print (s : String) : Working Unit := modify fun w => { w with lines := w.lines ++ [.text s] }

def giveUp (n : Notice) : Working Unit := do
  say [n]
  throw (.exit 1)

/-- The text given for the source; it is there once the source has been checked. -/
def Arguments.sourceText (a : Arguments) : String := a.source.text?.getD ""

/-- Schema errors are reported; all other failures break the work off. -/
def orReport {α : Type} (a : Arguments) : Except Failure α → Working α
  | .ok x => pure x
  | .error (.schema e) => do
    say [.exportFailed e.message a.sourceText a.root]
    throw (.exit 1)
  | .error f => throw (.fault (.work f))

def check (a : Arguments) : Working Unit := do
  if !a.listRoots && a.target.getD "" == "" then giveUp .targetMissing
  if a.source == .nothing then throw (.fault .noText)
  match checkFiles (← get).disk a.sourceText (if a.listRoots then none else a.target) with
  | .ok none => return
  | .ok (some c) => giveUp (.argumentRefused c.message)
  | .error f => throw (.fault (.check f))

/-- Loads the source and lists the documents, by their locations. -/
def loadSource (a : Arguments) : Working SchemaSet := do
  say [.loadingStarted]
  let (l, outcome) := Loader.load { source := .disk (← get).disk } a.sourceText
  say l.notices
  orReport a outcome
  let documents := l.set.documents.mergeSort fun x y => x.source ≤ y.source
  say (.filesRead documents.length :: documents.map fun doc => .fileListed doc.source doc.space)
  return l.set

/-- A line of node names, each of which has to be there. -/
def nameLine (title : String) (names : List (Option String)) : Except Failure String :=
  match names.mapM id with
  | some ns => .ok (title ++ ": " ++ ",".intercalate ns)
  | none => .error .nameless

def listRoots (a : Arguments) (s : SchemaSet) (groups strict : Bool) : Working Unit := do
  let (c, outcome) := Graph.Dependencies.collect s groups
  say c.notices
  orReport a outcome
  print (← orReport a (nameLine "Root nodes" (Graph.roots c.edges)))
  let search ← orReport a ((Graph.search strict c.edges).mapError fun n => .schema (.cycle n))
  say (search.broken.map fun b => .cycleBroken b.1 b.2)
  print (← orReport a (nameLine "Sorted dependencies" search.finished.reverse))

def writeTarget (target text : String) : Working Unit := do
  if hasZero target then throw (.fault .targetZero)
  match (← get).disk.write target text.toUTF8.toList with
  | .ok d => modify fun w => { w with disk := d }
  | .error o => throw (.fault (.target o))

/-- Exports to the target.  A column without a text is a fault at once, a name to ignore without one
when the root has been found. -/
def exportTo (a : Arguments) (s : SchemaSet) (order : Export.Order) : Working Unit := do
  if a.add.any Given.lacksText then throw (.fault .noText)
  if a.ignore.any Given.lacksText then
    let (ns, outcome) := Export.start s order
    say ns
    let _ ← orReport a outcome
    throw (.fault .noText)
  let w := Export.write s order
  say w.notices
  let r ← orReport a w.outcome
  let target := a.target.getD ""
  writeTarget target w.text
  say [.exported r.count r.rootName target]

/-- What the arguments leave open is taken from the settings. -/
def orderOf (a : Arguments) (settings : Settings) : Export.Order where
  root := a.root.bind Given.text?
  skip := (a.ignore.map Given.texts).getD settings.skip
  columns := (a.add.map Given.texts).getD settings.columns
  groups := a.expandGroups || settings.groups

def work (a : Arguments) (settings : Settings) : Working Unit := do
  check a
  let s ← loadSource a
  let order := orderOf a settings
  if a.listRoots then listRoots a s order.groups settings.strict else exportTo a s order

/-! ## The whole command -/

def levelOf (a : Arguments) (settings : Settings) : String :=
  match a.logLevel with
  | some (level : String) => if level == "" then settings.level else level
  | none => settings.level

def Line.shownAt (least : Nat) : Line → Bool
  | .notice n => Threshold.shows least n
  | .text _ => true

def runWork (a : Arguments) (settings : Settings) (errors : List String) (disk : Disk) : Ran :=
  match Threshold.ofName? (levelOf a settings) with
  | none => { exit := .error .unknownLevel, errors, disk }
  | some least =>
    let (ending, w) := (work a settings).run.run { disk }
    let exit := match ending with
      | .ok () => .ok 0
      | .error (.exit code) => .ok code
      | .error (.fault f) => .error f
    { exit, output := w.lines.filter (Line.shownAt least), errors, disk := w.disk }

def run (env : Environment) (disk : Disk) (line : List String) : Ran :=
  match Arguments.ofLine line with
  | .error .help => { exit := .ok 0, output := helpText.map .text, disk }
  | .error (.refused r) => { exit := .ok 2, errors := usage ++ [errorLine r], disk }
  | .ok a =>
    runWork a (Settings.ofEnvironment env) ((Settings.remarks env).map (·.text)) disk

end Command
end SchemaPaths
