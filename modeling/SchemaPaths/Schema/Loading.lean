/-
Loading: a primary document and everything it refers to.

A document enters the set before the documents it refers to are read, so documents may refer to each
other in circles.  What was loaded before a failure stays loaded, and every load links all the
declarations there are.
-/
import SchemaPaths.Disk
import SchemaPaths.Notice
import SchemaPaths.Schema.Declaring
import SchemaPaths.Schema.Linking

namespace SchemaPaths
namespace Schema

/-- Where documents come from: files handed over under their names, or a directory tree. -/
inductive Source where
  | upload (files : List (String × List UInt8))
  | disk (d : Disk)

namespace Source

/-- Files under the plainest forms of their names; of two with the same form the later counts, in
the place of the earlier. -/
def ofFiles (files : List (String × List UInt8)) : Source :=
  .upload (files.foldl (fun done (name, bytes) =>
    let name := Location.normalize (Location.withSlashes name)
    if done.any fun f => f.1 == name then
      done.map fun f => if f.1 == name then (name, bytes) else f
    else done ++ [(name, bytes)]) [])

def place (path : String) (d : Disk) : Except Failure String :=
  if path.toList.contains '\x00' then .error .zeroCharacter
  else .ok (Location.ofSteps (d.resolve path))

/-- The location that a path given from outside means. -/
def normalize : Source → String → Except Failure String
  | .upload _, path => .ok (Location.normalize (Location.withSlashes path))
  | .disk d, path => place path d

/-- The location that a path written in the document at `base` means. -/
def resolve (source : Source) (base path : String) : Except Failure String :=
  if Location.isRemote path then .error (.load (.remote path) (some base))
  else match source with
    | .upload _ =>
      .ok (Location.normalize (Location.join (Location.parent base) (Location.withSlashes path)))
    | .disk d => place (Location.join (Location.parent base) path) d

def read (source : Source) (location : String) : Except Failure (List UInt8) :=
  match source with
  | .upload files =>
    match files.lookup location with
    | some bytes => .ok bytes
    | none => .error (.load .notUploaded (some location))
  | .disk d =>
    match d.read location with
    | .ok bytes => .ok bytes
    | .error o => .error (.load (.unreadable (o.message location)) (some location))

def fileCount : Source → Nat
  | .upload files => files.length
  | .disk d => d.files.length

end Source

/-- Reads a document into a set.  Of a document with a fault, what was read before the fault stays
declared, but nothing enters the tables. -/
def SchemaSet.read (s : SchemaSet) (setting : Setting) (content : List Markup.Tree) :
    SchemaSet × Except Failure (List Directive) :=
  let (outcome, declared) := (Declaring.document setting content).run.run s.declared
  match outcome with
  | .error e => ({ s with declared }, .error e)
  | .ok (doc, directives) => (({ s with declared } : SchemaSet).add doc, .ok directives)

structure Loader where
  source : Source
  set : SchemaSet := {}
  notices : List Notice := []

namespace Loader

abbrev Load := ExceptT Failure (StateM Loader)

def lift {α : Type} (r : Except Failure α) : Load α :=
  match r with
  | .ok a => pure a
  | .error e => throw e

def say (n : Notice) : Load Unit := modify fun l => { l with notices := l.notices ++ [n] }

def isLoaded (l : Loader) (location : String) : Bool :=
  l.set.documents.any fun doc => doc.source == location

def treeOf (location : String) (bytes : List UInt8) : Except Failure Markup.Tree :=
  match Markup.Document.ofBytes bytes with
  | .ok t => .ok t
  | .error .malformed => .error (.load .malformed (some location))
  | .error .entityDeclared => .error .entityDeclared
  | .error (.encoding f) => .error (.encoding f)

/-- The tree of a document, whose root must be that of a schema. -/
def schemaOf (location : String) (bytes : List UInt8) : Except Failure Markup.Tree := do
  let tree ← treeOf location bytes
  let name := tree.name?.getD ⟨"", ""⟩
  if Construct.ofName? name == some .schema then .ok tree
  else .error (.load (.notSchema name.text) (some location))

/-- How to read a document: a namespace is adopted only where the document has none. -/
def settingOf (location : String) (attributes : Attributes) (prefixes : Markup.Prefixes)
    (adopted : Option String) : Setting :=
  let own := valueOf? attributes "targetNamespace"
  { source := location
    space := own.getD (adopted.getD "")
    adopted := own.isNone && adopted.isSome
    prefixes
    elementForm := (valueOf? attributes "elementFormDefault").getD "unqualified"
    attributeForm := (valueOf? attributes "attributeFormDefault").getD "unqualified" }

/-- Reads the declarations of a document and takes them up. -/
def enter (setting : Setting) (content : List Markup.Tree) : Load (List Directive) := do
  let l ← get
  let (set, outcome) := l.set.read setting content
  modify fun l => { l with set }
  let directives ← lift outcome
  say (.loaded setting.source setting.space)
  return directives

/-- Loads the document at a location unless it is there already, then what it refers to, each
reference with everything behind it before the next.  A document is entered before its references
are followed, so the number of files bounds how deep they lead. -/
def loadDocument : Nat → String → Option String → Load Unit
  | 0, _, _ => throw .endless
  | fuel + 1, location, adopted => do
    if (← get).isLoaded location then
      say (.alreadyLoaded location)
      return
    let bytes ← lift ((← get).source.read location)
    let tree ← lift (schemaOf location bytes)
    let setting :=
      settingOf location tree.attributes (Markup.Prefixes.ofBytes bytes) adopted
    let directives ← enter setting tree.content
    directives.forM fun d => do
      match d.path? with
      | none =>
        if d.construct == .imports then say (.importSkipped d.space)
        else throw (.load .noLocation (some location))
      | some path =>
        let child ← lift ((← get).source.resolve location path)
        say (.following location child)
        loadDocument fuel child (if d.construct == .imports then none else some setting.space)

/-- Loads the primary document and all documents behind it. -/
def readAll (primary : String) : Load Unit := do
  let location ← lift ((← get).source.normalize primary)
  loadDocument ((← get).source.fileCount + 2) location none
  say (.filesLoaded (← get).set.documents.length)

/-- Links everything that is declared; the set is kept as far as linking came. -/
def linkAll : Load Unit := do
  let l ← get
  let (linked, outcome) := l.set.link
  modify fun l => { l with set := linked }
  lift outcome
  say (.linked linked.elements.length linked.types.length linked.groups.length)

def loadAll (primary : String) : Load Unit := do
  readAll primary
  linkAll

/-- Loads and links; the loader keeps what was done before a failure. -/
def load (l : Loader) (primary : String) : Loader × Except Failure Unit :=
  let (outcome, l) := (loadAll primary).run.run l
  (l, outcome)

end Loader
end Schema
end SchemaPaths
