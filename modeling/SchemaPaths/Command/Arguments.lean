/-
What the words of a command line ask for.

Every word is looked at by itself first: it is a value, or an option, whose name may be cut short as
long as only one option begins that way and whose value may be attached to it.  Then the words are
taken from left to right, each option with the value it needs.  After the mark `--` every word is a
value.  No value stands alone, so those that no option takes are left over.
-/
import SchemaPaths.Command.Options
import SchemaPaths.Given
import SchemaPaths.Text.Blank
import SchemaPaths.Text.Digit
import SchemaPaths.Text.Quoted

namespace SchemaPaths
namespace Command

/-- A target or a level that is given as nothing is as good as none. -/
structure Arguments where
  source : Given := .nothing
  target : Option String := none
  root : Option Given := none
  ignore : Option (List Given) := none
  add : Option (List Given) := none
  listRoots : Bool := false
  expandGroups : Bool := false
  logLevel : Option String := none
deriving DecidableEq, Repr

/-- Why a command line is refused. -/
inductive Refusal where
  | ambiguous (word : String) (spellings : List String)
  | valueMissing (o : Opt)
  | valueIgnored (o : Opt) (value : String)
  | sourceMissing
  | leftOver (words : List String)
deriving DecidableEq, Repr

def Refusal.message : Refusal → String
  | .ambiguous word spellings =>
    "ambiguous option: " ++ word ++ " could match " ++ ", ".intercalate spellings
  | .valueMissing o => "argument " ++ o.label ++ ": expected one argument"
  | .valueIgnored o value =>
    "argument " ++ o.label ++ ": ignored explicit argument " ++ Text.Quoted.ofString value
  | .sourceMissing => "the following arguments are required: " ++ Opt.source.label
  | .leftOver words => "unrecognized arguments: " ++ " ".intercalate words

/-- A command line ends the work when it is refused or when it asks for help. -/
inductive Stop where
  | help
  | refused (r : Refusal)
deriving DecidableEq, Repr

namespace Arguments

/-! ## Single words -/

inductive Word where
  | value
  | mark
  | option (o : Opt) (spelling : String) (attached : Option String)
  | strange
deriving DecidableEq, Repr

abbrev Candidate := String × Opt × Option String

/-- The start of a word up to an equals sign, and what follows that. -/
def cutAtEquals (word : String) : String × Option String :=
  match Text.cut? '=' word with
  | some (start, value) => (start, some value)
  | none => (word, none)

/-- The options that a word may mean that spells none in full. -/
def candidates (word : String) : List Candidate :=
  match word.toList with
  | '-' :: '-' :: _ =>
    let (start, attached) := cutAtEquals word
    (Opt.spelled.filter fun s => start.toList.isPrefixOf s.1.toList).map fun s =>
      (s.1, s.2, attached)
  | a :: b :: rest =>
    (Opt.spelled.filter fun s => s.1.toList == [a, b]).map fun s =>
      (s.1, s.2, some (String.ofList rest))
  | _ => []

def isNumberBody (cs : List Char) : Bool :=
  let isDigit (c : Char) : Bool := (Text.Digit.value? c).isSome
  match cs.dropWhile isDigit with
  | [] => !cs.isEmpty
  | c :: rest => c == '.' && !rest.isEmpty && rest.all isDigit

/-- Whether a word is a number below zero, which is a value.  One line end may follow it. -/
def isNegativeNumber (word : String) : Bool :=
  match word.toList with
  | '-' :: cs => isNumberBody (if cs.getLast? == some '\n' then cs.dropLast else cs)
  | _ => false

/-- The option that a word spells in full, alone or before a value. -/
def spelledOut? (word : String) : Option Word :=
  match Opt.ofSpelling? word with
  | some o => some (.option o word none)
  | none =>
    let (start, attached) := cutAtEquals word
    (Opt.ofSpelling? start).map fun o => .option o start attached

def readWord (word : String) : Except Refusal Word :=
  match word.toList with
  | '-' :: _ :: _ =>
    match spelledOut? word with
    | some w => .ok w
    | none =>
      match candidates word with
      | [(spelling, o, attached)] => .ok (.option o spelling attached)
      | c :: cs => .error (.ambiguous word ((c :: cs).map (·.1)))
      | [] =>
        if isNegativeNumber word || word.toList.contains ' ' then .ok .value else .ok .strange
  | _ => .ok .value

def readWords : List String → Except Refusal (List (String × Word))
  | [] => .ok []
  | "--" :: words => .ok (("--", .mark) :: words.map fun w => (w, .value))
  | w :: words => do
    let read ← readWord w
    return (w, read) :: (← readWords words)

/-! ## Options -/

/-- The options in a word that has something attached: those without a value, then the one that the
word ends with, and its value if that is attached too.  An option that takes a value takes all that
is attached.  To a short one without a value only another short one can be attached. -/
def unpack (short : Bool) (o : Opt) :
    List Char → Except Refusal (List Opt × Opt × Option String)
  | [] => if o.takesValue then .ok ([], o, some "") else .error (.valueIgnored o "")
  | c :: cs =>
    let value := String.ofList (c :: cs)
    if o.takesValue then .ok ([], o, some value)
    else
      match if short then Opt.ofSpelling? (String.ofList ['-', c]) else none with
      | none => .error (.valueIgnored o value)
      | some next =>
        if cs.isEmpty then .ok ([o], next, none)
        else (unpack true next cs).map fun (os, last) => (o :: os, last)

def isShort (spelling : String) : Bool := spelling.length == 2

def setFlag (a : Arguments) : Opt → Except Stop Arguments
  | .help => .error .help
  | .listRoots => .ok { a with listRoots := true }
  | .expandGroups => .ok { a with expandGroups := true }
  | _ => .ok a

/-- Takes up a value.  Some options collect their values, of the others the last one counts. -/
def setValue (a : Arguments) (value : Given) : Opt → Arguments
  | .source => { a with source := value }
  | .target => { a with target := value.text? }
  | .root => { a with root := some value }
  | .ignore => { a with ignore := some (a.ignore.getD [] ++ [value]) }
  | .add => { a with add := some (a.add.getD [] ++ [value]) }
  | .logLevel => { a with logLevel := value.text? }
  | _ => a

/-! ## Whole lines -/

/-- What has been taken from a line: the arguments, whether a source is among them, and the words
left over. -/
structure Taken where
  arguments : Arguments := {}
  hasSource : Bool := false
  leftOver : List String := []

def Taken.flags (t : Taken) (os : List Opt) : Except Stop Taken := do
  return { t with arguments := ← os.foldlM setFlag t.arguments }

def Taken.value (t : Taken) (o : Opt) (word : String) : Taken := { t with
  arguments := setValue t.arguments (.ofWord word) o
  hasSource := t.hasSource || o == .source }

def Taken.leave (t : Taken) (word : String) : Taken := { t with leftOver := t.leftOver ++ [word] }

/-- The options in the word of an option, the last one with the value attached to it. -/
def optionsOf (o : Opt) (spelling : String) :
    Option String → Except Refusal (List Opt × Opt × Option String)
  | none => .ok ([], o, none)
  | some value => unpack (isShort spelling) o value.toList

/-- Takes the words; an option whose value is not attached to it takes the next word. -/
def takeFrom (t : Taken) : List (String × Word) → Except Stop Taken
  | [] => .ok t
  | (_, .option o spelling attached) :: words => do
    match ← (optionsOf o spelling attached).mapError .refused with
    | (before, last, some v) => takeFrom ((← t.flags before).value last v) words
    | (before, last, none) =>
      if last.takesValue then
        match words with
        | (v, .value) :: words => takeFrom ((← t.flags before).value last v) words
        | _ => .error (.refused (.valueMissing last))
      else takeFrom (← t.flags (before ++ [last])) words
  | (w, _) :: words => takeFrom (t.leave w) words

def ofLine (line : List String) : Except Stop Arguments := do
  let words ← (readWords line).mapError .refused
  let t ← takeFrom {} words
  if !t.hasSource then throw (.refused .sourceMissing)
  if !t.leftOver.isEmpty then throw (.refused (.leftOver t.leftOver))
  return t.arguments

end Arguments
end Command
end SchemaPaths
