/-
What is given for an option.

As a rule that is a text.  Where the mark `--` is attached to an option it is none: the option then
counts as given, but with nothing.
-/
namespace SchemaPaths

inductive Given where
  | text (s : String)
  | nothing
deriving DecidableEq, Repr

namespace Given

def ofWord (word : String) : Given := if word == "--" then .nothing else .text word

def text? : Given → Option String
  | .text s => some s
  | .nothing => none

/-- The texts among what was given. -/
def texts (gs : List Given) : List String := gs.filterMap text?

/-- Whether something was given that is no text. -/
def lacksText (gs : List Given) : Bool := gs.contains .nothing

end Given
end SchemaPaths
