/-
Named variables, and what their values are read as.

Values that people typed come with blanks and line ends around them.  These are trimmed, and the
trimming is remarked upon, as is a value that cannot be read.
-/
import SchemaPaths.Text.Integer
import SchemaPaths.Text.Quoted

namespace SchemaPaths

abbrev Environment := List (String × String)

namespace Environment

/-- What is to be said about a value. -/
inductive Remark where
  | trimmed (key raw clean : String)
  | noFlag (key value fallback : String)
  | noNumber (key value fallback : String)
deriving DecidableEq, Repr

def Remark.text : Remark → String
  | .trimmed key raw clean =>
    "Environment variable " ++ key ++ " had trailing whitespace/line endings: raw=" ++
      Text.Quoted.ofString raw ++ ", cleaned=" ++ Text.Quoted.ofString clean
  | .noFlag key value fallback =>
    "Environment variable " ++ key ++ " has unexpected boolean value: " ++
      Text.Quoted.ofString value ++ ". Using default: " ++ fallback
  | .noNumber key value fallback =>
    "Environment variable " ++ key ++ " is not a valid integer: " ++
      Text.Quoted.ofString value ++ ". Using default: " ++ fallback

def raw? (env : Environment) (key : String) : Option String := env.lookup key

def clean? (env : Environment) (key : String) : Option String := (env.raw? key).map Text.trim

def trimRemarks (env : Environment) (key : String) : List Remark :=
  match env.raw? key with
  | some raw => if Text.trim raw == raw then [] else [.trimmed key raw (Text.trim raw)]
  | none => []

/-! ## Flags -/

/-- The words for yes and no, in capitals or not; an empty value means no. -/
def flagOf? (value : String) : Option Bool :=
  let word := value.toLower
  if ["true", "1", "yes", "on"].contains word then some true
  else if ["false", "0", "no", "off", ""].contains word then some false
  else none

def flag? (env : Environment) (key : String) : Option Bool := (env.clean? key).bind flagOf?

def flagWord (b : Bool) : String := if b then "True" else "False"

def flagRemarks (env : Environment) (key : String) (fallback : Bool) : List Remark :=
  env.trimRemarks key ++
    match env.clean? key with
    | some v => if (flagOf? v).isSome then [] else [.noFlag key v (flagWord fallback)]
    | none => []

/-! ## Numbers -/

def number? (env : Environment) (key : String) : Option Int :=
  (env.clean? key).bind Text.Integer.ofString?

def numberRemarks (env : Environment) (key : String) (fallback : Int) : List Remark :=
  env.trimRemarks key ++
    match env.clean? key with
    | some v =>
      if (Text.Integer.ofString? v).isSome then [] else [.noNumber key v (toString fallback)]
    | none => []

/-! ## Lists -/

/-- The items between the marks, trimmed, without the empty ones. -/
def itemsOf (mark value : String) : List String :=
  ((Text.split mark value).map Text.trim).filter (· != "")

/-- The items of a value, which blanks part if there is no mark.  An empty mark does not part the
items of a value that is not empty. -/
def items? (env : Environment) (key : String) (mark : Option String) : Option (List String) :=
  match env.clean? key, mark with
  | none, _ => some []
  | some v, none => some (Text.words v)
  | some v, some mark =>
    if v == "" then some [] else if mark == "" then none else some (itemsOf mark v)

end Environment
end SchemaPaths
