/-
The settings that the command and the service share.
-/
import SchemaPaths.Environment
import SchemaPaths.Text.Upper

namespace SchemaPaths

structure Settings where
  /-- Names of elements and attributes that exports leave out. -/
  skip : List String := []
  /-- The additional columns of exports. -/
  columns : List String := []
  /-- Whether graphs take groups as starting points. -/
  groups : Bool := false
  /-- Whether cycles make sorting fail. -/
  strict : Bool := false
  maxFiles : Int := 150
  maxMegabytes : Int := 20
  level : String := "INFO"
deriving DecidableEq, Repr

namespace Settings

def skipKey : String := "XPATH_EXPORT_SKIP_NODES"
def columnsKey : String := "XPATH_EXPORT_ADDITIONAL_ATTRIBUTES"
def groupsKey : String := "XPATH_EXPORT_EXPAND_GROUPS"
def strictKey : String := "XPATH_EXPORT_STRICT_SORT"
def maxFilesKey : String := "XPATH_EXPORT_MAX_SCHEMA_FILES"
def maxMegabytesKey : String := "MAX_SCHEMA_FILE_SIZE_MB"
def levelKey : String := "LOG_LEVEL"

def keys : List String :=
  [skipKey, columnsKey, groupsKey, strictKey, maxFilesKey, maxMegabytesKey, levelKey]

def standard : Settings := {}

/-- The items between commas. -/
def listed (env : Environment) (key : String) : List String :=
  ((env.clean? key).map (Environment.itemsOf ",")).getD []

def levelOf (env : Environment) : String :=
  match env.clean? levelKey with
  | some v => if v == "" then standard.level else Text.Upper.ofString v
  | none => standard.level

def ofEnvironment (env : Environment) : Settings where
  skip := listed env skipKey
  columns := listed env columnsKey
  groups := (env.flag? groupsKey).getD standard.groups
  strict := (env.flag? strictKey).getD standard.strict
  maxFiles := (env.number? maxFilesKey).getD standard.maxFiles
  maxMegabytes := (env.number? maxMegabytesKey).getD standard.maxMegabytes
  level := levelOf env

/-- What is to be said about the values, in the order in which they are read. -/
def remarks (env : Environment) : List Environment.Remark :=
  env.trimRemarks skipKey ++ env.trimRemarks columnsKey ++
    env.flagRemarks groupsKey standard.groups ++ env.flagRemarks strictKey standard.strict ++
    env.numberRemarks maxFilesKey standard.maxFiles ++
    env.numberRemarks maxMegabytesKey standard.maxMegabytes ++ env.trimRemarks levelKey

end Settings
end SchemaPaths
