/-
The service itself: who may use it, which version it is, and what it reports.
-/
import SchemaPaths.Service.Problem
import SchemaPaths.Settings
import SchemaPaths.Threshold

namespace SchemaPaths
namespace Service

/-! ## Tokens -/

def tokenKey : String := "DEV_TOKEN"
def standardToken : String := "devtoken"

def expectedToken (env : Environment) : String := (env.clean? tokenKey).getD standardToken

/-- The token that was sent, if it is the one that is expected. -/
def checkToken (env : Environment) (token : Option String) : Except Problem String :=
  match token with
  | some (t : String) => if t == expectedToken env then .ok t else .error (.refused .wrongToken)
  | none => .error (.refused .wrongToken)

/-! ## Version and health -/

def versionKey : String := "APP_VERSION"

def version (env : Environment) : String := (env.raw? versionKey).getD "unknown"

def versionHeader (env : Environment) : String × String := ("X-API-Version", version env)

def healthKeys : List String := ["status", "timestamp", "uptime", "api_version"]

def healthStatus : String := "healthy"

/-! ## From start to stop -/

/-- What a service reports that starts and stops, or nothing if there is no level by the name that
the settings give. -/
def reports? (settings : Settings) : Option (List Notice) :=
  (Threshold.ofName? settings.level).map fun least =>
    [Notice.serviceStarted, .serviceStopped].filter (Threshold.shows least)

end Service
end SchemaPaths
