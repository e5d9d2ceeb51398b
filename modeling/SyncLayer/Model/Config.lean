import SyncLayer.Library.Yaml
import SyncLayer.Model.Settings
import SyncLayer.Model.TableTracker

/-!
# Loading the Configuration

`config/Config.cpp` on the nodes of the file. An exception ends the loading; what is caught
at the end is turned into the text of a `ConfigurationError`.
-/

namespace SyncLayer.Model

open SyncLayer.Yaml

def envOrBool (getenv : Env) (name : String) (fallback : Bool) : Bool :=
  match getenv name with
  | some v =>
    if v ≠ "" then
      if v = "true" ∨ v = "1" then true
      else if v = "false" ∨ v = "0" then false
      else fallback
    else fallback
  | none => fallback

namespace Config

/-- `makeConn`; the values are read in this order. -/
def makeConn (getenv : Env) (node : Node) (envPrefix : String) : Except Exception String := do
  let host := envOr getenv (envPrefix ++ "_HOST") ((← node.get "host").asStringOr "localhost")
  let port := envOrInt getenv (envPrefix ++ "_PORT") ((← node.get "port").asOr toInt 5432)
  let user := envOr getenv (envPrefix ++ "_USER") ((← node.get "user").asStringOr "postgres")
  let password := envOr getenv (envPrefix ++ "_PASSWORD") ((← node.get "password").asStringOr "")
  let dbname := envOr getenv (envPrefix ++ "_DBNAME") ((← node.get "dbname").asStringOr "postgres")
  let sslmode := envOr getenv (envPrefix ++ "_SSLMODE")
    ((← node.get "sslmode").asStringOr "disable")
  return ConnValues.text { host, port, user, password, dbname, sslmode }

/-- The tables in the file; no variable stands for them. The source subscripts `sync` twice
    and gets the same node. -/
def yamlTables (sync : Node) : Except Exception (List String) := do
  let tables ← sync.get "tables"
  if tables.isDefined then
    tables.items.mapM Node.asString
  else
    return []

/-- The `try` block of `Config::loadFromFile`, behind `YAML::LoadFile`. -/
def load (getenv : Env) (root : Node) : Except Exception Config := do
  let dbs ← root.getMut "databases"
  let localConn ← makeConn getenv (← dbs.get "local") "SYNC_LOCAL"
  let hostedConn ← makeConn getenv (← dbs.get "hosted") "SYNC_HOSTED"
  let sync ← root.getMut "sync"
  let intervalSeconds := envOrInt getenv "SYNC_INTERVAL_SECONDS"
    ((← sync.get "interval_seconds").asOr toInt 5)
  let batchSize := envOrInt getenv "SYNC_BATCH_SIZE" ((← sync.get "batch_size").asOr toInt 50)
  let autoFetch := envOrBool getenv "SYNC_AUTO_FETCH" ((← sync.get "auto_fetch").asOr toBool true)
  let tables ← yamlTables sync
  let log ← root.getMut "logging"
  let logLevel := envOr getenv "SYNC_LOG_LEVEL" ((← log.get "level").asStringOr "info")
  let logFile := envOr getenv "SYNC_LOG_FILE"
    ((← log.get "file").asStringOr "logs/synclayer.log")
  let health ← root.getMut "health"
  let healthPort := envOrInt getenv "SYNC_HEALTH_PORT" ((← health.get "port").asOr toInt 8080)
  return {
    localConn
    hostedConn
    intervalSeconds
    batchSize
    autoFetch
    tables
    logLevel
    logFile
    healthPort }

/-- `Config::loadFromFile`. `loadFile` stands for `YAML::LoadFile` and `what` for the texts of
    the exceptions. -/
def loadFromFile (loadFile : String → Except Exception Tree) (what : Exception → String)
    (getenv : Env) (path : String) : Except String Config :=
  let loaded : Except Exception Config := do
    let root ← loadFile path
    load getenv (.value root)
  match loaded with
  | .ok config => .ok config
  | .error .badFile => .error ("Config file not found: " ++ path)
  | .error e => .error (what e)

end Config

end SyncLayer.Model
