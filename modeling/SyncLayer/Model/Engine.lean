import SyncLayer.Model.ReplicationManager

/-!
# The Engine and the Health Server

`core/Engine.cpp` and the handler of `health/HealthServer.cpp`. The constructor of the
engine opens both connections once; a failure leaves `replicationManager_` null for
good, and the engine runs "in health-check only mode".
-/

namespace SyncLayer.Model

/-! ## Construction -/

/-- `PQconnectdb` for one of the two connections: whether it came up. -/
abbrev Connect (W : Type) := Conn → (conninfo : String) → W → Bool × W

/-- `ReplicationManager::ReplicationManager`; an exception is `none`. -/
def ReplicationManager.construct {W : Type} (connect : Connect W) (config : Config) (w : W) :
    Option ReplicationManager × W :=
  let (ok, w) := connect .local_ config.localConn w
  if !ok then (none, w) else
    let (ok, w) := connect .hosted_ config.hostedConn w
    if !ok then (none, w) else (some { config }, w)

structure Engine where
  replicationManager : Option ReplicationManager

/-- `Engine::Engine`: the exception is caught. -/
def Engine.construct {W : Type} (connect : Connect W) (config : Config) (w : W) : Engine × W :=
  let (replicationManager, w) := ReplicationManager.construct connect config w
  ({ replicationManager }, w)

/-- `Engine::run` -/
def Engine.run (fuel : Nat) (e : Engine) : Code Engine := do
  log .engineRunStart
  match e.replicationManager with
  | some m => do
    let m ← m.start fuel
    return { replicationManager := some m }
  | none => do
    log .managerNotAvailable
    return e

/-! ## GET /health -/

structure DatabaseReport where
  status : String
  connections : Int
  sizeMB : Int
  activeQueries : Int
  deriving DecidableEq, Repr

/-- The values of the JSON body. -/
structure HealthReport where
  status : String
  message : Option String := none
  databases : Conn → DatabaseReport

structure HttpResponse where
  status : Nat := 200
  report : HealthReport

def DatabaseReport.json (d : DatabaseReport) : String :=
  "\x7b\n" ++
  "      \"status\": \"" ++ d.status ++ "\",\n" ++
  "      \"connections\": " ++ toString d.connections ++ ",\n" ++
  "      \"size_mb\": " ++ toString d.sizeMB ++ ",\n" ++
  "      \"active_queries\": " ++ toString d.activeQueries ++ "\n" ++
  "    \x7d"

/-- The body, with its line breaks and its indentation. -/
def HealthReport.json (r : HealthReport) : String :=
  "\n\x7b\n" ++
  "  \"status\": \"" ++ r.status ++ "\",\n" ++
  (match r.message with
    | some message => "  \"message\": \"" ++ message ++ "\",\n"
    | none => "") ++
  "  \"databases\": \x7b\n" ++
  "    \"local\": " ++ (r.databases .local_).json ++ ",\n" ++
  "    \"hosted\": " ++ (r.databases .hosted_).json ++ "\n" ++
  "  \x7d\n" ++
  "\x7d\n"

/-- `res.set_content` -/
def HttpResponse.content (res : HttpResponse) : String := res.report.json

def statusText (healthy : Bool) : String := if healthy then "healthy" else "unhealthy"

/-- The values of `HealthStatus` as the handler writes them. -/
def HealthStatus.report (health : HealthStatus) : HealthReport where
  status := statusText health.overall
  databases
    | .local_ => {
        status := statusText health.localDb
        connections := health.localConnections
        sizeMB := health.localDbSizeMB
        activeQueries := health.localActiveQueries }
    | .hosted_ => {
        status := statusText health.hostedDb
        connections := health.hostedConnections
        sizeMB := health.hostedDbSizeMB
        activeQueries := health.hostedActiveQueries }

/-- The body when there is no manager. -/
def notInitialized : HealthReport where
  status := "unhealthy"
  message := some "Replication manager not initialized - database connection failed"
  databases _ := { status := "unhealthy", connections := 0, sizeMB := 0, activeQueries := 0 }

/-- The handler of `GET /health`. -/
def getHealth (replicationManager : Option ReplicationManager) : Code HttpResponse :=
  match replicationManager with
  | none => return { status := 503, report := notInitialized }
  | some _ => do
    let health ← healthCheck
    if !health.overall then
      return { status := 503, report := health.report }
    else
      return { report := health.report }

end SyncLayer.Model
