import SyncLayer.Library.CString
import SyncLayer.Model.Retry
import SyncLayer.Model.TableTracker

/-!
# The Replication Manager

`replication/ReplicationManager.cpp`: `executeWithRetry`, the initial copy, `start` and
`healthCheck`. `PQclear` and `PQfreemem` release results that are not used again, so
they leave no trace here.

The page loop of `initialSync` is a `while (true)`. It gets a budget of pages (`fuel`);
where a statement of the theory speaks of the loop's end, it quantifies over all large
enough budgets.
-/

namespace SyncLayer.Model

/-! ## Statements with retry -/

/-- One attempt of `executeWithRetry`; a failed result is cleared and dropped. -/
def attemptQuery (conn : Conn) (query : Stmt) (attempt : Int) (_res : Option PGresult) :
    Code (Bool × Option PGresult) := do
  let res ← PQexec conn query
  if PQresultStatus res = .commandOk ∨ PQresultStatus res = .tuplesOk then
    return (true, res)
  else
    log (.queryFailed attempt)
    return (false, none)

/-- `ReplicationManager::executeWithRetry` -/
def executeWithRetry (conn : Conn) (query : Stmt) (maxAttempts : Int := 3) :
    Code (Option PGresult) :=
  withExponentialBackoff maxAttempts (attemptQuery conn query) none

/-! ## The initial copy -/

def pageSize : Int32 := 1000

def batchSize : Nat := 100

/-- One cell of the `values` string: a text that cannot be escaped becomes `NULL`. -/
def encodeCell : Cell → Code SqlValue
  | none => return .null
  | some val => do
    let escaped ← PQescapeLiteral val
    if escaped then return .literal val else return .null

/-- The `values` string of one row. -/
def encodeRow (row : Row) : Code (List SqlValue) := row.mapM encodeCell

/-- Build and send one INSERT. A failure is only logged. -/
def sendBatch (table : String) (fields : List String) (inserts : List (List SqlValue)) :
    Code Unit := do
  let insRes ← executeWithRetry .hosted_ (.insert table fields inserts)
  if PQresultStatus insRes ≠ .commandOk then
    log (.insertFailed table)

/-- The row loop of one page: collect rows in `inserts`, flush at `batchSize`, and
    flush what remains after the last row. -/
def rowLoop (table : String) (fields : List String) :
    List Row → (inserts : List (List SqlValue)) → Code Unit
  | [], inserts => do
    if !inserts.isEmpty then
      sendBatch table fields inserts
  | row :: rows, inserts => do
    let values ← encodeRow row
    let inserts := inserts ++ [values]
    if inserts.length ≥ batchSize then
      sendBatch table fields inserts
      rowLoop table fields rows []
    else
      rowLoop table fields rows inserts

/-- The page loop of one table; the result is `totalRows` at its end. -/
def pageLoop (table : String) (pk : List String) :
    (fuel : Nat) → (offset totalRows : Int32) → Code Int32
  | 0, _, _ => .cut
  | fuel + 1, offset, totalRows => do
    let res ← executeWithRetry .local_ (.selectPage table pk pageSize offset)
    if PQresultStatus res ≠ .tuplesOk then
      log (.selectFailed table)
      return totalRows
    let nRows := PQntuples res
    if nRows = 0 then
      return totalRows
    rowLoop table (resultFields res) (resultRows res) []
    let totalRows := totalRows + Int32.ofNat nRows
    let offset := offset + pageSize
    log (.syncedRows (Int32.ofNat nRows) table offset)
    pageLoop table pk fuel offset totalRows

/-- The body of the table loop. -/
def syncTable (fuel : Nat) (tracker : TableTracker) (table : String) : Code Unit := do
  let pk := tracker.getPrimaryKeys table
  if pk.isEmpty then
    log (.skippingTable table)
  else
    log (.syncingTable table)
    let totalRows ← pageLoop table pk fuel 0 0
    log (.completedTable totalRows table)

/-- `ReplicationManager::initialSync` -/
def initialSync (fuel : Nat) (tracker : TableTracker) : Code Unit := do
  let tables := tracker.getTrackedTables
  log (.startingSync tables.length)
  forM tables (syncTable fuel tracker)
  log .syncCompleted

/-! ## Health check -/

structure HealthStatus where
  overall : Bool := false
  localDb : Bool := false
  hostedDb : Bool := false
  localConnections : Int := 0
  hostedConnections : Int := 0
  localDbSizeMB : Int := 0
  hostedDbSizeMB : Int := 0
  localActiveQueries : Int := 0
  hostedActiveQueries : Int := 0
  deriving DecidableEq, Repr

/-- `atol`: 0 when there is no number, the nearest `long` when it is out of range. -/
def atol (s : String) : Int :=
  max Int64.minValue.toInt (min Int64.maxValue.toInt ((CString.strtol s.toList).getD 0))

/-- One metric query: the field keeps its initial 0 when the query fails or is empty. -/
def queryMetric (conn : Conn) (query : Stmt) : Code Int := do
  let res ← PQexec conn query
  if PQresultStatus res = .tuplesOk ∧ PQntuples res > 0 then
    return atol (PQgetvalue res 0 0)
  else
    return 0

/-- The part of `healthCheck` about one connection: its status, connections, size in
    MB and active queries. -/
def checkConnection (conn : Conn) : Code (Bool × Int × Int × Int) := do
  let res ← PQexec conn .selectOne
  if PQresultStatus res = .tuplesOk then
    let connections ← queryMetric conn .countConnections
    let sizeMB ← queryMetric conn .databaseSize
    let activeQueries ← queryMetric conn .countActiveQueries
    return (true, connections, sizeMB, activeQueries)
  else
    log (.healthCheckFailed conn)
    return (false, 0, 0, 0)

/-- `ReplicationManager::healthCheck` -/
def healthCheck : Code HealthStatus := do
  log .healthCheckBegins
  let (localDb, localConnections, localDbSizeMB, localActiveQueries) ←
    checkConnection .local_
  let (hostedDb, hostedConnections, hostedDbSizeMB, hostedActiveQueries) ←
    checkConnection .hosted_
  let overall := localDb && hostedDb
  if overall then
    log .healthCheckPassed
  else
    log .healthCheckNotPassed
  return { overall, localDb, hostedDb, localConnections, hostedConnections,
           localDbSizeMB, hostedDbSizeMB, localActiveQueries, hostedActiveQueries }

/-- The status that the checks of the two connections amount to. -/
def HealthStatus.ofChecks (onLocal onHosted : Bool × Int × Int × Int) : HealthStatus where
  overall := onLocal.1 && onHosted.1
  localDb := onLocal.1
  hostedDb := onHosted.1
  localConnections := onLocal.2.1
  hostedConnections := onHosted.2.1
  localDbSizeMB := onLocal.2.2.1
  hostedDbSizeMB := onHosted.2.2.1
  localActiveQueries := onLocal.2.2.2
  hostedActiveQueries := onHosted.2.2.2

/-- The log line of the overall verdict. -/
def verdictLine (overall : Bool) : LogLine :=
  if overall then .healthCheckPassed else .healthCheckNotPassed

/-- A health check is the checks of the two connections, one after the other. -/
theorem run_healthCheck_of_checks {W : Type} {h : Interaction.Prog.Handler Call Call.Reply W}
    {w w₁ w₂ : W} {onLocal onHosted : Bool × Int × Int × Int}
    (hlocal : (checkConnection .local_).run h (h (.log .healthCheckBegins) w).2 =
      (some onLocal, w₁))
    (hhosted : (checkConnection .hosted_).run h w₁ = (some onHosted, w₂)) :
    healthCheck.run h w = (some (.ofChecks onLocal onHosted),
      (h (.log (verdictLine (onLocal.1 && onHosted.1))) w₂).2) := by
  rw [healthCheck, run_log_bind]
  refine (Interaction.Prog.run_bind_of_some _ _ hlocal).trans ?_
  refine (Interaction.Prog.run_bind_of_some _ _ hhosted).trans ?_
  -- the last log line depends on the verdict, the status does not
  dsimp only
  unfold verdictLine
  by_cases hup : (onLocal.1 && onHosted.1) = true
  · rw [if_pos hup, if_pos hup]
    rfl
  · rw [if_neg hup, if_neg hup]
    rfl

/-! ## start -/

/-- The members of the manager that a call can change, and its configuration. -/
structure ReplicationManager where
  config : Config
  tracker : TableTracker := {}
  queue : List ChangeEvent := []
  initialSyncDone : Bool := false

/-- `ReplicationManager::start` -/
def ReplicationManager.start (fuel : Nat) (m : ReplicationManager) :
    Code ReplicationManager := do
  log (.managerStarted m.config.intervalSeconds m.config.batchSize)
  let health ← healthCheck
  if !health.overall then
    log .syncAborted
    return m
  -- Discover tables first
  let tracker ← TableTracker.discoverTables m.config
  -- Perform initial data sync only once
  if !m.initialSyncDone then
    initialSync fuel tracker
  -- Then fetch changes
  let changes := tracker.fetchChanges m.config.batchSize
  let queue ← QueueHandler.drainTo (changes.foldl QueueHandler.enqueue m.queue)
  return { m with tracker, queue, initialSyncDone := true }

end SyncLayer.Model
