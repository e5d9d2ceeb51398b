import SyncLayer.Interaction.Backoff
import SyncLayer.Model.ReplicationManager

/-!
# The Code Down to Its Handles

`ReplicationManager.cpp` and `TableTracker.cpp` once more, with the `PGresult*` and the
buffers of `PQescapeLiteral` as what they are in C: pointers that libpq hands out, that
may be null, and that have to be given back. Every accessor call and every `PQclear` and
`PQfreemem` is a call of its own.

The functions have the names of the source. What the results mean is left to
`SyncLayer.Model`, which the two levels share the data types with;
`SyncLayer.Handles.Erasure` shows that a run here is a run there.
-/

namespace SyncLayer.Handles

open SyncLayer.Interaction SyncLayer.Model

/-! ## Calls -/

/-- A pointer that libpq has handed out; `none` is null. -/
abbrev Ptr := Option Nat

/-- What can be asked of a result. -/
inductive Field where
  | status
  | ntuples
  | nfields
  | fname (j : Nat)
  | isnull (i j : Nat)
  | value (i j : Nat)

def Field.Reply : Field → Type
  | .status => ExecStatus
  | .ntuples => Nat
  | .nfields => Nat
  | .fname _ => String
  | .isnull _ _ => Bool
  | .value _ _ => String

/-- The accessors of libpq on the data of a result. -/
def Field.get : (f : Field) → Option PGresult → f.Reply
  | .status, res => Model.PQresultStatus res
  | .ntuples, res => Model.PQntuples res
  | .nfields, res => (resultFields res).length
  | .fname j, res => (resultFields res).getD j ""
  | .isnull i j, res => (((resultRows res).getD i []).getD j none).isNone
  | .value i j, res => Model.PQgetvalue res i j

inductive Op where
  | pqexec (conn : Conn) (query : Stmt)
  | read (res : Ptr) (f : Field)
  | clear (res : Ptr)
  /-- The text to be escaped lies inside the result `source`. -/
  | escapeLiteral (source : Ptr) (text : String)
  | readBuffer (buffer : Ptr)
  | freemem (buffer : Ptr)
  | sleepFor (milliseconds : Int64)
  | log (line : LogLine)

def Op.Reply : Op → Type
  | .pqexec _ _ => Ptr
  | .read _ f => f.Reply
  | .clear _ => Unit
  | .escapeLiteral _ _ => Ptr
  | .readBuffer _ => Unit
  | .freemem _ => Unit
  | .sleepFor _ => Unit
  | .log _ => Unit

/-- Code of the service, with its pointers. -/
abbrev Code := Prog Op Op.Reply

def PQexec (conn : Conn) (query : Stmt) : Code Ptr := .perform (Op.pqexec conn query)

def PQresultStatus (res : Ptr) : Code ExecStatus := .perform (Op.read res .status)

def PQntuples (res : Ptr) : Code Nat := .perform (Op.read res .ntuples)

def PQnfields (res : Ptr) : Code Nat := .perform (Op.read res .nfields)

def PQfname (res : Ptr) (j : Nat) : Code String := .perform (Op.read res (.fname j))

def PQgetisnull (res : Ptr) (i j : Nat) : Code Bool := .perform (Op.read res (.isnull i j))

def PQgetvalue (res : Ptr) (i j : Nat) : Code String := .perform (Op.read res (.value i j))

def PQclear (res : Ptr) : Code Unit := .perform (Op.clear res)

def PQescapeLiteral (source : Ptr) (text : String) : Code Ptr :=
  .perform (Op.escapeLiteral source text)

/-- `values += escaped` -/
def append (buffer : Ptr) : Code Unit := .perform (Op.readBuffer buffer)

def PQfreemem (buffer : Ptr) : Code Unit := .perform (Op.freemem buffer)

def sleepFor (milliseconds : Int64) : Code Unit := .perform (Op.sleepFor milliseconds)

def log (line : LogLine) : Code Unit := .perform (Op.log line)

section Run

variable {W α : Type} (h : Prog.Handler Op Op.Reply W) (w : W)

@[simp] theorem run_PQexec_bind (conn : Conn) (query : Stmt) (f : Ptr → Code α) :
    (PQexec conn query >>= f).run h w =
      (f (h (.pqexec conn query) w).1).run h (h (.pqexec conn query) w).2 := rfl

@[simp] theorem run_PQresultStatus_bind (res : Ptr) (f : ExecStatus → Code α) :
    (PQresultStatus res >>= f).run h w =
      (f (h (.read res .status) w).1).run h (h (.read res .status) w).2 := rfl

@[simp] theorem run_PQntuples_bind (res : Ptr) (f : Nat → Code α) :
    (PQntuples res >>= f).run h w =
      (f (h (.read res .ntuples) w).1).run h (h (.read res .ntuples) w).2 := rfl

@[simp] theorem run_PQclear_bind (res : Ptr) (f : Unit → Code α) :
    (PQclear res >>= f).run h w = (f ()).run h (h (.clear res) w).2 := rfl

@[simp] theorem run_log_bind (line : LogLine) (f : Unit → Code α) :
    (log line >>= f).run h w = (f ()).run h (h (.log line) w).2 := rfl

end Run

/-! ## Statements with retry -/

/-- The status test of `executeWithRetry`. -/
def succeeded (res : Ptr) : Code Bool := do
  if (← PQresultStatus res) = .commandOk then
    return true
  else
    -- `||` asks a second time only if the first test has failed
    return (← PQresultStatus res) = .tuplesOk

/-- The lambda of `executeWithRetry`, with the captured `res`. -/
def attemptQuery (conn : Conn) (query : Stmt) (attempt : Int) (_res : Ptr) :
    Code (Bool × Ptr) := do
  let res ← PQexec conn query
  if ← succeeded res then
    return (true, res)
  else
    log (.queryFailed attempt)
    -- the captured `res` is cleared and set to null
    PQclear res
    return (false, none)

/-- `Retry::withExponentialBackoff` -/
def withExponentialBackoff {σ : Type} (maxAttempts : Int)
    (attemptFn : Int → σ → Code (Bool × σ)) (s : σ) : Code σ :=
  backoff sleepFor (· * 2) attemptFn maxAttempts.toNat 0 100 s

/-- `ReplicationManager::executeWithRetry` -/
def executeWithRetry (conn : Conn) (query : Stmt) (maxAttempts : Int := 3) : Code Ptr :=
  withExponentialBackoff maxAttempts (attemptQuery conn query) none

/-! ## The initial copy -/

/-- One cell of the `values` string. -/
def encodeCell (res : Ptr) (i j : Nat) : Code SqlValue := do
  if ← PQgetisnull res i j then
    return .null
  else
    let val ← PQgetvalue res i j
    let escaped ← PQescapeLiteral res val
    -- a null buffer falls into the branch that appends NULL
    if escaped.isSome then
      append escaped
      PQfreemem escaped
      return .literal val
    else
      return .null

/-- The `values` string of one row. -/
def encodeRow (res : Ptr) (nFields i : Nat) : Code (List SqlValue) :=
  (List.range nFields).mapM (encodeCell res i)

/-- `!res || PQresultStatus(res) != status` -/
def failed (res : Ptr) (status : ExecStatus) : Code Bool := do
  if res.isNone then
    -- `||` stops here: a null result is not asked for its status
    return true
  else
    return (← PQresultStatus res) ≠ status

/-- Build and send one INSERT. -/
def sendBatch (table : String) (res : Ptr) (nFields : Nat) (inserts : List (List SqlValue)) :
    Code Unit := do
  -- the names are read from the page again for every INSERT
  let columns ← (List.range nFields).mapM (PQfname res)
  let insRes ← executeWithRetry .hosted_ (.insert table columns inserts)
  if ← failed insRes .commandOk then
    log (.insertFailed table)
  if insRes.isSome then
    PQclear insRes

/-- The row loop of one page, over the row numbers. -/
def rowLoop (table : String) (res : Ptr) (nFields : Nat) :
    List Nat → (inserts : List (List SqlValue)) → Code Unit
  | [], inserts => do
    if !inserts.isEmpty then
      sendBatch table res nFields inserts
  | i :: rows, inserts => do
    let values ← encodeRow res nFields i
    let inserts := inserts ++ [values]
    if inserts.length ≥ batchSize then
      -- `inserts.clear()`
      sendBatch table res nFields inserts
      rowLoop table res nFields rows []
    else
      rowLoop table res nFields rows inserts

/-- The page loop of one table; the result is `totalRows` at its end. -/
def pageLoop (table : String) (pk : List String) :
    (fuel : Nat) → (offset totalRows : Int32) → Code Int32
  | 0, _, _ => .cut
  | fuel + 1, offset, totalRows => do
    let res ← executeWithRetry .local_ (.selectPage table pk pageSize offset)
    if ← failed res .tuplesOk then
      -- the first exit: the page could not be read
      log (.selectFailed table)
      if res.isSome then
        PQclear res
      return totalRows
    else
      let nRows ← PQntuples res
      if nRows = 0 then
        -- the second exit: the page is empty
        PQclear res
        return totalRows
      else
        let nFields ← PQnfields res
        rowLoop table res nFields (List.range nRows) []
        PQclear res
        let totalRows := totalRows + Int32.ofNat nRows
        let offset := offset + pageSize
        log (.syncedRows (Int32.ofNat nRows) table offset)
        pageLoop table pk fuel offset totalRows

/-- The body of the table loop. -/
def syncTable (fuel : Nat) (tracker : TableTracker) (table : String) : Code Unit := do
  let pk := tracker.getPrimaryKeys table
  if pk.isEmpty then
    log (.skippingTable table)
  else
    log (.syncingTable table)
    let totalRows ← pageLoop table pk fuel 0 0
    log (.completedTable totalRows table)

/-- `ReplicationManager::initialSync` -/
def initialSync (fuel : Nat) (tracker : TableTracker) : Code Unit := do
  let tables := tracker.getTrackedTables
  log (.startingSync tables.length)
  forM tables (syncTable fuel tracker)
  log .syncCompleted

/-! ## Table discovery -/

/-- The first column of every row, copied out of the result. -/
def firstColumn (res : Ptr) : Code (List String) := do
  let nRows ← PQntuples res
  (List.range nRows).mapM fun i => PQgetvalue res i 0

def listTables (config : Config) : Code (List String) := do
  if config.autoFetch then
    -- the result is cleared on both branches
    let res ← PQexec .local_ .listTables
    let tables ← do
      if (← PQresultStatus res) = .tuplesOk then
        let names ← firstColumn res
        pure (names.map fun tableName => "public." ++ tableName)
      else
        log .discoveryFailed
        pure []
    PQclear res
    return tables
  else
    return config.tables

/-- One pass of the primary-key loop. -/
def lookupPrimaryKey (keys : String → Option (List String)) (table : String) :
    Code (String → Option (List String)) := do
  let pkRes ← PQexec .local_
    (.primaryKey (TableTracker.schemaOf table) (TableTracker.tableNameOf table))
  let keys ← do
    if (← PQresultStatus pkRes) = .tuplesOk then
      let pkColumns ← firstColumn pkRes
      if pkColumns.isEmpty then
        log (.noPrimaryKey table)
      pure (Function.update keys table (some pkColumns))
    else
      log (.primaryKeyFailed table)
      pure keys
  PQclear pkRes
  return keys

/-- The primary-key loop. -/
def lookupPrimaryKeys (keys : String → Option (List String)) :
    List String → Code (String → Option (List String))
  | [] => return keys
  | table :: rest => do
    let keys ← lookupPrimaryKey keys table
    lookupPrimaryKeys keys rest

/-- `TableTracker::discoverTables` -/
def discoverTables (config : Config) : Code TableTracker := do
  let tables ← listTables config
  let keys ← lookupPrimaryKeys (fun _ => none) tables
  log (.trackingTables tables.length (String.intercalate ", " tables))
  return { trackedTables := tables, tablePrimaryKeys := keys }

/-! ## Health check -/

/-- The number a metric query has returned. -/
def metric (res : Ptr) : Code Int := do
  if (← PQresultStatus res) = .tuplesOk then
    if (← PQntuples res) > 0 then
      return atol (← PQgetvalue res 0 0)
    else
      return 0
  else
    return 0

/-- The check of one connection: one variable `res` for four queries. -/
def checkConnection (conn : Conn) : Code (Bool × Int × Int × Int) := do
  let res ← PQexec conn .selectOne
  if (← PQresultStatus res) = .tuplesOk then
    PQclear res
    -- `res` is assigned anew after every `PQclear`
    let res ← PQexec conn .countConnections
    let connections ← metric res
    PQclear res
    let res ← PQexec conn .databaseSize
    let sizeMB ← metric res
    PQclear res
    let res ← PQexec conn .countActiveQueries
    let activeQueries ← metric res
    PQclear res
    return (true, connections, sizeMB, activeQueries)
  else
    -- the metrics keep their initial 0
    log (.healthCheckFailed conn)
    PQclear res
    return (false, 0, 0, 0)

/-- `ReplicationManager::healthCheck` -/
def healthCheck : Code HealthStatus := do
  log .healthCheckBegins
  let (localDb, localConnections, localDbSizeMB, localActiveQueries) ←
    checkConnection .local_
  let (hostedDb, hostedConnections, hostedDbSizeMB, hostedActiveQueries) ←
    checkConnection .hosted_
  let overall := localDb && hostedDb
  if overall then
    log .healthCheckPassed
  else
    log .healthCheckNotPassed
  return { overall, localDb, hostedDb, localConnections, hostedConnections,
           localDbSizeMB, hostedDbSizeMB, localActiveQueries, hostedActiveQueries }

/-! ## start -/

/-- The loop of `QueueHandler::drainTo`. -/
def drainLoop : List ChangeEvent → (drained : Nat) → Code Nat
  | [], drained => return drained
  | ev :: q, drained => do
    log (.replicating ev.operation ev.table ev.payloadJson)
    drainLoop q (drained + 1)

/-- `QueueHandler::drainTo` -/
def drainTo (q : List ChangeEvent) : Code (List ChangeEvent) := do
  let count ← drainLoop q 0
  log (.drained count)
  return []

/-- `ReplicationManager::start` -/
def start (fuel : Nat) (m : ReplicationManager) : Code ReplicationManager := do
  log (.managerStarted m.config.intervalSeconds m.config.batchSize)
  let health ← healthCheck
  if !health.overall then
    log .syncAborted
    return m
  let tracker ← discoverTables m.config
  if !m.initialSyncDone then
    initialSync fuel tracker
  let changes := tracker.fetchChanges m.config.batchSize
  let queue ← drainTo (changes.foldl QueueHandler.enqueue m.queue)
  return { m with tracker, queue, initialSyncDone := true }

/-- A call of the manager from outside. -/
inductive Request where
  | start (fuel : Nat)
  | healthCheck

/-- Calls executed one after another. -/
def serve : List Request → ReplicationManager → Code ReplicationManager
  | [], m => return m
  | .start fuel :: requests, m => do
    let m ← start fuel m
    serve requests m
  | .healthCheck :: requests, m => do
    let _ ← healthCheck
    serve requests m

end SyncLayer.Handles
