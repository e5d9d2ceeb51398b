import SyncLayer.Model.Libpq

/-!
# Tracked Tables and Queued Changes

`tracker/TableTracker.cpp`, `queue/QueueHandler.cpp` and the configuration values they
read.
-/

namespace SyncLayer.Model

/-- The cached values of `Config`. -/
structure Config where
  localConn : String
  hostedConn : String
  intervalSeconds : Int32 := 5
  batchSize : Int32 := 50
  autoFetch : Bool := true
  tables : List String := []
  logLevel : String := "info"
  logFile : String := "logs/synclayer.log"
  healthPort : Int32 := 8080

structure ChangeEvent where
  table : String
  /-- insert/update/delete -/
  operation : String
  /-- serialized row change -/
  payloadJson : String
  deriving DecidableEq, Repr

/-! ## TableTracker -/

/-- The members of `TableTracker`; the `std::map` is a partial function. -/
structure TableTracker where
  trackedTables : List String := []
  tablePrimaryKeys : String → Option (List String) := fun _ => none

namespace TableTracker

/-- `table.substr(0, table.find('.'))` -/
def schemaOf (table : String) : String :=
  String.ofList (table.toList.takeWhile (· ≠ '.'))

/-- `table.substr(table.find('.') + 1)`: the whole string when there is no dot. -/
def tableNameOf (table : String) : String :=
  match table.toList.dropWhile (· ≠ '.') with
  | [] => table
  | _ :: rest => String.ofList rest

def getTrackedTables (t : TableTracker) : List String := t.trackedTables

/-- The looked-up key columns; empty for a table without an entry. -/
def getPrimaryKeys (t : TableTracker) (table : String) : List String :=
  (t.tablePrimaryKeys table).getD []

/-- The first column of every row of a result. -/
def firstColumn (res : Option PGresult) : List String :=
  (List.range (PQntuples res)).map fun i => PQgetvalue res i 0

/-- The tables to track: every base table of schema public, or the configured ones. -/
def listTables (config : Config) : Code (List String) := do
  if config.autoFetch then
    let res ← PQexec .local_ .listTables
    if PQresultStatus res = .tuplesOk then
      return (firstColumn res).map fun tableName => "public." ++ tableName
    else
      log .discoveryFailed
      return []
  else
    return config.tables

/-- One pass of the primary-key loop: a failed lookup leaves the map as it is. -/
def lookupPrimaryKey (keys : String → Option (List String)) (table : String) :
    Code (String → Option (List String)) := do
  let pkRes ← PQexec .local_ (.primaryKey (schemaOf table) (tableNameOf table))
  if PQresultStatus pkRes = .tuplesOk then
    let pkColumns := firstColumn pkRes
    if pkColumns.isEmpty then
      log (.noPrimaryKey table)
    return Function.update keys table (some pkColumns)
  else
    log (.primaryKeyFailed table)
    return keys

/-- The primary-key loop over the tracked tables. -/
def lookupPrimaryKeys (keys : String → Option (List String)) :
    List String → Code (String → Option (List String))
  | [] => return keys
  | table :: rest => do
    let keys ← lookupPrimaryKey keys table
    lookupPrimaryKeys keys rest

/-- `TableTracker::discoverTables`: both members are cleared first, so nothing of the
    previous tracker is read. -/
def discoverTables (config : Config) : Code TableTracker := do
  let tables ← listTables config
  let keys ← lookupPrimaryKeys (fun _ => none) tables
  log (.trackingTables tables.length (String.intercalate ", " tables))
  return { trackedTables := tables, tablePrimaryKeys := keys }

/-- `TableTracker::fetchChanges`: at most three placeholder events. -/
def fetchChanges (t : TableTracker) (batchSize : Int32) : List ChangeEvent :=
  List.replicate (min batchSize.toInt.toNat 3)
    { table := t.trackedTables.headD "public.sample"
      operation := "insert"
      payloadJson := "\x7b\"id\":1\x7d" }

end TableTracker

/-! ## QueueHandler -/

namespace QueueHandler

/-- `QueueHandler::enqueue` on the queue, front first. -/
def enqueue (q : List ChangeEvent) (event : ChangeEvent) : List ChangeEvent := q ++ [event]

/-- The loop of `QueueHandler::drainTo`: log and pop each event. -/
def drainLoop : List ChangeEvent → (drained : Nat) → Code Nat
  | [], drained => return drained
  | ev :: q, drained => do
    log (.replicating ev.operation ev.table ev.payloadJson)
    drainLoop q (drained + 1)

/-- `QueueHandler::drainTo`: nothing is sent to the target, and the queue is left empty. -/
def drainTo (q : List ChangeEvent) : Code (List ChangeEvent) := do
  let count ← drainLoop q 0
  log (.drained count)
  return []

end QueueHandler

end SyncLayer.Model
