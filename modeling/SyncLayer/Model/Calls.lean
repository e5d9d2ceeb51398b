import SyncLayer.Model.ReplicationManager

/-!
# Which Calls the Functions Make

For each part of `start` the calls it can make, whatever the answers. What depends on
the kind of a call only, and not on its answer, follows from these lists.
-/

namespace SyncLayer.Model

open SyncLayer.Interaction

/-! ## The health check -/

/-- The queries of `healthCheck`. -/
def healthQueries : List Stmt :=
  [.selectOne, .countConnections, .databaseSize, .countActiveQueries]

inductive HealthCall : Call → Prop
  | query {conn : Conn} {q : Stmt} (h : q ∈ healthQueries) : HealthCall (.pqexec conn q)
  | begins : HealthCall (.log .healthCheckBegins)
  | failed (conn : Conn) : HealthCall (.log (.healthCheckFailed conn))
  | passed : HealthCall (.log .healthCheckPassed)
  | notPassed : HealthCall (.log .healthCheckNotPassed)

private theorem calls_queryMetric (conn : Conn) {q : Stmt} (h : q ∈ healthQueries) :
    (queryMetric conn q).Calls HealthCall := by
  refine (calls_PQexec_bind ..).2 ⟨.query h, fun res => ?_⟩
  split <;> exact trivial

private theorem calls_checkConnection (conn : Conn) :
    (checkConnection conn).Calls HealthCall := by
  refine (calls_PQexec_bind ..).2 ⟨.query (by decide), fun res => ?_⟩
  split
  · refine Prog.calls_bind (calls_queryMetric conn (by decide)) fun _ => ?_
    refine Prog.calls_bind (calls_queryMetric conn (by decide)) fun _ => ?_
    exact Prog.calls_bind (calls_queryMetric conn (by decide)) fun _ => trivial
  · exact (calls_log_bind ..).2 ⟨.failed conn, fun _ => trivial⟩

theorem calls_healthCheck : healthCheck.Calls HealthCall := by
  refine (calls_log_bind ..).2 ⟨.begins, fun _ => ?_⟩
  refine Prog.calls_bind (calls_checkConnection .local_) fun _ => ?_
  refine Prog.calls_bind (calls_checkConnection .hosted_) fun _ => ?_
  dsimp only
  split
  · exact (calls_log_bind ..).2 ⟨.passed, fun _ => trivial⟩
  · exact (calls_log_bind ..).2 ⟨.notPassed, fun _ => trivial⟩

/-! ## Table discovery -/

inductive DiscoveryCall : Call → Prop
  | listTables : DiscoveryCall (.pqexec .local_ .listTables)
  | discoveryFailed : DiscoveryCall (.log .discoveryFailed)
  | primaryKey (schema tableName : String) :
      DiscoveryCall (.pqexec .local_ (.primaryKey schema tableName))
  | noPrimaryKey (table : String) : DiscoveryCall (.log (.noPrimaryKey table))
  | primaryKeyFailed (table : String) : DiscoveryCall (.log (.primaryKeyFailed table))
  | trackingTables (count : Nat) (joined : String) :
      DiscoveryCall (.log (.trackingTables count joined))

theorem calls_listTables (config : Config) :
    (TableTracker.listTables config).Calls DiscoveryCall := by
  unfold TableTracker.listTables
  split
  · refine (calls_PQexec_bind ..).2 ⟨.listTables, fun res => ?_⟩
    split
    · exact trivial
    · exact (calls_log_bind ..).2 ⟨.discoveryFailed, fun _ => trivial⟩
  · exact trivial

private theorem calls_lookupPrimaryKey (keys : String → Option (List String))
    (table : String) : (TableTracker.lookupPrimaryKey keys table).Calls DiscoveryCall := by
  refine (calls_PQexec_bind ..).2 ⟨.primaryKey _ _, fun res => ?_⟩
  split
  · dsimp only
    split
    · exact (calls_log_bind ..).2 ⟨.noPrimaryKey table, fun _ => trivial⟩
    · exact trivial
  · exact (calls_log_bind ..).2 ⟨.primaryKeyFailed table, fun _ => trivial⟩

theorem calls_lookupPrimaryKeys (keys : String → Option (List String))
    (tables : List String) :
    (TableTracker.lookupPrimaryKeys keys tables).Calls DiscoveryCall := by
  induction tables generalizing keys with
  | nil => exact trivial
  | cons table tables ih =>
    exact Prog.calls_bind (calls_lookupPrimaryKey keys table) fun keys => ih keys

theorem calls_discoverTables (config : Config) :
    (TableTracker.discoverTables config).Calls DiscoveryCall := by
  refine Prog.calls_bind (calls_listTables config) fun tables => ?_
  refine Prog.calls_bind (calls_lookupPrimaryKeys _ tables) fun keys => ?_
  exact (calls_log_bind ..).2 ⟨.trackingTables _ _, fun _ => trivial⟩

/-! ## The initial copy -/

inductive CopyCall : Call → Prop
  | selectPage (table : String) (orderBy : List String) (limit offset : Int32) :
      CopyCall (.pqexec .local_ (.selectPage table orderBy limit offset))
  | insert (table : String) (columns : List String) (values : List (List SqlValue)) :
      CopyCall (.pqexec .hosted_ (.insert table columns values))
  | escapeLiteral (text : String) : CopyCall (.pqescapeLiteral text)
  | sleepFor (milliseconds : Int64) : CopyCall (.sleepFor milliseconds)
  | queryFailed (attempt : Int) : CopyCall (.log (.queryFailed attempt))
  | startingSync (tables : Nat) : CopyCall (.log (.startingSync tables))
  | skippingTable (table : String) : CopyCall (.log (.skippingTable table))
  | syncingTable (table : String) : CopyCall (.log (.syncingTable table))
  | selectFailed (table : String) : CopyCall (.log (.selectFailed table))
  | insertFailed (table : String) : CopyCall (.log (.insertFailed table))
  | syncedRows (rows : Int32) (table : String) (offset : Int32) :
      CopyCall (.log (.syncedRows rows table offset))
  | completedTable (totalRows : Int32) (table : String) :
      CopyCall (.log (.completedTable totalRows table))
  | syncCompleted : CopyCall (.log .syncCompleted)

private theorem calls_executeWithRetry {conn : Conn} {query : Stmt}
    (h : CopyCall (.pqexec conn query)) (maxAttempts : Int) :
    (executeWithRetry conn query maxAttempts).Calls CopyCall := by
  have hattempt : ∀ attempt res, (attemptQuery conn query attempt res).Calls CopyCall := by
    intro attempt res
    refine (calls_PQexec_bind ..).2 ⟨h, fun res => ?_⟩
    split
    · exact trivial
    · exact (calls_log_bind ..).2 ⟨.queryFailed attempt, fun _ => trivial⟩
  have hloop : ∀ (n : Nat) (attempt : Int) (delay : Int64) (res : Option PGresult),
      (backoffLoop (attemptQuery conn query) n attempt delay res).Calls CopyCall := by
    intro n
    induction n with
    | zero => exact fun _ _ _ => trivial
    | succ n ih =>
      intro attempt delay res
      refine Prog.calls_bind (hattempt (attempt + 1) res) fun p => ?_
      obtain ⟨success, res⟩ := p
      dsimp only
      split
      · exact trivial
      · exact (calls_sleepFor_bind ..).2 ⟨.sleepFor delay, fun _ => ih ..⟩
  exact hloop ..

private theorem calls_sendBatch (table : String) (fields : List String)
    (inserts : List (List SqlValue)) : (sendBatch table fields inserts).Calls CopyCall := by
  refine Prog.calls_bind (calls_executeWithRetry (.insert table fields inserts) 3) fun res => ?_
  split
  · exact (calls_log ..).2 (.insertFailed table)
  · exact trivial

private theorem calls_encodeRow (row : Row) : (encodeRow row).Calls CopyCall := by
  have hcell : ∀ c, (encodeCell c).Calls CopyCall := by
    intro c
    cases c with
    | none => exact trivial
    | some val =>
      refine (calls_PQescapeLiteral_bind ..).2 ⟨.escapeLiteral val, fun escaped => ?_⟩
      split <;> exact trivial
  unfold encodeRow
  induction row with
  | nil => exact trivial
  | cons c row ih =>
    rw [List.mapM_cons]
    exact Prog.calls_bind (hcell c) fun _ => Prog.calls_bind ih fun _ => trivial

private theorem calls_rowLoop (table : String) (fields : List String) (rows : List Row)
    (inserts : List (List SqlValue)) : (rowLoop table fields rows inserts).Calls CopyCall := by
  induction rows generalizing inserts with
  | nil =>
    rw [rowLoop]
    split
    · exact calls_sendBatch ..
    · exact trivial
  | cons row rows ih =>
    refine Prog.calls_bind (calls_encodeRow row) fun values => ?_
    dsimp only
    split
    · exact Prog.calls_bind (calls_sendBatch ..) fun _ => ih _
    · exact ih _

private theorem calls_pageLoop (table : String) (pk : List String) (fuel : Nat)
    (offset totalRows : Int32) : (pageLoop table pk fuel offset totalRows).Calls CopyCall := by
  induction fuel generalizing offset totalRows with
  | zero => exact trivial
  | succ fuel ih =>
    refine Prog.calls_bind (calls_executeWithRetry (.selectPage ..) 3) fun res => ?_
    split
    · exact (calls_log_bind ..).2 ⟨.selectFailed table, fun _ => trivial⟩
    · dsimp only
      split
      · exact trivial
      · refine Prog.calls_bind (calls_rowLoop ..) fun _ => ?_
        exact (calls_log_bind ..).2 ⟨.syncedRows .., fun _ => ih _ _⟩

theorem calls_initialSync (fuel : Nat) (tracker : TableTracker) :
    (initialSync fuel tracker).Calls CopyCall := by
  refine (calls_log_bind ..).2 ⟨.startingSync _, fun _ => ?_⟩
  refine Prog.calls_bind (Prog.calls_forM _ fun table _ => ?_) fun _ => ?_
  · unfold syncTable
    dsimp only
    split
    · exact (calls_log ..).2 (.skippingTable table)
    · refine (calls_log_bind ..).2 ⟨.syncingTable table, fun _ => ?_⟩
      exact Prog.calls_bind (calls_pageLoop ..) fun _ => (calls_log ..).2 (.completedTable ..)
  · exact (calls_log ..).2 .syncCompleted

/-! ## Draining the queue -/

inductive DrainCall : Call → Prop
  | replicating (operation table payloadJson : String) :
      DrainCall (.log (.replicating operation table payloadJson))
  | drained (events : Nat) : DrainCall (.log (.drained events))

/-- Draining the queue only writes to the log. -/
theorem calls_drainTo (q : List ChangeEvent) : (QueueHandler.drainTo q).Calls DrainCall := by
  have hloop : ∀ (q : List ChangeEvent) (n : Nat),
      (QueueHandler.drainLoop q n).Calls DrainCall := by
    intro q
    induction q with
    | nil => exact fun _ => trivial
    | cons ev q ih =>
      exact fun n => (calls_log_bind ..).2 ⟨.replicating .., fun _ => ih (n + 1)⟩
  refine Prog.calls_bind (hloop q 0) fun count => ?_
  exact (calls_log_bind ..).2 ⟨.drained count, fun _ => trivial⟩

end SyncLayer.Model
