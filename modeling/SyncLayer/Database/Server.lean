import SyncLayer.Database.Tables
import SyncLayer.Model.ReplicationManager

/-!
# The Two Servers

How the local and the hosted server execute the statements of the service. Both sides
have the same tables and columns, and the names in a statement resolve to the intended
table; what the key lookup finds for a name is the key of that table, or nothing
(`Catalog`).

`serve` executes one statement, or rejects it. `respond` adds the fate of the attempt
(`Outcome`): the answer may be a failure although the statement was executed.

Two things are assumed of the servers throughout. The primary key is the only constraint of
a hosted table, so an INSERT skips a row exactly when its key is taken; with another UNIQUE
index ON CONFLICT DO NOTHING would skip rows that conflict there, too. And every text can be
escaped; one for which PQescapeLiteral fails would be stored as NULL.

A `Session` is what the environment keeps during one call of the manager: the hosted
database, and counters that name each attempt. The counters are read off the log lines
of the service itself: "Query failed on attempt n", the failure lines that end a
statement, and the lines that end the work on a table.
-/

namespace SyncLayer.Database

open SyncLayer.Model SyncLayer.Interaction

/-- The schema both servers share. -/
structure Catalog where
  /-- The table a name in `FROM` or `INSERT INTO` stands for. -/
  table : String → TableDef
  /-- The base tables of schema public. -/
  publicTables : List String
  /-- The answer to the primary-key query for a schema and a table name. -/
  keyColumns : String → String → List String
  /-- The number a metric query returns, as text. -/
  metric : Conn → Stmt → String
  keyColumns_sound : ∀ t,
    keyColumns (TableTracker.schemaOf t) (TableTracker.tableNameOf t) = [] ∨
    keyColumns (TableTracker.schemaOf t) (TableTracker.tableNameOf t) = (table t).primaryKey

namespace Catalog

/-- The key columns the lookup finds for a tracked table. -/
def foundKey (C : Catalog) (t : String) : List String :=
  C.keyColumns (TableTracker.schemaOf t) (TableTracker.tableNameOf t)

/-- The tables the configuration asks to track. -/
def tablesToTrack (C : Catalog) (config : Config) : List String :=
  if config.autoFetch then C.publicTables.map fun name => "public." ++ name
  else config.tables

end Catalog

/-- A result with rows. -/
def tuplesResult (fnames : List String) (tuples : List Row) : PGresult :=
  { status := .tuplesOk, fnames, tuples }

/-- The result of an executed command without rows. -/
def commandResult : PGresult := { status := .commandOk, fnames := [], tuples := [] }

/-- The result of a reported failure. -/
def failureResult : PGresult := { status := .fatalError, fnames := [], tuples := [] }

/-- Execute a statement on the server behind `conn`; `none` when the server rejects it.
    A negative OFFSET is rejected, as is an order other than that of the primary key,
    which no caller asks for. ON CONFLICT DO NOTHING looks at the primary key only, as the
    tables have no other constraint. -/
def serve (C : Catalog) (L : LocalDb C.table) (H : HostedDb) :
    Conn → Stmt → Option (PGresult × HostedDb)
  | _, .selectOne => some (tuplesResult ["?column?"] [[some "1"]], H)
  | conn, .countConnections =>
      some (tuplesResult ["count"] [[some (C.metric conn .countConnections)]], H)
  | conn, .databaseSize =>
      some (tuplesResult ["?column?"] [[some (C.metric conn .databaseSize)]], H)
  | conn, .countActiveQueries =>
      some (tuplesResult ["count"] [[some (C.metric conn .countActiveQueries)]], H)
  | .local_, .listTables =>
      some (tuplesResult ["table_name"] (C.publicTables.map fun name => [some name]), H)
  | .local_, .primaryKey schema name =>
      some (tuplesResult ["column_name"] ((C.keyColumns schema name).map fun c => [some c]), H)
  | .local_, .selectPage t orderBy limit offset =>
      if 0 ≤ offset.toInt ∧ orderBy = (C.table t).primaryKey then
        some (tuplesResult (C.table t).columns
          (((L t).rows.drop offset.toInt.toNat).take limit.toInt.toNat), H)
      else none
  | .hosted_, .insert t columns values =>
      some (commandResult,
        insertRows (C.table t) t (values.map ((C.table t).rowOf columns)) H)
  | .local_, .insert _ _ _ => none
  | .hosted_, .listTables => none
  | .hosted_, .primaryKey _ _ => none
  | .hosted_, .selectPage _ _ _ _ => none

/-! ## Outcomes of an attempt -/

/-- What becomes of one attempt at a statement. -/
inductive Outcome where
  /-- Executed, and the answer arrives. -/
  | acked
  /-- Not executed; a failure is reported. -/
  | lost
  /-- Executed, but a failure is reported. -/
  | unacked
  deriving DecidableEq, Repr

/-- The answer to an attempt and the hosted database after it. -/
def respond (C : Catalog) (L : LocalDb C.table) (H : HostedDb) (conn : Conn) (query : Stmt) :
    Outcome → Option PGresult × HostedDb
  | .acked => match serve C L H conn query with
      | some (res, H') => (some res, H')
      | none => (some failureResult, H)
  | .lost => (some failureResult, H)
  | .unacked => match serve C L H conn query with
      | some (_, H') => (some failureResult, H')
      | none => (some failureResult, H)

/-- Whatever becomes of it, a statement the server rejects fails without an effect. -/
theorem respond_of_serve_none {C : Catalog} {L : LocalDb C.table} {H : HostedDb} {conn : Conn}
    {query : Stmt} (h : serve C L H conn query = none) (outcome : Outcome) :
    respond C L H conn query outcome = (some failureResult, H) := by
  cases outcome with
  | lost => rfl
  | acked => simp only [respond, h]
  | unacked => simp only [respond, h]

/-! ## Sessions -/

/-- The state of the environment during one call of the manager. -/
structure Session where
  hosted : HostedDb
  /-- Tables of the table loop done so far. -/
  table : Nat := 0
  /-- Failed attempts of the statement at hand. -/
  attempt : Nat := 0
  /-- Primary-key lookups made so far. -/
  lookups : Nat := 0

namespace Session

/-- What a log line tells the counters. -/
def observe (s : Session) : LogLine → Session
  | .queryFailed attempt => { s with attempt := attempt.toNat }
  | .selectFailed _ => { s with attempt := 0 }
  | .insertFailed _ => { s with attempt := 0 }
  | .skippingTable _ => { s with table := s.table + 1 }
  | .completedTable _ _ => { s with table := s.table + 1 }
  | _ => s

/-- What sending a statement, and its answer, tell the counters. -/
def count (s : Session) (query : Stmt) (res : Option PGresult) : Session :=
  { s with
    attempt := if PQresultStatus res = .commandOk ∨ PQresultStatus res = .tuplesOk then 0
      else s.attempt
    lookups := match query with
      | .primaryKey _ _ => s.lookups + 1
      | _ => s.lookups }

/-- The number of the attempt about to be made: lookups are numbered through, the
    attempts of any other statement from 0. -/
def attemptNumber (s : Session) : Stmt → Nat
  | .primaryKey _ _ => s.lookups
  | _ => s.attempt

end Session

/-- How an environment behaves: the local database that a statement sees, and the fate
    of the attempt, both by the session in which it is made. -/
structure Behaviour (C : Catalog) where
  localDb : Session → Stmt → LocalDb C.table
  outcome : Session → Conn → Stmt → Outcome

/-- The handler of a behaviour. Escaping a text succeeds, every time. -/
def Behaviour.handler {C : Catalog} (b : Behaviour C) : Prog.Handler Call Call.Reply Session
  | .pqexec conn query, s =>
      let answer := respond C (b.localDb s query) s.hosted conn query (b.outcome s conn query)
      (answer.1, { s.count query answer.1 with hosted := answer.2 })
  | .pqescapeLiteral _, s => (true, s)
  | .sleepFor _, s => ((), s)
  | .log line, s => ((), s.observe line)

/-- The fate of every attempt: by the table of the table loop it is made for, the
    connection, the statement and the number of the attempt. -/
abbrev Oracle := Nat → Conn → Stmt → Nat → Outcome

/-- The environment in which the local database is `L` throughout and attempts fare as
    the oracle says. -/
def Oracle.behaviour {C : Catalog} (o : Oracle) (L : LocalDb C.table) : Behaviour C where
  localDb _ _ := L
  outcome s conn query := o s.table conn query (s.attemptNumber query)

/-- Every attempt is executed and acknowledged. -/
def Oracle.allAcked : Oracle := fun _ _ _ _ => .acked

/-! ## A schema of nodes

The schema of the concrete instances: every name stands for a table of nodes, with an
id and the id of a parent node. -/

/-- Nodes, identified by the text in `id`. -/
def nodeTable : TableDef := TableDef.ofTexts ["id", "parent"] ["id"] (by decide)

/-- The catalog in which every table is one of nodes. -/
def nodeCatalog (publicTables : List String) : Catalog where
  table _ := nodeTable
  publicTables := publicTables
  keyColumns _ _ := nodeTable.primaryKey
  metric _ _ := "0"
  keyColumns_sound _ := Or.inr rfl

/-- The database of nodes in which only the table `t` has rows. -/
def nodesIn (names : List String) (t : String) (nodes : TableState nodeTable) :
    LocalDb (nodeCatalog names).table :=
  fun t' => if t' = t then nodes else TableState.empty nodeTable

/-- A hosted database without rows. -/
def HostedDb.empty : HostedDb := fun _ _ => none

end SyncLayer.Database
