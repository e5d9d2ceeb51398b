import SyncLayer.Interaction.Program

/-!
# What the Program Sends and Sees

The service talks to the outside by four kinds of call: `PQexec` on one of its two
connections, `PQescapeLiteral` on the hosted connection, the retry loop's
`sleep_for`, and the lines it writes to the log. `Code` is a program over these calls.

A statement is kept as syntax (`Stmt`), and `Stmt.text` is the query text the C++ code
builds for it. A `PGresult` is the data its accessors return. Log lines carry the
values the source formats into them, apart from the server's own error text.
-/

namespace SyncLayer.Model

open SyncLayer.Interaction

/-! ## Results -/

/-- The two `DBConnection` members of the replication manager. -/
inductive Conn where
  | local_
  | hosted_
  deriving DecidableEq, Repr

/-- `ExecStatusType`, as far as a query without COPY can report it. -/
inductive ExecStatus where
  | emptyQuery
  | commandOk
  | tuplesOk
  | badResponse
  | nonfatalError
  | fatalError
  deriving DecidableEq, Repr

/-- A cell of a result or of a table in text format; `none` is NULL. -/
abbrev Cell := Option String

/-- A row, its cells in column order. -/
abbrev Row := List Cell

/-- The data behind a `PGresult*`. -/
structure PGresult where
  status : ExecStatus
  /-- The column names, `PQfname`. -/
  fnames : List String
  tuples : List Row
  deriving DecidableEq, Repr

/-- `PQresultStatus`; a null result is a fatal error. -/
def PQresultStatus : Option PGresult → ExecStatus
  | none => .fatalError
  | some res => res.status

/-- The rows `0 .. PQntuples - 1`; none for a null result. -/
def resultRows : Option PGresult → List Row
  | none => []
  | some res => res.tuples

/-- The column names `PQfname(res, j)` for `j < PQnfields(res)`. -/
def resultFields : Option PGresult → List String
  | none => []
  | some res => res.fnames

/-- `PQntuples` -/
def PQntuples (res : Option PGresult) : Nat := (resultRows res).length

/-- `PQgetvalue`; a NULL cell reads as the empty string. -/
def PQgetvalue (res : Option PGresult) (i j : Nat) : String :=
  (((resultRows res).getD i []).getD j none).getD ""

/-- A row as a statement carries it: `NULL`, or the literal that stands for a text. -/
inductive SqlValue where
  | null
  | literal (text : String)
  deriving DecidableEq, Repr

/-- The cell a sent value stands for. -/
def SqlValue.toCell : SqlValue → Cell
  | .null => none
  | .literal s => some s

/-- A cell as it is sent when its text can be escaped. -/
def SqlValue.ofCell : Cell → SqlValue
  | none => .null
  | some s => .literal s

@[simp] theorem SqlValue.toCell_ofCell (c : Cell) : (SqlValue.ofCell c).toCell = c := by
  cases c <;> rfl

/-! ## Statements -/

/-- The statements the service sends. -/
inductive Stmt where
  | selectOne
  | countConnections
  | databaseSize
  | countActiveQueries
  | listTables
  | primaryKey (schema tableName : String)
  | selectPage (table : String) (orderBy : List String) (limit offset : Int32)
  | insert (table : String) (columns : List String) (values : List (List SqlValue))
  deriving DecidableEq

/-- The text in single quotes with single quotes doubled; a text with a backslash has
    its backslashes doubled as well and gets the prefix ` E`. -/
def escapeLiteral (s : String) : String :=
  let doubled (cs : List Char) (c : Char) := cs.flatMap fun x => if x = c then [c, c] else [x]
  if s.toList.contains '\\' then
    " E'" ++ String.ofList (doubled (doubled s.toList '\'') '\\') ++ "'"
  else
    "'" ++ String.ofList (doubled s.toList '\'') ++ "'"

/-- One cell of a VALUES tuple. -/
def SqlValue.text : SqlValue → String
  | .null => "NULL"
  | .literal s => escapeLiteral s

/-- A column name between double quotes, as the source writes it. -/
def quoteColumn (c : String) : String := "\"" ++ c ++ "\""

/-- The `values` string of one row. -/
def valuesText (row : List SqlValue) : String :=
  "(" ++ String.intercalate "," (row.map SqlValue.text) ++ ")"

/-- The query text of a statement. -/
def Stmt.text : Stmt → String
  | .selectOne => "SELECT 1"
  | .countConnections =>
      "SELECT count(*) FROM pg_stat_activity WHERE datname = current_database()"
  | .databaseSize => "SELECT pg_database_size(current_database()) / 1024 / 1024"
  | .countActiveQueries =>
      "SELECT count(*) FROM pg_stat_activity WHERE state = 'active' " ++
      "AND datname = current_database()"
  | .listTables =>
      "SELECT table_name FROM information_schema.tables " ++
      "WHERE table_schema = 'public' AND table_type = 'BASE TABLE'"
  | .primaryKey schema tableName =>
      "SELECT kcu.column_name FROM information_schema.table_constraints tc " ++
      "JOIN information_schema.key_column_usage kcu " ++
      "ON tc.constraint_name = kcu.constraint_name " ++
      "WHERE tc.table_name = '" ++ tableName ++ "' AND tc.table_schema = '" ++ schema ++
      "' AND tc.constraint_type = 'PRIMARY KEY' " ++
      "ORDER BY kcu.ordinal_position"
  | .selectPage table orderBy limit offset =>
      "SELECT * FROM " ++ table ++ " ORDER BY " ++
      String.intercalate ", " (orderBy.map quoteColumn) ++
      " LIMIT " ++ toString limit.toInt ++ " OFFSET " ++ toString offset.toInt
  | .insert table columns values =>
      "INSERT INTO " ++ table ++ " (" ++ String.intercalate "," (columns.map quoteColumn) ++
      ") VALUES " ++ String.intercalate "," (values.map valuesText) ++
      " ON CONFLICT DO NOTHING"

example : (Stmt.selectPage "public.users" ["id", "at"] 1000 2000).text =
    "SELECT * FROM public.users ORDER BY \"id\", \"at\" LIMIT 1000 OFFSET 2000" := by decide

example : (Stmt.insert "t" ["a", "b"] [[.literal "it's", .null]]).text =
    "INSERT INTO t (\"a\",\"b\") VALUES ('it''s',NULL) ON CONFLICT DO NOTHING" := by decide

/-! ## Log lines -/

/-- The lines the service writes to its log. -/
inductive LogLine where
  -- `executeWithRetry`
  | queryFailed (attempt : Int)
  -- `initialSync`
  | startingSync (tables : Nat)
  | skippingTable (table : String)
  | syncingTable (table : String)
  | selectFailed (table : String)
  | insertFailed (table : String)
  | syncedRows (rows : Int32) (table : String) (offset : Int32)
  | completedTable (totalRows : Int32) (table : String)
  | syncCompleted
  -- `start`
  | managerStarted (intervalSeconds batchSize : Int32)
  | syncAborted
  -- `healthCheck`
  | healthCheckBegins
  | healthCheckFailed (conn : Conn)
  | healthCheckPassed
  | healthCheckNotPassed
  -- `discoverTables`
  | discoveryFailed
  | noPrimaryKey (table : String)
  | primaryKeyFailed (table : String)
  | trackingTables (count : Nat) (joinedTables : String)
  -- `drainTo`
  | replicating (operation table payloadJson : String)
  | drained (events : Nat)
  -- `Engine`
  | engineRunStart
  | managerNotAvailable
  deriving DecidableEq

/-! ## Calls -/

/-- The calls the service makes to the outside. -/
inductive Call where
  | pqexec (conn : Conn) (query : Stmt)
  /-- On the hosted connection; whether a buffer came back. -/
  | pqescapeLiteral (text : String)
  | sleepFor (milliseconds : Int64)
  | log (line : LogLine)

/-- What a call returns. -/
def Call.Reply : Call → Type
  | .pqexec _ _ => Option PGresult
  | .pqescapeLiteral _ => Bool
  | .sleepFor _ => Unit
  | .log _ => Unit

/-- Code of the service. -/
abbrev Code := Prog Call Call.Reply

def PQexec (conn : Conn) (query : Stmt) : Code (Option PGresult) :=
  .perform (Call.pqexec conn query)

def PQescapeLiteral (text : String) : Code Bool := .perform (Call.pqescapeLiteral text)

def sleepFor (milliseconds : Int64) : Code Unit := .perform (Call.sleepFor milliseconds)

def log (line : LogLine) : Code Unit := .perform (Call.log line)

section Calls

variable {A : Call → Prop} {α : Type}

@[simp] theorem calls_PQexec_bind (conn : Conn) (query : Stmt)
    (f : Option PGresult → Code α) :
    (PQexec conn query >>= f).Calls A ↔ A (.pqexec conn query) ∧ ∀ res, (f res).Calls A :=
  Iff.rfl

@[simp] theorem calls_PQescapeLiteral_bind (text : String) (f : Bool → Code α) :
    (PQescapeLiteral text >>= f).Calls A ↔
      A (.pqescapeLiteral text) ∧ ∀ escaped, (f escaped).Calls A :=
  Iff.rfl

@[simp] theorem calls_sleepFor_bind (milliseconds : Int64) (f : Unit → Code α) :
    (sleepFor milliseconds >>= f).Calls A ↔
      A (.sleepFor milliseconds) ∧ ∀ u, (f u).Calls A :=
  Iff.rfl

@[simp] theorem calls_log_bind (line : LogLine) (f : Unit → Code α) :
    (log line >>= f).Calls A ↔ A (.log line) ∧ ∀ u, (f u).Calls A :=
  Iff.rfl

@[simp] theorem calls_log (line : LogLine) : (log line).Calls A ↔ A (.log line) :=
  and_iff_left fun _ => trivial

end Calls

section Run

variable {W α : Type} (h : Prog.Handler Call Call.Reply W) (w : W)

@[simp] theorem run_PQexec_bind (conn : Conn) (query : Stmt)
    (f : Option PGresult → Code α) :
    (PQexec conn query >>= f).run h w =
      (f (h (.pqexec conn query) w).1).run h (h (.pqexec conn query) w).2 := rfl

@[simp] theorem run_PQescapeLiteral_bind (text : String) (f : Bool → Code α) :
    (PQescapeLiteral text >>= f).run h w =
      (f (h (.pqescapeLiteral text) w).1).run h (h (.pqescapeLiteral text) w).2 := rfl

@[simp] theorem run_sleepFor_bind (milliseconds : Int64) (f : Unit → Code α) :
    (sleepFor milliseconds >>= f).run h w =
      (f ()).run h (h (.sleepFor milliseconds) w).2 := rfl

@[simp] theorem run_log_bind (line : LogLine) (f : Unit → Code α) :
    (log line >>= f).run h w = (f ()).run h (h (.log line) w).2 := rfl

@[simp] theorem run_log (line : LogLine) :
    (log line).run h w = (some (), (h (.log line) w).2) := rfl

end Run

end SyncLayer.Model
