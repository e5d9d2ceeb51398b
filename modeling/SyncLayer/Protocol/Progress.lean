import SyncLayer.Interaction.Protocol
import SyncLayer.Model.Engine

/-!
# The Protocol of the Service

An observer sees the calls of one thread and the answers to them. From these it can tell
how far the copy has come (`Progress`), and with that which calls are in order:

- a page is asked for with the key columns that a lookup has returned, 1000 rows from the
  offset on at which the last page of the table ended, and only when all rows of the last
  page have been sent;
- an INSERT carries the next rows of the page read last, at most 100 of them, to the
  columns of that page, with NULL for NULLs and for texts whose escape has failed; after a
  failure the same statement is tried again, at most twice;
- a failure is reported in the log, at once and with the right line, and nothing else is
  reported as a failure; the waits are those of the retry loop;
- once a copy has come to its end, there is no second one.

This says nothing about the answers: they may be anything at any time.
-/

namespace SyncLayer.Protocol

open SyncLayer.Interaction SyncLayer.Model

/-! ## The rules for the calls -/

section Calls

variable {σ α : Type} {M : Monitor Call Call.Reply σ} {Q : α → σ → Prop} {s : σ}

theorem obeys_PQexec_bind (conn : Conn) (query : Stmt) (f : Option PGresult → Code α) :
    (PQexec conn query >>= f).Obeys M Q s ↔ M.may s (.pqexec conn query) ∧
      ∀ res : Option PGresult, M.expects s (.pqexec conn query) res →
        (f res).Obeys M Q (M.next s (.pqexec conn query) res) := Iff.rfl

theorem obeys_PQescapeLiteral_bind (text : String) (f : Bool → Code α) :
    (PQescapeLiteral text >>= f).Obeys M Q s ↔ M.may s (.pqescapeLiteral text) ∧
      ∀ escaped : Bool, M.expects s (.pqescapeLiteral text) escaped →
        (f escaped).Obeys M Q (M.next s (.pqescapeLiteral text) escaped) := Iff.rfl

theorem obeys_sleepFor_bind (milliseconds : Int64) (f : Unit → Code α) :
    (sleepFor milliseconds >>= f).Obeys M Q s ↔ M.may s (.sleepFor milliseconds) ∧
      ∀ u : Unit, M.expects s (.sleepFor milliseconds) u →
        (f u).Obeys M Q (M.next s (.sleepFor milliseconds) u) := Iff.rfl

theorem obeys_log_bind (line : LogLine) (f : Unit → Code α) :
    (log line >>= f).Obeys M Q s ↔ M.may s (.log line) ∧
      ∀ u : Unit, M.expects s (.log line) u → (f u).Obeys M Q (M.next s (.log line) u) := Iff.rfl

theorem obeys_log (line : LogLine) {Q : Unit → σ → Prop} :
    (log line).Obeys M Q s ↔ M.may s (.log line) ∧
      ∀ u : Unit, M.expects s (.log line) u → Q u (M.next s (.log line) u) := Iff.rfl

end Calls

/-! ## Rows in a statement -/

/-- A cell, the answer to the escape of its text, and what is sent for it: NULL only for
    NULL, or for a text that could not be escaped. -/
inductive Carries : Cell → List (String × Bool) → SqlValue → Prop
  | null : Carries none [] .null
  | literal (text : String) : Carries (some text) [(text, true)] (.literal text)
  | lost (text : String) : Carries (some text) [(text, false)] .null

/-- The VALUES of a statement carry these rows, cell by cell, with these answers to the
    escapes of their texts. -/
def CarriesRows : List Row → List (String × Bool) → List (List SqlValue) → Prop :=
  Collected (Collected Carries)

/-! ## How far the copy has come -/

/-- Where the copy of a table is. -/
inductive Phase where
  /-- No table is being copied. -/
  | idle
  /-- The page at `offset` is the next to be read; `total` rows have been read before it. -/
  | reading (table : String) (offset total : Int32)
  /-- A page of `count` rows has been read, `rows` of them are still to be sent; the next
      page begins at `offset`. For the next batch there are the answers `escapes` so far. -/
  | sending (table : String) (offset total count : Int32) (fields : List String)
      (rows : List Row) (escapes : List (String × Bool))
  /-- The last page was empty or could not be read. -/
  | ended (table : String) (total : Int32)

namespace Phase

def total : Phase → Int32
  | .idle => 0
  | .reading _ _ total => total
  | .sending _ _ total _ _ _ _ => total
  | .ended _ total => total

/-- A text of the next batch has been escaped, or could not be. -/
def escape (text : String) (escaped : Bool) : Phase → Phase
  | .sending table offset total count fields rows escapes =>
    .sending table offset total count fields rows (escapes ++ [(text, escaped)])
  | p => p

/-- The next batch has been sent, or given up. -/
def sent : Phase → Phase
  | .sending table offset total count fields rows _ =>
    .sending table offset total count fields (rows.drop batchSize) []
  | p => p

/-- The page has been worked off. -/
def resume : Phase → Phase
  | .sending table offset total _ _ _ _ => .reading table offset total
  | p => p

end Phase

/-- What the calls so far have led to. -/
structure Progress where
  phase : Phase := .idle
  /-- The key columns that the lookups of this run have returned, by schema and table. -/
  found : List ((String × String) × List String) := []
  /-- A statement that has failed, and how often; it will be tried again. -/
  tried : Option (Stmt × Nat) := none
  /-- The calls that have to come next, each given by what may settle it. -/
  owed : List (Call → Prop) := []
  /-- A copy has come to its end. -/
  copied : Bool := false

namespace Progress

/-- The statement is not another one than the one that has to be tried again. -/
def Again (s : Progress) (q : Stmt) : Prop := ∀ q' n, s.tried = some (q', n) → q = q'

/-- The lines that may be logged when none is owed. -/
def MayLog (s : Progress) : LogLine → Prop
  | .startingSync _ => s.phase = .idle ∧ s.copied = false
  | .syncingTable _ => s.phase = .idle ∧ s.copied = false
  | .syncedRows rows table offset =>
    ∃ total fields, s.phase = .sending table offset total rows fields [] []
  | .completedTable totalRows table => s.phase = .ended table totalRows
  | .syncCompleted => s.phase = .idle ∧ s.copied = false
  -- failures are reported when they are owed, and only then
  | .queryFailed _ => False
  | .selectFailed _ => False
  | .insertFailed _ => False
  | .healthCheckFailed _ => False
  | .discoveryFailed => False
  | .noPrimaryKey _ => False
  | .primaryKeyFailed _ => False
  | _ => s.phase = .idle

/-- The calls that may be made when none is owed. -/
def Free (s : Progress) : Call → Prop
  | .pqexec conn (.selectPage table orderBy limit offset) =>
    conn = .local_ ∧ s.copied = false ∧ limit = pageSize ∧ orderBy ≠ [] ∧
      ((TableTracker.schemaOf table, TableTracker.tableNameOf table), orderBy) ∈ s.found ∧
      (∃ total, s.phase = .reading table offset total) ∧
      s.Again (.selectPage table orderBy limit offset)
  | .pqexec conn (.insert table columns values) =>
    conn = .hosted_ ∧ s.copied = false ∧
      (∃ offset total count rows escapes,
        s.phase = .sending table offset total count columns rows escapes ∧
          rows ≠ [] ∧ CarriesRows (rows.take batchSize) escapes values) ∧
      s.Again (.insert table columns values)
  | .pqexec conn .listTables => conn = .local_ ∧ s.phase = .idle
  | .pqexec conn (.primaryKey _ _) => conn = .local_ ∧ s.phase = .idle
  | .pqexec _ _ => s.phase = .idle
  | .pqescapeLiteral text =>
    ∃ table offset total count fields rows escapes,
      s.phase = .sending table offset total count fields rows escapes ∧
        ∃ row ∈ rows.take batchSize, some text ∈ row
  | .sleepFor _ => False
  | .log line => s.MayLog line

/-- A retried statement has failed: the failure is logged and a wait follows, as long again
    each time. After the third time the statement is given up: the phase is `after`, and
    `line` is logged. -/
def failed (s : Progress) (q : Stmt) (after : Phase) (line : LogLine) : Progress :=
  let n := (s.tried.elim 0 Prod.snd) + 1
  { s with
    phase := if n < 3 then s.phase else after
    tried := if n < 3 then some (q, n) else none
    owed := [(· = .log (.queryFailed n)), (· = .sleepFor (100 * 2 ^ (n - 1)))] ++
      if n < 3 then [] else [(· = .log line)] }

/-- The answer to a page SELECT. A table ends with an empty page. -/
def pageAnswered (s : Progress) (table : String) (q : Stmt) (offset : Int32)
    (res : Option PGresult) : Progress :=
  let count := Int32.ofNat (PQntuples res)
  let ended := Phase.ended table s.phase.total
  match PQresultStatus res with
  | .tuplesOk =>
    { s with
      tried := none
      phase := if PQntuples res = 0 then ended
        else .sending table (offset + pageSize) (s.phase.total + count) count
          (resultFields res) (resultRows res) [] }
  | .commandOk =>
    { s with tried := none, phase := ended, owed := [(· = .log (.selectFailed table))] }
  | _ => s.failed q ended (.selectFailed table)

/-- The answer to an INSERT. A result with rows ends the attempts, but is no success. -/
def insertAnswered (s : Progress) (table : String) (q : Stmt) (res : Option PGresult) :
    Progress :=
  match PQresultStatus res with
  | .commandOk => { s with tried := none, phase := s.phase.sent }
  | .tuplesOk =>
    { s with
      tried := none
      phase := s.phase.sent
      owed := [(· = .log (.insertFailed table))] }
  | _ => s.failed q s.phase.sent (.insertFailed table)

/-- A line that names a table with this schema and name. -/
def LineFor (line : String → LogLine) (schema name : String) (e : Call) : Prop :=
  ∃ table, TableTracker.schemaOf table = schema ∧ TableTracker.tableNameOf table = name ∧
    e = .log (line table)

/-- The effect of an answer when no call was owed. -/
def answered (s : Progress) : (e : Call) → Call.Reply e → Progress
  | .pqexec _ (.selectPage table orderBy limit offset), res =>
    s.pageAnswered table (.selectPage table orderBy limit offset) offset res
  | .pqexec _ (.insert table columns values), res =>
    s.insertAnswered table (.insert table columns values) res
  | .pqexec conn .selectOne, res =>
    if PQresultStatus res = .tuplesOk then s
    else { s with owed := [(· = .log (.healthCheckFailed conn))] }
  | .pqexec _ .listTables, res =>
    if PQresultStatus res = .tuplesOk then s
    else { s with owed := [(· = .log .discoveryFailed)] }
  | .pqexec _ (.primaryKey schema name), res =>
    if PQresultStatus res = .tuplesOk then
      { s with
        found := ((schema, name), TableTracker.firstColumn res) :: s.found
        owed := if TableTracker.firstColumn res = [] then
          [LineFor .noPrimaryKey schema name] else [] }
    else { s with owed := [LineFor .primaryKeyFailed schema name] }
  | .log line, _ =>
    match line with
    | .managerStarted _ _ => { s with found := [] }
    | .syncingTable table => { s with phase := .reading table 0 0 }
    | .syncedRows _ _ _ => { s with phase := s.phase.resume }
    | .completedTable _ _ => { s with phase := .idle }
    | .syncCompleted => { s with copied := true }
    | _ => s
  | .pqescapeLiteral text, escaped => { s with phase := s.phase.escape text escaped }
  | _, _ => s

end Progress

/-- The protocol: what is owed comes first. -/
def protocol : Monitor Call Call.Reply Progress where
  may s e :=
    match s.owed with
    | debt :: _ => debt e
    | [] => s.Free e
  next s e r :=
    match s.owed with
    | _ :: debts => { s with owed := debts }
    | [] => s.answered e r

section

variable {s : Progress} {debt : Call → Prop} {debts : List (Call → Prop)}

theorem may_of_nil (h : s.owed = []) (e : Call) : protocol.may s e ↔ s.Free e := by
  simp only [protocol, h]

theorem may_of_cons (h : s.owed = debt :: debts) (e : Call) : protocol.may s e ↔ debt e := by
  simp only [protocol, h]

theorem next_of_nil (h : s.owed = []) (e : Call) (r : Call.Reply e) :
    protocol.next s e r = s.answered e r := by
  simp only [protocol, h]

theorem next_of_cons (h : s.owed = debt :: debts) (e : Call) (r : Call.Reply e) :
    protocol.next s e r = { s with owed := debts } := by
  simp only [protocol, h]

end

end SyncLayer.Protocol
