import SyncLayer.Copy.Batches

/-!
# What Crosses the Connections

An environment that answers each attempt at a statement, and each attempt to escape a
text, as it likes (`Surroundings`), and keeps a record of what the copy has handed over
(`Traffic`). `run_executeWithRetry` is the law of one statement, `run_rowLoop` that of one
page: its rows are sent in batches, encoded with whatever the escape calls gave.
-/

namespace SyncLayer.Wire

open SyncLayer.Interaction SyncLayer.Model SyncLayer.Chunks SyncLayer.Copy

/-! ## The environment -/

/-- How the servers and the escape function fare: attempt `a` (from 0) at the statement
    that is handed over as number `i` (from 1), and escape call number `k` (from 0). -/
structure Surroundings where
  reply : (i a : Nat) → Conn → Stmt → Option PGresult
  escapes : Nat → Bool

/-- The record of a run. -/
structure Traffic where
  /-- The statements handed to `executeWithRetry` for the local connection, in order. -/
  reads : List Stmt := []
  /-- Those for the hosted connection. -/
  inserts : List Stmt := []
  /-- Failed attempts at the statement at hand. -/
  attempt : Nat := 0
  escapeCalls : Nat := 0
  /-- The rows that came back from the local database. -/
  rowsRead : List Row := []

/-- The results that end `executeWithRetry`. -/
def Good (res : Option PGresult) : Prop :=
  PQresultStatus res = .commandOk ∨ PQresultStatus res = .tuplesOk

instance (res : Option PGresult) : Decidable (Good res) :=
  inferInstanceAs (Decidable (_ ∨ _))

namespace Traffic

/-- Statements handed over so far. -/
def handedOver (w : Traffic) : Nat := w.reads.length + w.inserts.length

/-- A statement is handed over. -/
def handOver (w : Traffic) : Conn → Stmt → Traffic
  | .local_, query => { w with reads := w.reads ++ [query] }
  | .hosted_, query => { w with inserts := w.inserts ++ [query] }

/-- The rows of a page arrive. -/
def receive (w : Traffic) (conn : Conn) (res : Option PGresult) : Traffic :=
  if conn = .local_ ∧ PQresultStatus res = .tuplesOk then
    { w with rowsRead := w.rowsRead ++ resultRows res }
  else w

/-- An attempt is made, the first of a statement or a later one. -/
def attempted (w : Traffic) (conn : Conn) (query : Stmt) : Traffic :=
  if w.attempt = 0 then w.handOver conn query else w

/-- Its answer arrives. There are three attempts. -/
def answered (w : Traffic) (conn : Conn) (res : Option PGresult) : Traffic :=
  if Good res then { w.receive conn res with attempt := 0 }
  else { w with attempt := if w.attempt = 2 then 0 else w.attempt + 1 }

end Traffic

namespace Surroundings

variable (E : Surroundings)

/-- The answer to an attempt. -/
def answer (w : Traffic) (conn : Conn) (query : Stmt) : Option PGresult :=
  E.reply (w.attempted conn query).handedOver w.attempt conn query

def handler : Prog.Handler Call Call.Reply Traffic
  | .pqexec conn query, w =>
      (E.answer w conn query, (w.attempted conn query).answered conn (E.answer w conn query))
  | .pqescapeLiteral _, w => (E.escapes w.escapeCalls, { w with escapeCalls := w.escapeCalls + 1 })
  | .sleepFor _, w => ((), w)
  | .log _, w => ((), w)

/-- The first good answer among `n` attempts at statement number `i`, from number `a` on. -/
def resultFrom (i a n : Nat) (conn : Conn) (query : Stmt) : Option PGresult :=
  ((List.range' a n).find? fun a => Good (E.reply i a conn query)).bind fun a =>
    E.reply i a conn query

/-- What comes of statement number `i`. -/
def result (i : Nat) (conn : Conn) (query : Stmt) : Option PGresult :=
  E.resultFrom i 0 3 conn query

end Surroundings

/-! ## One statement -/

section Statement

variable (E : Surroundings) {w : Traffic} {conn : Conn} {query : Stmt}

/-- A good answer ends the loop. -/
theorem run_backoffLoop_good (hgood : Good (E.answer w conn query)) (n : Nat) (a : Int)
    (delay : Int64) :
    (backoffLoop (attemptQuery conn query) (n + 1) a delay none).run E.handler w =
      (some (E.answer w conn query),
        (w.attempted conn query).answered conn (E.answer w conn query)) := by
  have hstatus : PQresultStatus (E.answer w conn query) = .commandOk ∨
      PQresultStatus (E.answer w conn query) = .tuplesOk := hgood
  simp [backoffLoop, attemptQuery, -bind_pure_comp, Surroundings.handler, hstatus]

/-- Any other answer leads to the next attempt. -/
theorem run_backoffLoop_bad (hbad : ¬ Good (E.answer w conn query)) (n : Nat) (a : Int)
    (delay : Int64) :
    (backoffLoop (attemptQuery conn query) (n + 1) a delay none).run E.handler w =
      (backoffLoop (attemptQuery conn query) n (a + 1) (delay * 2) none).run E.handler
        ((w.attempted conn query).answered conn (E.answer w conn query)) := by
  have hstatus : ¬ (PQresultStatus (E.answer w conn query) = .commandOk ∨
      PQresultStatus (E.answer w conn query) = .tuplesOk) := hbad
  simp [backoffLoop, attemptQuery, -bind_pure_comp, Surroundings.handler, hstatus]

@[simp] theorem handOver_attempt : (w.handOver conn query).attempt = w.attempt := by
  cases conn <;> rfl

@[simp] theorem handedOver_handOver :
    (w.handOver conn query).handedOver = w.handedOver + 1 := by
  cases conn <;> simp [Traffic.handOver, Traffic.handedOver] <;> omega

@[simp] theorem receive_none : w.receive conn none = w := if_neg (by simp [PQresultStatus])

/-- A result that fails, or has no rows, leaves no trace. -/
theorem receive_no_rows {res : Option PGresult}
    (hres : PQresultStatus res = .tuplesOk → resultRows res = []) : w.receive conn res = w := by
  unfold Traffic.receive
  split
  · next h => rw [hres h.2, List.append_nil]
  · rfl

@[simp] theorem receive_attempt (res : Option PGresult) :
    (w.receive conn res).attempt = w.attempt := by
  unfold Traffic.receive
  split
  · rfl
  · rfl

theorem with_attempt_zero (hw : w.attempt = 0) : { w with attempt := 0 } = w := by
  cases w
  cases hw
  rfl

/-- The record between two attempts at a statement. -/
def midway (w : Traffic) (conn : Conn) (query : Stmt) (a : Nat) : Traffic :=
  if a = 0 then w else { w.handOver conn query with attempt := a }

/-- It is handed over at the first attempt, and not again. -/
theorem attempted_midway (hw : w.attempt = 0) (a : Nat) :
    (midway w conn query a).attempted conn query = { w.handOver conn query with attempt := a } := by
  cases a with
  | zero =>
    have hattempt : (w.handOver conn query).attempt = 0 := by simp [hw]
    rw [with_attempt_zero hattempt]
    exact if_pos hw
  -- a later attempt finds the number of those before it
  | succ a => simp [midway, Traffic.attempted]

theorem answer_midway (hw : w.attempt = 0) (a : Nat) :
    E.answer (midway w conn query a) conn query = E.reply (w.handedOver + 1) a conn query := by
  have hattempt : (midway w conn query a).attempt = a := by
    cases a with
    | zero => exact hw
    | succ a => simp [midway]
  have hnumber : Traffic.handedOver { w.handOver conn query with attempt := a } =
      w.handedOver + 1 := handedOver_handOver
  rw [Surroundings.answer, attempted_midway hw, hattempt, hnumber]

theorem resultFrom_succ (i a n : Nat) (conn : Conn) (query : Stmt) :
    E.resultFrom i a (n + 1) conn query =
      if Good (E.reply i a conn query) then E.reply i a conn query
      else E.resultFrom i (a + 1) n conn query := by
  rw [Surroundings.resultFrom, List.range'_succ, List.find?_cons]
  by_cases hgood : Good (E.reply i a conn query)
  · simp [hgood]
  · simp [hgood, Surroundings.resultFrom]

/-- A good answer to a later attempt is received as one to the first. -/
theorem answered_good {res : Option PGresult} (hgood : Good res) (hw : w.attempt = 0) (a : Nat) :
    Traffic.answered { w with attempt := a } conn res = w.receive conn res := by
  have hattempt : (w.receive conn res).attempt = 0 := by simp [hw]
  rw [Traffic.answered, if_pos hgood, ← with_attempt_zero hattempt]
  unfold Traffic.receive
  split
  · rfl
  · rfl

/-- The last `n + 1` of the three attempts. The recursion is on `n`. -/
private theorem run_backoffLoop (hw : w.attempt = 0) (n a : Nat) (ha : a + n = 2) (delay : Int64) :
    (backoffLoop (attemptQuery conn query) (n + 1) a delay none).run E.handler
        (midway w conn query a) =
      (some (E.resultFrom (w.handedOver + 1) a (n + 1) conn query),
        (w.handOver conn query).receive conn
          (E.resultFrom (w.handedOver + 1) a (n + 1) conn query)) := by
  have hhanded : (w.handOver conn query).attempt = 0 := by simp [hw]
  have hanswer : E.answer (midway w conn query a) conn query =
      E.reply (w.handedOver + 1) a conn query := answer_midway E hw a
  -- the attempt is the last, or the next one finds the record midway
  rw [resultFrom_succ]
  by_cases hgood : Good (E.reply (w.handedOver + 1) a conn query)
  · rw [if_pos hgood, run_backoffLoop_good E (by rwa [hanswer]), hanswer, attempted_midway hw,
      answered_good hgood hhanded]
  · rw [if_neg hgood, run_backoffLoop_bad E (by rwa [hanswer]), hanswer, attempted_midway hw,
      Traffic.answered, if_neg hgood]
    cases n with
    | zero =>
      -- the third failure is the last
      obtain rfl : a = 2 := ha
      show (some none, { w.handOver conn query with attempt := 0 }) = _
      rw [with_attempt_zero hhanded]
      exact congrArg (Prod.mk _) receive_none.symm
    | succ n =>
      have hlast : a ≠ 2 := by omega
      have hnext := run_backoffLoop hw n (a + 1) (by omega) (delay * 2)
      simpa [midway, hlast] using hnext

/-- **One statement**: it is handed over once, whatever becomes of the attempts. -/
theorem run_executeWithRetry (hw : w.attempt = 0) (conn : Conn) (query : Stmt) :
    (executeWithRetry conn query).run E.handler w =
      (some (E.result (w.handedOver + 1) conn query),
        (w.handOver conn query).receive conn (E.result (w.handedOver + 1) conn query)) :=
  run_backoffLoop E hw 2 0 rfl 100

end Statement

/-! ## One page -/

/-- The texts of a row: what is given to the escape function. -/
def texts : Row → Nat
  | [] => 0
  | none :: cells => texts cells
  | some _ :: cells => texts cells + 1

/-- The texts of several rows. -/
def textsOf : List Row → Nat
  | [] => 0
  | row :: rows => texts row + textsOf rows

namespace Surroundings

variable (E : Surroundings)

/-- The values of a row, when its first text is escaped by call number `k`. -/
def encodeCells (k : Nat) : Row → List SqlValue
  | [] => []
  | none :: cells => .null :: encodeCells k cells
  | some s :: cells =>
      (if E.escapes k then .literal s else .null) :: encodeCells (k + 1) cells

/-- The values of several rows. -/
def encodeRows (k : Nat) : List Row → List (List SqlValue)
  | [] => []
  | row :: rows => E.encodeCells k row :: encodeRows (k + texts row) rows

end Surroundings

/-- The rows that an INSERT carries. -/
def valuesOf : Stmt → List (List SqlValue)
  | .insert _ _ values => values
  | _ => []

theorem flatMap_valuesOf (table : String) (fields : List String)
    (batches : List (List (List SqlValue))) :
    (batches.map (Stmt.insert table fields)).flatMap valuesOf = batches.flatten := by
  rw [List.flatMap_map]
  exact List.flatMap_id

section Page

variable (E : Surroundings)

theorem textsOf_append (rows rows' : List Row) :
    textsOf (rows ++ rows') = textsOf rows + textsOf rows' := by
  induction rows with
  | nil => simp [textsOf]
  | cons row rows ih => simp [textsOf, ih, Nat.add_assoc]

@[simp] theorem length_encodeRows (k : Nat) (rows : List Row) :
    (E.encodeRows k rows).length = rows.length := by
  induction rows generalizing k with
  | nil => rfl
  | cons row rows ih => simp [Surroundings.encodeRows, ih]

theorem encodeRows_append (k : Nat) (rows rows' : List Row) :
    E.encodeRows k (rows ++ rows') =
      E.encodeRows k rows ++ E.encodeRows (k + textsOf rows) rows' := by
  induction rows generalizing k with
  | nil => simp [Surroundings.encodeRows, textsOf]
  | cons row rows ih => simp [Surroundings.encodeRows, textsOf, ih, Nat.add_assoc]

theorem take_encodeRows (k n : Nat) (rows : List Row) :
    (E.encodeRows k rows).take n = E.encodeRows k (rows.take n) := by
  induction rows generalizing k n with
  | nil => simp [Surroundings.encodeRows]
  | cons row rows ih => cases n <;> simp [Surroundings.encodeRows, ih]

theorem drop_encodeRows (k n : Nat) (rows : List Row) :
    (E.encodeRows k rows).drop n =
      E.encodeRows (k + textsOf (rows.take n)) (rows.drop n) := by
  induction rows generalizing k n with
  | nil => simp [Surroundings.encodeRows]
  | cons row rows ih => cases n <;> simp [Surroundings.encodeRows, textsOf, ih, Nat.add_assoc]

theorem run_encodeRow (row : Row) (w : Traffic) :
    (encodeRow row).run E.handler w =
      (some (E.encodeCells w.escapeCalls row),
        { w with escapeCalls := w.escapeCalls + texts row }) := by
  unfold encodeRow
  induction row generalizing w with
  | nil => rfl
  | cons cell row ih =>
    rw [List.mapM_cons]
    cases cell with
    | none =>
      have hcell : (encodeCell none).run E.handler w = (some .null, w) := rfl
      rw [Prog.run_bind_of_some _ _ hcell, Prog.run_bind_of_some _ _ (ih w)]
      rfl
    | some s =>
      -- one call, whose outcome decides the value
      have hcell : (encodeCell (some s)).run E.handler w =
          (some (if E.escapes w.escapeCalls then .literal s else .null),
            { w with escapeCalls := w.escapeCalls + 1 }) := by
        by_cases hescape : E.escapes w.escapeCalls = true
        · simp [encodeCell, Surroundings.handler, hescape]
        · simp [encodeCell, Surroundings.handler, hescape]
      rw [Prog.run_bind_of_some _ _ hcell, Prog.run_bind_of_some _ _ (ih _)]
      simp [Surroundings.encodeCells, texts, Nat.add_assoc, Nat.add_comm 1]

theorem run_encodeRows (rows : List Row) (w : Traffic) :
    (rows.mapM encodeRow).run E.handler w =
      (some (E.encodeRows w.escapeCalls rows),
        { w with escapeCalls := w.escapeCalls + textsOf rows }) := by
  induction rows generalizing w with
  | nil => rfl
  | cons row rows ih =>
    rw [List.mapM_cons, Prog.run_bind_of_some _ _ (run_encodeRow E row w),
      Prog.run_bind_of_some _ _ (ih _)]
    simp [Surroundings.encodeRows, textsOf, Nat.add_assoc]

/-- A batch is handed over once. -/
theorem run_sendChunk (table : String) (fields : List String) (rows : List Row) {w : Traffic}
    (hw : w.attempt = 0) :
    (sendChunk table fields rows).run E.handler w =
      (some (), { w with
        inserts := w.inserts ++ [.insert table fields (E.encodeRows w.escapeCalls rows)]
        escapeCalls := w.escapeCalls + textsOf rows }) := by
  have hencoded : Traffic.attempt { w with escapeCalls := w.escapeCalls + textsOf rows } = 0 := hw
  rw [sendChunk, Prog.run_bind_of_some _ _ (run_encodeRows E rows w), sendBatch,
    Prog.run_bind_of_some _ _ (run_executeWithRetry E hencoded _ _)]
  -- the answer decides only whether a log line is written
  split
  · rfl
  · rfl

/-- **One page**: its rows are handed over in batches. -/
theorem run_rowLoop (table : String) (fields : List String) (rows : List Row) {w : Traffic}
    (hw : w.attempt = 0) :
    (rowLoop table fields rows []).run E.handler w =
      (some (), { w with
        inserts := w.inserts ++
          (chunks batchSize (E.encodeRows w.escapeCalls rows)).map (.insert table fields)
        escapeCalls := w.escapeCalls + textsOf rows }) := by
  -- the row loop sends one chunk after the other
  have hpos : 0 < batchSize := by decide
  rw [rowLoop_eq_sendChunks]
  induction rows using chunks.induct batchSize generalizing w with
  | case1 rows h =>
    obtain rfl := h.resolve_right (by decide)
    simp [Surroundings.encodeRows, textsOf]
  | case2 rows h ih =>
    have hne : rows ≠ [] := fun hnil => h (Or.inl hnil)
    have hencoded : E.encodeRows w.escapeCalls rows ≠ [] := by
      simpa [← List.length_eq_zero_iff] using hne
    have htexts : textsOf (rows.take batchSize) + textsOf (rows.drop batchSize) = textsOf rows := by
      rw [← textsOf_append, List.take_append_drop]
    rw [chunks_of_ne_nil hpos hne, List.forM_cons,
      Prog.run_bind_of_some _ _ (run_sendChunk E table fields _ hw), ih (by exact hw),
      chunks_of_ne_nil hpos hencoded, take_encodeRows, drop_encodeRows, ← htexts]
    simp [Nat.add_assoc]

end Page

end SyncLayer.Wire
