import SyncLayer.Copy.Batches
import SyncLayer.Database.Server

/-!
# Statements with Retry Against a Behaviour

What `executeWithRetry` returns and leaves behind, for the three situations of the
copy: the first attempt is acknowledged, every attempt is rejected, and attempts that
fare as an oracle says (`run_executeWithRetry`). In the last one the statement has
taken effect exactly when some attempt was executed, acknowledged or not.

On top of it: encoding a row keeps its cells, and one batch is one INSERT of the rows.
-/

namespace SyncLayer.Copy

open SyncLayer.Interaction SyncLayer.Model SyncLayer.Database

variable {C : Catalog}

/-- The statements `executeWithRetry` is used for: not the key lookup, which has its own
    numbering. -/
def Retried (query : Stmt) : Prop := ∀ schema name, query ≠ .primaryKey schema name

theorem retried_selectPage (t : String) (pk : List String) (limit offset : Int32) :
    Retried (.selectPage t pk limit offset) := by
  intro _ _ h
  cases h

theorem retried_insert (t : String) (columns : List String) (values : List (List SqlValue)) :
    Retried (.insert t columns values) := by
  intro _ _ h
  cases h

theorem Retried.attemptNumber {query : Stmt} (hq : Retried query) (s : Session) :
    s.attemptNumber query = s.attempt := by
  cases query <;> first | rfl | exact absurd rfl (hq _ _)

theorem Retried.count {query : Stmt} (hq : Retried query) (s : Session)
    (res : Option PGresult) :
    s.count query res =
      { s with attempt := if PQresultStatus res = .commandOk ∨ PQresultStatus res = .tuplesOk
                 then 0 else s.attempt } := by
  cases query <;> first | rfl | exact absurd rfl (hq _ _)

/-! ## One attempt -/

section Behaviour

variable (b : Behaviour C) {conn : Conn} {query : Stmt} {s : Session}

/-- An attempt answered by a good result ends the loop. -/
theorem run_backoffLoop_success {res : PGresult} {H : HostedDb} (hq : Retried query)
    (hres : res.status = .commandOk ∨ res.status = .tuplesOk)
    (hr : respond C (b.localDb s query) s.hosted conn query (b.outcome s conn query) =
      (some res, H)) (n : Nat) (a : Int) (delay : Int64) :
    (backoffLoop (attemptQuery conn query) (n + 1) a delay none).run b.handler s =
      (some (some res), { s with attempt := 0, hosted := H }) := by
  have hstatus : PQresultStatus (some res) = .commandOk ∨ PQresultStatus (some res) = .tuplesOk :=
    hres
  simp only [backoffLoop, attemptQuery, bind_assoc, run_PQexec_bind, Behaviour.handler, hr,
    if_pos hstatus, pure_bind, if_true, Prog.run_pure, hq.count]

/-- A failed attempt leads to the next one, after a sleep. -/
theorem run_backoffLoop_failure {H : HostedDb} (hq : Retried query)
    (hr : respond C (b.localDb s query) s.hosted conn query (b.outcome s conn query) =
      (some failureResult, H)) (n a : Nat) (delay : Int64) :
    (backoffLoop (attemptQuery conn query) (n + 1) a delay none).run b.handler s =
      (backoffLoop (attemptQuery conn query) n (a + 1 : Nat) (delay * 2) none).run b.handler
        { s with attempt := a + 1, hosted := H } := by
  have hstatus : ¬ (PQresultStatus (some failureResult) = .commandOk ∨
      PQresultStatus (some failureResult) = .tuplesOk) := by decide
  -- the log line of the failed attempt carries its number; the session follows it
  have hnum : ((a : Int) + 1).toNat = a + 1 := by omega
  simp only [backoffLoop, attemptQuery, bind_assoc, run_PQexec_bind, run_log_bind,
    run_sleepFor_bind, Behaviour.handler, hr, if_neg hstatus, pure_bind, Bool.false_eq_true,
    if_false, hq.count, Session.observe, hnum]
  rfl

/-- When every attempt fails without an effect, the result is null. -/
theorem run_executeWithRetry_rejected (conn : Conn) (hq : Retried query) (hs : s.attempt = 0)
    (hr : ∀ a, respond C (b.localDb { s with attempt := a } query) s.hosted conn query
      (b.outcome { s with attempt := a } conn query) = (some failureResult, s.hosted)) :
    (executeWithRetry conn query).run b.handler s = (some none, { s with attempt := 3 }) := by
  -- from any attempt on, the remaining ones fail as well
  have hloop : ∀ (n a : Nat) (delay : Int64), (backoffLoop (attemptQuery conn query) n (a : Nat) delay none).run
      b.handler { s with attempt := a } = (some none, { s with attempt := a + n }) := by
    intro n
    induction n with
    | zero => intro a delay; rfl
    | succ n ih =>
      intro a delay
      rw [run_backoffLoop_failure b (H := s.hosted) hq (hr a), ih, Nat.add_assoc,
        Nat.add_comm 1 n]
  have hstart : s = { s with attempt := 0 } := by rw [← hs]
  rw [hstart]
  exact hloop 3 0 100

/-- An acknowledged first attempt is the only one. -/
theorem run_executeWithRetry_first {res : PGresult} {H : HostedDb} (hq : Retried query)
    (hres : res.status = .commandOk ∨ res.status = .tuplesOk)
    (hr : respond C (b.localDb s query) s.hosted conn query (b.outcome s conn query) =
      (some res, H)) :
    (executeWithRetry conn query).run b.handler s =
      (some (some res), { s with attempt := 0, hosted := H }) :=
  run_backoffLoop_success b hq hres hr 2 0 100

end Behaviour

/-! ## Attempts that fare as an oracle says -/

/-- One of the `n` attempts from number `a` on is acknowledged. -/
def ackedFrom (fate : Nat → Outcome) (a n : Nat) : Bool :=
  (List.range' a n).any fun i => fate i = .acked

/-- One of the `n` attempts from number `a` on is executed. -/
def committedFrom (fate : Nat → Outcome) (a n : Nat) : Bool :=
  (List.range' a n).any fun i => fate i ≠ .lost

theorem ackedFrom_iff {fate : Nat → Outcome} :
    ackedFrom fate 0 3 = true ↔ ∃ a < 3, fate a = .acked := by
  simp [ackedFrom, List.mem_range']

theorem committedFrom_iff {fate : Nat → Outcome} :
    committedFrom fate 0 3 = true ↔ ∃ a < 3, fate a ≠ .lost := by
  simp [committedFrom, List.mem_range']

/-- A statement that the server executes in any state of the hosted database, with the
    same good result, and with an effect that repeating it does not change. -/
structure Serves (C : Catalog) (L : LocalDb C.table) (conn : Conn) (query : Stmt)
    (res : PGresult) (effect : HostedDb → HostedDb) : Prop where
  retried : Retried query
  serve_eq : ∀ H, serve C L H conn query = some (res, effect H)
  status : res.status = .commandOk ∨ res.status = .tuplesOk
  idem : ∀ H, effect (effect H) = effect H

variable {L : LocalDb C.table} (o : Oracle) {conn : Conn} {query : Stmt} {res : PGresult}
  {effect : HostedDb → HostedDb}

/-- The retry loop, started at attempt `a` with `n` attempts to go. The induction is on
    `n`; an executed but unacknowledged attempt is absorbed by the next execution. -/
private theorem run_backoffLoop_oracle (hserves : Serves C L conn query res effect)
    (n a : Nat) (delay : Int64) (s : Session) (hs : s.attempt = a) :
    (backoffLoop (attemptQuery conn query) n a delay none).run (o.behaviour L).handler s =
      (some (if ackedFrom (o s.table conn query) a n then some res else none),
        { s with
          attempt := if ackedFrom (o s.table conn query) a n then 0 else a + n
          hosted := if committedFrom (o s.table conn query) a n then effect s.hosted
            else s.hosted }) := by
  induction n generalizing a delay s with
  | zero =>
    subst hs
    rfl
  | succ n ih =>
    -- the attempt fares as the oracle says for its number
    have hfate : (o.behaviour L).outcome s conn query = o s.table conn query a := by
      show o s.table conn query (s.attemptNumber query) = _
      rw [hserves.retried.attemptNumber, hs]
    have hack : ackedFrom (o s.table conn query) a (n + 1) =
        (decide (o s.table conn query a = .acked) ||
          ackedFrom (o s.table conn query) (a + 1) n) := rfl
    have hcom : committedFrom (o s.table conn query) a (n + 1) =
        (decide (o s.table conn query a ≠ .lost) ||
          committedFrom (o s.table conn query) (a + 1) n) := rfl
    cases ho : o s.table conn query a with
    | acked =>
      have hr : respond C ((o.behaviour L).localDb s query) s.hosted conn query
          ((o.behaviour L).outcome s conn query) = (some res, effect s.hosted) := by
        rw [hfate, ho]
        simp only [respond, Oracle.behaviour, hserves.serve_eq]
      -- the loop returns at once, with the effect of this execution
      rw [run_backoffLoop_success _ hserves.retried hserves.status hr, hack, hcom]
      simp [ho]
    | lost =>
      -- nothing happened: the later attempts decide
      have hr : respond C ((o.behaviour L).localDb s query) s.hosted conn query
          ((o.behaviour L).outcome s conn query) = (some failureResult, s.hosted) := by
        rw [hfate, ho]
        rfl
      rw [run_backoffLoop_failure _ hserves.retried hr,
        ih (a + 1) _ { s with attempt := a + 1 } rfl, hack, hcom]
      simp [ho, Nat.add_assoc, Nat.add_comm 1 n]
    | unacked =>
      have hr : respond C ((o.behaviour L).localDb s query) s.hosted conn query
          ((o.behaviour L).outcome s conn query) = (some failureResult, effect s.hosted) := by
        rw [hfate, ho]
        simp only [respond, Oracle.behaviour, hserves.serve_eq]
      rw [run_backoffLoop_failure _ hserves.retried hr,
        ih (a + 1) _ { s with attempt := a + 1, hosted := effect s.hosted } rfl, hack, hcom]
      -- executed here, perhaps again later: once is enough
      simp [ho, hserves.idem, Nat.add_assoc, Nat.add_comm 1 n]

/-- **`executeWithRetry` against an oracle**: the result arrives when one of the three
    attempts is acknowledged, the effect is there when one of them is executed. -/
theorem run_executeWithRetry (hserves : Serves C L conn query res effect) {s : Session}
    (hs : s.attempt = 0) :
    (executeWithRetry conn query).run (o.behaviour L).handler s =
      (some (if ackedFrom (o s.table conn query) 0 3 then some res else none),
        { s with
          attempt := if ackedFrom (o s.table conn query) 0 3 then 0 else 3
          hosted := if committedFrom (o s.table conn query) 0 3 then effect s.hosted
            else s.hosted }) :=
  run_backoffLoop_oracle o hserves 3 0 100 s hs

/-! ## Batches -/

/-- The rows as an INSERT carries them. -/
def encoded (rows : List Row) : List (List SqlValue) := rows.map fun r => r.map SqlValue.ofCell

/-- The rows that an INSERT stands for are those it was made of: escaping and storing undo
    each other, cell by cell. -/
theorem rows_of_encoded {t : String} {rows : List Row}
    (hw : ∀ r ∈ rows, r.length = (C.table t).columns.length) :
    (encoded rows).map ((C.table t).rowOf (C.table t).columns) = rows := by
  rw [encoded, List.map_map]
  conv_rhs => rw [← List.map_id rows]
  exact List.map_congr_left fun r hr => TableDef.rowOf_columns _ (hw r hr)

/-- Rows of a table, sent under its columns, are inserted as they are. -/
theorem serves_insert (t : String) {rows : List Row}
    (hw : ∀ r ∈ rows, r.length = (C.table t).columns.length) :
    Serves C L .hosted_ (.insert t (C.table t).columns (encoded rows)) commandResult
      (insertRows (C.table t) t rows) where
  retried := retried_insert _ _ _
  serve_eq H := by rw [serve, rows_of_encoded hw]
  status := Or.inl rfl
  idem _ := insertRows_idem

/-- Encoding makes no statement, so no environment changes by it. -/
theorem run_encode (b : Behaviour C) (rows : List Row) (s : Session) :
    (rows.mapM encodeRow).run b.handler s = (some (encoded rows), s) := by
  -- a cell first, then `mapM` over cells and over rows
  have hcell : ∀ c : Cell, (encodeCell c).run b.handler s = (some (SqlValue.ofCell c), s) := by
    intro c
    cases c <;> rfl
  have hmapM : ∀ {α β : Type} (f : α → Code β) (g : α → β)
      (_ : ∀ a, (f a).run b.handler s = (some (g a), s)) (l : List α),
      (l.mapM f).run b.handler s = (some (l.map g), s) := by
    intro α β f g hf l
    induction l with
    | nil => rfl
    | cons a l ih =>
      rw [List.mapM_cons, Prog.run_bind_of_some _ _ (hf a), Prog.run_bind_of_some _ _ ih]
      rfl
  exact hmapM encodeRow _ (fun r => hmapM encodeCell _ hcell r) rows

/-- The INSERT of a batch. -/
def batchInsert (C : Catalog) (t : String) (rows : List Row) : Stmt :=
  .insert t (C.table t).columns (encoded rows)

/-- **One batch**: its rows are inserted when one of the three attempts is executed. -/
theorem run_sendChunk (t : String) {rows : List Row}
    (hw : ∀ r ∈ rows, r.length = (C.table t).columns.length) {s : Session}
    (hs : s.attempt = 0) :
    (sendChunk t (C.table t).columns rows).run (o.behaviour L).handler s =
      (some (), { s with
        hosted := if committedFrom (o s.table .hosted_ (batchInsert C t rows)) 0 3 then
          insertRows (C.table t) t rows s.hosted else s.hosted }) := by
  have hrun := run_executeWithRetry (L := L) o (serves_insert t hw) hs
  rw [sendChunk, Prog.run_bind_of_some _ _ (run_encode _ rows s), sendBatch,
    Prog.run_bind_of_some _ _ hrun]
  unfold batchInsert
  -- the answer decides only whether a log line is written
  cases ackedFrom (o s.table .hosted_ (.insert t (C.table t).columns (encoded rows))) 0 3 with
  | true => simp [PQresultStatus, commandResult, hs]
  | false => simp [PQresultStatus, Behaviour.handler, Session.observe, hs]

section Behaviour

variable (b : Behaviour C) {t : String} {rows : List Row} {s : Session}

/-- A batch whose first attempt is acknowledged. -/
theorem run_sendChunk_acked (hw : ∀ r ∈ rows, r.length = (C.table t).columns.length)
    (hs : s.attempt = 0) (ho : b.outcome s .hosted_ (batchInsert C t rows) = .acked) :
    (sendChunk t (C.table t).columns rows).run b.handler s =
      (some (), { s with hosted := insertRows (C.table t) t rows s.hosted }) := by
  have hserve := (serves_insert (L := b.localDb s (batchInsert C t rows)) t hw).serve_eq s.hosted
  have hr : respond C (b.localDb s (batchInsert C t rows)) s.hosted .hosted_
      (batchInsert C t rows) (b.outcome s .hosted_ (batchInsert C t rows)) =
      (some commandResult, insertRows (C.table t) t rows s.hosted) := by
    rw [ho]
    simp only [respond, batchInsert] at hserve ⊢
    rw [hserve]
  have hrun := run_executeWithRetry_first b (retried_insert _ _ _) (Or.inl rfl) hr
  rw [sendChunk, Prog.run_bind_of_some _ _ (run_encode _ rows s), sendBatch,
    Prog.run_bind_of_some _ _ hrun]
  simp [PQresultStatus, commandResult, hs]

/-- A batch all of whose attempts are lost. -/
theorem run_sendChunk_lost (hs : s.attempt = 0)
    (ho : ∀ a, b.outcome { s with attempt := a } .hosted_ (batchInsert C t rows) = .lost) :
    (sendChunk t (C.table t).columns rows).run b.handler s = (some (), s) := by
  have hrun := run_executeWithRetry_rejected b .hosted_ (retried_insert t _ _) hs
    (fun a => by rw [← batchInsert, ho a]; rfl)
  have hnull : PQresultStatus none ≠ .commandOk := by decide
  rw [sendChunk, Prog.run_bind_of_some _ _ (run_encode _ rows s), sendBatch,
    Prog.run_bind_of_some _ _ hrun, if_pos hnull, run_log]
  simp only [Behaviour.handler, Session.observe, ← hs]

end Behaviour

end SyncLayer.Copy
