import SyncLayer.Copy.Batches
import SyncLayer.Model.Calls
import SyncLayer.Protocol.Progress

/-!
# The Service Keeps to the Protocol

One lemma for each function of the model: from which states of the observer it may be
called, and in which it leaves the observer. All of them start and end `calm`, with
nothing owed and nothing to be tried again.
-/

namespace SyncLayer.Protocol

open SyncLayer.Interaction SyncLayer.Model SyncLayer.Chunks

/-- Nothing is owed, and no statement has to be tried again. -/
def calm (found : List ((String × String) × List String)) (copied : Bool) (phase : Phase) :
    Progress :=
  { phase, found, copied }

variable {found : List ((String × String) × List String)} {copied : Bool}

/-! ## Statements with retry -/

/-- A statement that has failed `n` times so far. -/
private def triedAfter (q : Stmt) : Nat → Option (Stmt × Nat)
  | 0 => none
  | n + 1 => some (q, n + 1)

/-- The observer of a retried statement after `n` failures. -/
private def afterFailures (found : List ((String × String) × List String)) (copied : Bool)
    (q : Stmt) (before after : Phase) (line : LogLine) (n : Nat) : Progress :=
  if n < 3 then { phase := before, found, tried := triedAfter q n, copied }
  else { phase := after, found, owed := [(· = .log line)], copied }

private theorem failed_afterFailures (q : Stmt) (before after : Phase) (line : LogLine)
    {n : Nat} (hn : n < 3) :
    (afterFailures found copied q before after line n).failed q after line =
      { afterFailures found copied q before after line (n + 1) with
        owed := [(· = .log (.queryFailed (n + 1))), (· = .sleepFor (100 * 2 ^ n))] ++
          (afterFailures found copied q before after line (n + 1)).owed } := by
  match n, hn with
  | 0, _ => rfl
  | 1, _ => rfl
  | 2, _ => rfl

/-- The rule for a retried statement: it may be sent, also after failures, and what its
    answers lead to is known. -/
private theorem obeys_executeWithRetry {conn : Conn} {q : Stmt} {before : Phase}
    (after : Phase) (line : LogLine) {Q : Option PGresult → Progress → Prop}
    (hfree : ∀ tried, (∀ q' n, tried = some (q', n) → q = q') →
      ({ phase := before, found, tried, copied } : Progress).Free (.pqexec conn q))
    (hbad : ∀ tried res, PQresultStatus res ≠ .commandOk → PQresultStatus res ≠ .tuplesOk →
      ({ phase := before, found, tried, copied } : Progress).answered (.pqexec conn q) res =
        ({ phase := before, found, tried, copied } : Progress).failed q after line)
    (hgood : ∀ tried res, PQresultStatus res = .commandOk ∨ PQresultStatus res = .tuplesOk →
      Q res (({ phase := before, found, tried, copied } : Progress).answered (.pqexec conn q) res))
    (hgiven : Q none { phase := after, found, owed := [(· = .log line)], copied }) :
    (executeWithRetry conn q).Obeys protocol Q (calm found copied before) := by
  -- the induction is on the rounds to go; `n` is the number of failures so far
  have hloop : ∀ k n : Nat, n + k = 3 →
      (backoffLoop (attemptQuery conn q) k n (100 * 2 ^ n) none).Obeys protocol Q
        (afterFailures found copied q before after line n) := by
    intro k
    induction k with
    | zero =>
      intro n hn
      obtain rfl : n = 3 := hn
      exact hgiven
    | succ k ih =>
      intro n hn
      have hlt : n < 3 := by omega
      have hstate : afterFailures found copied q before after line n =
          { phase := before, found, tried := triedAfter q n, copied } := if_pos hlt
      have htried : ∀ q' m, triedAfter q n = some (q', m) → q = q' := by
        intro q' m h
        cases n with
        | zero => cases h
        | succ n => exact congrArg Prod.fst (Option.some.inj h)
      apply Prog.Obeys.bind
      rw [hstate, attemptQuery, obeys_PQexec_bind]
      refine ⟨hfree _ htried, fun res _ => ?_⟩
      by_cases hres : PQresultStatus res = .commandOk ∨ PQresultStatus res = .tuplesOk
      · -- the statement has succeeded
        rw [if_pos hres]
        exact hgood _ res hres
      · obtain ⟨hcommand, htuples⟩ := not_or.1 hres
        have hnext : protocol.next { phase := before, found, tried := triedAfter q n, copied }
            (.pqexec conn q) res = _ := hbad _ res hcommand htuples
        rw [if_neg hres, hnext, ← hstate, failed_afterFailures q before after line hlt,
          obeys_log_bind]
        -- the line, the wait, and the next round
        refine ⟨rfl, fun _ _ => ?_⟩
        refine (obeys_sleepFor_bind ..).2 ⟨rfl, fun _ _ => ?_⟩
        have hrest := ih (n + 1) (by omega)
        rw [Int64.pow_succ, ← Int64.mul_assoc] at hrest
        exact hrest
  exact hloop 3 0 rfl

/-! ## The pages of a table -/

variable {t : String} {offset total count : Int32} {fields : List String}

/-- Encoding the cells of the next batch leaves their escapes with the observer. -/
private theorem obeys_encodeRows (rows : List Row) :
    ((rows.take batchSize).mapM encodeRow).Obeys protocol
      (fun values s => ∃ escapes, CarriesRows (rows.take batchSize) escapes values ∧
        s = calm found copied (.sending t offset total count fields rows escapes))
      (calm found copied (.sending t offset total count fields rows [])) := by
  let P (escapes : List (String × Bool)) (s : Progress) : Prop :=
    s = calm found copied (.sending t offset total count fields rows escapes)
  refine Prog.obeys_mapM (D := Collected Carries) (P := P) _ ?_ [] _ rfl
  intro row hrow escapes s hs
  refine Prog.obeys_mapM (D := Carries) (P := P) row ?_ escapes s hs
  rintro cell hcell escapes s rfl
  cases cell with
  | none =>
    refine ⟨[], .null, ?_⟩
    rw [List.append_nil]
  | some val =>
    refine (obeys_PQescapeLiteral_bind ..).2 ⟨?_, fun escaped _ => ?_⟩
    · exact ⟨t, offset, total, count, fields, rows, escapes, rfl, row, hrow, hcell⟩
    · cases escaped with
      | true => exact ⟨[(val, true)], .literal val, rfl⟩
      | false => exact ⟨[(val, false)], .lost val, rfl⟩

private theorem obeys_sendBatch {rows : List Row} {escapes : List (String × Bool)}
    {values : List (List SqlValue)} (hrows : rows ≠ [])
    (hvalues : CarriesRows (rows.take batchSize) escapes values) :
    (sendBatch t fields values).Obeys protocol
      (fun _ s => s = calm found false
        (.sending t offset total count fields (rows.drop batchSize) []))
      (calm found false (.sending t offset total count fields rows escapes)) := by
  apply Prog.Obeys.bind
  refine obeys_executeWithRetry (.sending t offset total count fields (rows.drop batchSize) [])
    (.insertFailed t) ?_ ?_ ?_ ?_
  · exact fun tried htried =>
      ⟨rfl, rfl, ⟨offset, total, count, rows, escapes, rfl, hrows, hvalues⟩, htried⟩
  · intro tried res hcommand htuples
    change Progress.insertAnswered _ t _ res = _
    rw [Progress.insertAnswered]
    split
    · exact absurd (by assumption) hcommand
    · exact absurd (by assumption) htuples
    · rfl
  · intro tried res hres
    change Prog.Obeys protocol _ _ (Progress.insertAnswered _ t _ res)
    rw [Progress.insertAnswered]
    rcases hres with hcommand | htuples
    · rw [hcommand]
      exact rfl
    · -- success of a kind that is no success for the copy
      rw [htuples]
      exact ⟨rfl, fun _ _ => rfl⟩
  · exact ⟨rfl, fun _ _ => rfl⟩

/-- The rows of a page are sent batch by batch. The induction is on what is left of it. -/
private theorem obeys_rowLoop (rows : List Row) :
    (rowLoop t fields rows []).Obeys protocol
      (fun _ s => s = calm found false (.sending t offset total count fields [] []))
      (calm found false (.sending t offset total count fields rows [])) := by
  rw [Copy.rowLoop_eq_sendChunks]
  induction rows using chunks.induct batchSize with
  | case1 rows h =>
    obtain rfl := h.resolve_right (by decide)
    rw [chunks_nil]
    exact rfl
  | case2 rows h ih =>
    have hne : rows ≠ [] := fun hnil => h (Or.inl hnil)
    rw [chunks_of_ne_nil (by decide) hne, List.forM_cons]
    apply Prog.Obeys.bind
    apply Prog.Obeys.bind
    apply (obeys_encodeRows rows).mono
    rintro values s ⟨escapes, hvalues, rfl⟩
    apply (obeys_sendBatch hne hvalues).mono
    rintro _ s rfl
    exact ih

/-- What reading a page leads to. -/
private theorem obeys_readPage {pk : List String} (hpk : pk ≠ [])
    (hfound : ((TableTracker.schemaOf t, TableTracker.tableNameOf t), pk) ∈ found)
    {Q : Option PGresult → Progress → Prop}
    (hread : ∀ res, PQresultStatus res = .tuplesOk → Q res (calm found false
      (if PQntuples res = 0 then .ended t total
        else .sending t (offset + pageSize) (total + Int32.ofNat (PQntuples res))
          (Int32.ofNat (PQntuples res)) (resultFields res) (resultRows res) [])))
    (hlost : ∀ res, PQresultStatus res ≠ .tuplesOk →
      Q res { phase := .ended t total, found, owed := [(· = .log (.selectFailed t))] }) :
    (executeWithRetry .local_ (.selectPage t pk pageSize offset)).Obeys protocol Q
      (calm found false (.reading t offset total)) := by
  refine obeys_executeWithRetry (.ended t total) (.selectFailed t) ?_ ?_ ?_ ?_
  · exact fun tried htried => ⟨rfl, rfl, rfl, hpk, hfound, ⟨total, rfl⟩, htried⟩
  · intro tried res hcommand htuples
    change Progress.pageAnswered _ t _ offset res = _
    rw [Progress.pageAnswered]
    split
    · exact absurd (by assumption) htuples
    · exact absurd (by assumption) hcommand
    · rfl
  · intro tried res hres
    change Q res (Progress.pageAnswered _ t _ offset res)
    rw [Progress.pageAnswered]
    rcases hres with hcommand | htuples
    · rw [hcommand]
      exact hlost res (by rw [hcommand]; decide)
    · rw [htuples]
      exact hread res htuples
  · exact hlost none (by decide)

private theorem obeys_pageLoop {pk : List String} (hpk : pk ≠ [])
    (hfound : ((TableTracker.schemaOf t, TableTracker.tableNameOf t), pk) ∈ found)
    (fuel : Nat) (offset total : Int32) :
    (pageLoop t pk fuel offset total).Obeys protocol
      (fun n s => s = calm found false (.ended t n))
      (calm found false (.reading t offset total)) := by
  induction fuel generalizing offset total with
  | zero => trivial
  | succ fuel ih =>
    rw [pageLoop]
    apply Prog.Obeys.bind
    refine obeys_readPage hpk hfound (fun res htuples => ?_) (fun res hstatus => ?_)
    · rw [if_neg (by rw [htuples]; decide)]
      dsimp only
      by_cases hempty : PQntuples res = 0
      · rw [if_pos hempty, if_pos hempty]
        exact rfl
      · rw [if_neg hempty, if_neg hempty]
        apply Prog.Obeys.bind
        apply (obeys_rowLoop _).mono
        rintro _ s rfl
        -- the page is worked off
        exact (obeys_log_bind ..).2 ⟨⟨_, _, rfl⟩, fun _ _ => ih _ _⟩
    · rw [if_pos hstatus]
      exact (obeys_log_bind ..).2 ⟨rfl, fun _ _ => rfl⟩

/-! ## The copy -/

/-- The observer has seen a lookup return the keys that the tracker holds. -/
def KeysFound (found : List ((String × String) × List String)) (tracker : TableTracker) :
    Prop :=
  ∀ t, tracker.getPrimaryKeys t ≠ [] →
    ((TableTracker.schemaOf t, TableTracker.tableNameOf t), tracker.getPrimaryKeys t) ∈ found

private theorem obeys_syncTable (fuel : Nat) {tracker : TableTracker}
    (hkeys : KeysFound found tracker) (t : String) :
    (syncTable fuel tracker t).Obeys protocol (fun _ s => s = calm found false .idle)
      (calm found false .idle) := by
  rw [syncTable]
  by_cases hpk : tracker.getPrimaryKeys t = []
  · rw [hpk]
    exact (obeys_log ..).2 ⟨rfl, fun _ _ => rfl⟩
  · have hne : (tracker.getPrimaryKeys t).isEmpty = false := by
      rw [← Bool.not_eq_true, List.isEmpty_iff]
      exact hpk
    rw [hne]
    refine (obeys_log_bind ..).2 ⟨⟨rfl, rfl⟩, fun _ _ => ?_⟩
    apply Prog.Obeys.bind
    apply (obeys_pageLoop hpk (hkeys t hpk) fuel 0 0).mono
    rintro totalRows s rfl
    exact (obeys_log ..).2 ⟨rfl, fun _ _ => rfl⟩

private theorem obeys_initialSync (fuel : Nat) {tracker : TableTracker}
    (hkeys : KeysFound found tracker) :
    (initialSync fuel tracker).Obeys protocol (fun _ s => s = calm found true .idle)
      (calm found false .idle) := by
  refine (obeys_log_bind ..).2 ⟨⟨rfl, rfl⟩, fun _ _ => ?_⟩
  apply Prog.Obeys.bind
  refine (Prog.obeys_forM (P := (· = calm found false .idle)) _ ?_ rfl).mono ?_
  · rintro t _ s rfl
    exact obeys_syncTable fuel hkeys t
  · rintro _ s rfl
    exact (obeys_log ..).2 ⟨⟨rfl, rfl⟩, fun _ _ => rfl⟩

/-! ## Health check, discovery, queue -/

private theorem obeys_queryMetric (conn : Conn) {q : Stmt}
    (hq : q ∈ [.countConnections, .databaseSize, .countActiveQueries]) :
    (queryMetric conn q).Obeys protocol (fun _ s => s = calm found copied .idle)
      (calm found copied .idle) := by
  simp only [List.mem_cons, List.not_mem_nil, or_false] at hq
  rcases hq with rfl | rfl | rfl
  all_goals
    refine (obeys_PQexec_bind ..).2 ⟨rfl, fun res _ => ?_⟩
    split <;> exact rfl

private theorem obeys_checkConnection (conn : Conn) :
    (checkConnection conn).Obeys protocol (fun _ s => s = calm found copied .idle)
      (calm found copied .idle) := by
  refine (obeys_PQexec_bind ..).2 ⟨rfl, fun res _ => ?_⟩
  have hnext : protocol.next (calm found copied .idle) (.pqexec conn .selectOne) res =
      if PQresultStatus res = .tuplesOk then calm found copied .idle
      else { calm found copied .idle with owed := [(· = .log (.healthCheckFailed conn))] } := rfl
  rw [hnext]
  by_cases hres : PQresultStatus res = .tuplesOk
  · rw [if_pos hres, if_pos hres]
    apply Prog.Obeys.bind
    apply (obeys_queryMetric conn (by decide)).mono
    rintro _ s rfl
    apply Prog.Obeys.bind
    apply (obeys_queryMetric conn (by decide)).mono
    rintro _ s rfl
    apply Prog.Obeys.bind
    apply (obeys_queryMetric conn (by decide)).mono
    rintro _ s rfl
    exact rfl
  · rw [if_neg hres, if_neg hres]
    exact (obeys_log_bind ..).2 ⟨rfl, fun _ _ => rfl⟩

theorem obeys_healthCheck :
    healthCheck.Obeys protocol (fun _ s => s = calm found copied .idle)
      (calm found copied .idle) := by
  refine (obeys_log_bind ..).2 ⟨rfl, fun _ _ => ?_⟩
  apply Prog.Obeys.bind
  apply (obeys_checkConnection .local_).mono
  rintro onLocal s rfl
  apply Prog.Obeys.bind
  apply (obeys_checkConnection .hosted_).mono
  rintro onHosted s rfl
  dsimp only
  split
  · exact (obeys_log_bind ..).2 ⟨rfl, fun _ _ => rfl⟩
  · exact (obeys_log_bind ..).2 ⟨rfl, fun _ _ => rfl⟩

private theorem obeys_listTables (config : Config) :
    (TableTracker.listTables config).Obeys protocol (fun _ s => s = calm found copied .idle)
      (calm found copied .idle) := by
  rw [TableTracker.listTables]
  split
  · refine (obeys_PQexec_bind ..).2 ⟨⟨rfl, rfl⟩, fun res _ => ?_⟩
    have hnext : protocol.next (calm found copied .idle) (.pqexec .local_ .listTables) res =
        if PQresultStatus res = .tuplesOk then calm found copied .idle
        else { calm found copied .idle with owed := [(· = .log .discoveryFailed)] } := rfl
    rw [hnext]
    by_cases hres : PQresultStatus res = .tuplesOk
    · rw [if_pos hres, if_pos hres]
      exact rfl
    · rw [if_neg hres, if_neg hres]
      exact (obeys_log_bind ..).2 ⟨rfl, fun _ _ => rfl⟩
  · exact rfl

/-- The map of keys never holds more than the lookups have returned. -/
private def Known (found : List ((String × String) × List String))
    (keys : String → Option (List String)) : Prop :=
  ∀ t columns, keys t = some columns → columns ≠ [] →
    ((TableTracker.schemaOf t, TableTracker.tableNameOf t), columns) ∈ found

private theorem obeys_lookupPrimaryKey {keys : String → Option (List String)}
    (hkeys : Known found keys) (t : String) :
    (TableTracker.lookupPrimaryKey keys t).Obeys protocol
      (fun keys s => ∃ found, s = calm found copied .idle ∧ Known found keys)
      (calm found copied .idle) := by
  refine (obeys_PQexec_bind ..).2 ⟨⟨rfl, rfl⟩, fun res _ => ?_⟩
  let entry := (TableTracker.schemaOf t, TableTracker.tableNameOf t)
  have hnext : protocol.next (calm found copied .idle)
      (.pqexec .local_ (.primaryKey entry.1 entry.2)) res =
      if PQresultStatus res = .tuplesOk then
        { calm ((entry, TableTracker.firstColumn res) :: found) copied .idle with
          owed := if TableTracker.firstColumn res = [] then
            [Progress.LineFor .noPrimaryKey entry.1 entry.2] else [] }
      else
        { calm found copied .idle with
          owed := [Progress.LineFor .primaryKeyFailed entry.1 entry.2] } := rfl
  rw [hnext]
  by_cases hres : PQresultStatus res = .tuplesOk
  · rw [if_pos hres, if_pos hres]
    have hupdate : Known ((entry, TableTracker.firstColumn res) :: found)
        (Function.update keys t (some (TableTracker.firstColumn res))) := by
      intro t' columns ht' hne
      by_cases htt' : t' = t
      · subst htt'
        rw [Function.update_self] at ht'
        obtain rfl := Option.some.inj ht'
        exact List.mem_cons_self ..
      · rw [Function.update_of_ne htt'] at ht'
        exact List.mem_cons_of_mem _ (hkeys t' columns ht' hne)
    dsimp only
    by_cases hempty : TableTracker.firstColumn res = []
    · rw [hempty] at hupdate ⊢
      exact (obeys_log_bind ..).2 ⟨⟨t, rfl, rfl, rfl⟩, fun _ _ => ⟨_, rfl, hupdate⟩⟩
    · have hne : (TableTracker.firstColumn res).isEmpty = false := by
        rw [← Bool.not_eq_true, List.isEmpty_iff]
        exact hempty
      rw [hne, if_neg hempty]
      exact ⟨_, rfl, hupdate⟩
  · rw [if_neg hres, if_neg hres]
    exact (obeys_log_bind ..).2 ⟨⟨t, rfl, rfl, rfl⟩, fun _ _ => ⟨found, rfl, hkeys⟩⟩

private theorem obeys_lookupPrimaryKeys (ts : List String) :
    ∀ {found : List ((String × String) × List String)} {keys : String → Option (List String)},
      Known found keys →
      (TableTracker.lookupPrimaryKeys keys ts).Obeys protocol
        (fun keys s => ∃ found, s = calm found copied .idle ∧ Known found keys)
        (calm found copied .idle) := by
  induction ts with
  | nil => exact fun hkeys => ⟨_, rfl, hkeys⟩
  | cons t ts ih =>
    intro found keys hkeys
    apply Prog.Obeys.bind
    apply (obeys_lookupPrimaryKey hkeys t).mono
    rintro keys s ⟨found, rfl, hkeys⟩
    exact ih hkeys

private theorem obeys_discoverTables (config : Config) :
    (TableTracker.discoverTables config).Obeys protocol
      (fun tracker s => ∃ found, s = calm found copied .idle ∧ KeysFound found tracker)
      (calm found copied .idle) := by
  apply Prog.Obeys.bind
  apply (obeys_listTables config).mono
  rintro tables s rfl
  have hnone : Known found fun _ => none := by
    intro t columns h
    cases h
  apply Prog.Obeys.bind
  apply (obeys_lookupPrimaryKeys tables hnone).mono
  rintro keys s ⟨found, rfl, hkeys⟩
  refine (obeys_log_bind ..).2 ⟨rfl, fun _ _ => ⟨found, rfl, fun t ht => ?_⟩⟩
  have hget : TableTracker.getPrimaryKeys
      { trackedTables := tables, tablePrimaryKeys := keys } t = (keys t).getD [] := rfl
  rw [hget] at ht ⊢
  cases hkey : keys t with
  | none =>
    rw [hkey] at ht
    exact absurd rfl ht
  | some columns =>
    rw [hkey] at ht
    exact hkeys t columns hkey ht

private theorem obeys_drainTo (q : List ChangeEvent) :
    (QueueHandler.drainTo q).Obeys protocol (fun _ s => s = calm found copied .idle)
      (calm found copied .idle) := by
  refine (Prog.obeys_of_calls (P := (· = calm found copied .idle)) (calls_drainTo q) ?_ rfl)
  rintro e s he rfl
  cases he with
  | replicating operation table payloadJson => exact ⟨rfl, fun _ _ => rfl⟩
  | drained events => exact ⟨rfl, fun _ _ => rfl⟩

/-! ## start, run, GET /health -/

/-- A run of `start` copies only if none has come to its end before. -/
theorem obeys_start (fuel : Nat) (m : ReplicationManager) :
    (m.start fuel).Obeys protocol
      (fun m s => ∃ found, s = calm found m.initialSyncDone .idle)
      (calm found m.initialSyncDone .idle) := by
  refine (obeys_log_bind ..).2 ⟨rfl, fun _ _ => ?_⟩
  have hcheck : healthCheck.Obeys protocol (fun _ s => s = calm [] m.initialSyncDone .idle)
      (calm [] m.initialSyncDone .idle) := obeys_healthCheck
  apply Prog.Obeys.bind
  apply hcheck.mono
  rintro health s rfl
  by_cases hup : health.overall = true
  · rw [hup]
    apply Prog.Obeys.bind
    apply (obeys_discoverTables m.config).mono
    rintro tracker s ⟨found, rfl, hkeys⟩
    -- what is left after the copy
    have hrest : (do
        let queue ← QueueHandler.drainTo
          ((tracker.fetchChanges m.config.batchSize).foldl QueueHandler.enqueue m.queue)
        return ({ m with tracker, queue, initialSyncDone := true } : ReplicationManager)
        : Code ReplicationManager).Obeys protocol
          (fun m s => ∃ found, s = calm found m.initialSyncDone .idle)
          (calm found true .idle) := by
      apply Prog.Obeys.bind
      apply (obeys_drainTo _).mono
      rintro queue s rfl
      exact ⟨found, rfl⟩
    cases hdone : m.initialSyncDone with
    | true => exact hrest
    | false =>
      apply Prog.Obeys.bind
      apply (obeys_initialSync fuel hkeys).mono
      rintro _ s rfl
      exact hrest
  · rw [Bool.not_eq_true] at hup
    rw [hup]
    exact (obeys_log_bind ..).2 ⟨rfl, fun _ _ => ⟨[], rfl⟩⟩

/-- Whether the engine has copied. -/
def hasCopied (e : Engine) : Bool := (e.replicationManager.map (·.initialSyncDone)).getD false

theorem obeys_run (fuel : Nat) (e : Engine) :
    (e.run fuel).Obeys protocol (fun e s => ∃ found, s = calm found (hasCopied e) .idle)
      (calm found (hasCopied e) .idle) := by
  refine (obeys_log_bind ..).2 ⟨rfl, fun _ _ => ?_⟩
  cases hm : e.replicationManager with
  | none => exact (obeys_log_bind ..).2 ⟨rfl, fun _ _ => ⟨found, rfl⟩⟩
  | some m =>
    have hcopied : hasCopied e = m.initialSyncDone := by
      rw [hasCopied, hm]
      rfl
    rw [hcopied]
    apply Prog.Obeys.bind
    apply (obeys_start fuel m).mono
    rintro m s ⟨found, rfl⟩
    exact ⟨found, rfl⟩

theorem obeys_getHealth (manager : Option ReplicationManager) :
    (getHealth manager).Obeys protocol (fun _ s => s = calm found copied .idle)
      (calm found copied .idle) := by
  cases manager with
  | none => exact rfl
  | some m =>
    apply Prog.Obeys.bind
    apply obeys_healthCheck.mono
    rintro health s rfl
    split <;> exact rfl

end SyncLayer.Protocol
