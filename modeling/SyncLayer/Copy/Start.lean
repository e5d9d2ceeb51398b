import SyncLayer.Copy.Effect

/-!
# One Call of `start`

`start` against an oracle: the health check passes when both `SELECT 1` are
acknowledged, discovery tracks the listed tables and the keys whose lookup was
acknowledged, and the initial copy runs unless it is recorded as done. Three lemmas say
what a call does (`run_start_unhealthy`, `run_start_done`, `run_start_copies`).
-/

namespace SyncLayer.Copy

open SyncLayer.Interaction SyncLayer.Model SyncLayer.Database

variable {C : Catalog} (o : Oracle) (L : LocalDb C.table)

/-! ## Single statements -/

/-- A query without effect, answered in the first attempt or not at all. -/
private theorem handler_query {conn : Conn} {query : Stmt} {res : PGresult} {s : Session}
    (hq : Retried query) (hserve : serve C L s.hosted conn query = some (res, s.hosted))
    (hs : s.attempt = 0) :
    (o.behaviour L).handler (.pqexec conn query) s =
      (if o s.table conn query 0 = .acked then some res else some failureResult, s) := by
  -- outside the retry loop every statement is a first attempt
  have hfate : (o.behaviour L).outcome s conn query = o s.table conn query 0 := by
    show o s.table conn query (s.attemptNumber query) = _
    rw [hq.attemptNumber, hs]
  have hcount : ∀ res : Option PGresult, s.count query res = s := by
    intro res
    rw [hq.count, ← hs]
    simp
  have hL : (o.behaviour L).localDb s query = L := rfl
  simp only [Behaviour.handler, hL, hfate, hcount]
  cases o s.table conn query 0 with
  | acked =>
    simp only [respond, hserve]
    rfl
  | lost => rfl
  | unacked =>
    simp only [respond, hserve]
    rfl

/-- A query that is answered with the tuples `rows`. -/
private theorem status_reply (p : Prop) [Decidable p] (fnames : List String) (rows : List Row) :
    PQresultStatus (if p then some (tuplesResult fnames rows) else some failureResult) =
      if p then .tuplesOk else .fatalError := by
  by_cases h : p <;> simp [h, PQresultStatus, tuplesResult, failureResult]

/-! ## The health check -/

private theorem retried_of_metric {query : Stmt}
    (h : query = .selectOne ∨ query = .countConnections ∨ query = .databaseSize ∨
      query = .countActiveQueries ∨ query = .listTables) : Retried query := by
  rcases h with rfl | rfl | rfl | rfl | rfl <;> exact fun _ _ h => by cases h

private theorem run_queryMetric (conn : Conn) (query : Stmt) {s : Session}
    (hq : query = .countConnections ∨ query = .databaseSize ∨ query = .countActiveQueries)
    (hs : s.attempt = 0) :
    ∃ v, (queryMetric conn query).run (o.behaviour L).handler s = (some v, s) := by
  have hretried : Retried query := by
    apply retried_of_metric
    rcases hq with h | h | h <;> simp [h]
  obtain ⟨res, hserve⟩ : ∃ res, serve C L s.hosted conn query = some (res, s.hosted) := by
    rcases hq with rfl | rfl | rfl <;> cases conn <;> exact ⟨_, rfl⟩
  rw [queryMetric, run_PQexec_bind, handler_query o L hretried hserve hs]
  split_ifs
  · exact ⟨_, rfl⟩
  · exact ⟨_, rfl⟩
  · exact ⟨_, rfl⟩
  · exact ⟨_, rfl⟩

private theorem run_checkConnection (conn : Conn) {s : Session} (hs : s.attempt = 0) :
    ∃ x y z, (checkConnection conn).run (o.behaviour L).handler s =
      (some (decide (o s.table conn .selectOne 0 = .acked), x, y, z), s) := by
  have hserve : serve C L s.hosted conn .selectOne =
      some (tuplesResult ["?column?"] [[some "1"]], s.hosted) := by
    cases conn <;> rfl
  rw [checkConnection, run_PQexec_bind,
    handler_query o L (retried_of_metric (Or.inl rfl)) hserve hs, status_reply]
  -- the metrics are queried only behind a good `SELECT 1`; they do not touch the verdict
  by_cases hup : o s.table conn .selectOne 0 = .acked
  · obtain ⟨x, hx⟩ := run_queryMetric o L conn .countConnections (by simp) hs
    obtain ⟨y, hy⟩ := run_queryMetric o L conn .databaseSize (by simp) hs
    obtain ⟨z, hz⟩ := run_queryMetric o L conn .countActiveQueries (by simp) hs
    refine ⟨x, y, z, ?_⟩
    rw [if_pos hup, if_pos rfl, Prog.run_bind_of_some _ _ hx, Prog.run_bind_of_some _ _ hy,
      Prog.run_bind_of_some _ _ hz, Prog.run_pure, decide_eq_true hup]
  · refine ⟨0, 0, 0, ?_⟩
    rw [if_neg hup, if_neg (by decide), run_log_bind, Prog.run_pure, decide_eq_false hup]
    rfl

/-- Both servers answer the health check of a call. -/
def Healthy (o : Oracle) : Prop :=
  o 0 .local_ .selectOne 0 = .acked ∧ o 0 .hosted_ .selectOne 0 = .acked

instance (o : Oracle) : Decidable (Healthy o) := by
  unfold Healthy
  infer_instance

/-- The session in which a call of the manager begins. -/
abbrev newSession (H : HostedDb) : Session := { hosted := H }

/-- The health check changes nothing, and its overall verdict is that of both servers. -/
theorem run_healthCheck (H : HostedDb) :
    ∃ st : HealthStatus, st.overall = decide (Healthy o) ∧
      healthCheck.run (o.behaviour L).handler (newSession H) = (some st, newSession H) := by
  obtain ⟨x, y, z, hlocal⟩ := run_checkConnection o L .local_ (s := newSession H) rfl
  obtain ⟨x', y', z', hhosted⟩ := run_checkConnection o L .hosted_ (s := newSession H) rfl
  -- the line of the verdict leaves the session as it is
  have hline : ∀ up, ((o.behaviour L).handler (.log (verdictLine up)) (newSession H)).2 =
      newSession H := by
    intro up
    cases up with
    | true => rfl
    | false => rfl
  have hcheck := run_healthCheck_of_checks hlocal hhosted
  rw [hline] at hcheck
  exact ⟨_, (Bool.decide_and ..).symm, hcheck⟩

/-! ## Discovery -/

/-- The key lookup for a table. -/
def keyQuery (t : String) : Stmt :=
  .primaryKey (TableTracker.schemaOf t) (TableTracker.tableNameOf t)

/-- The tables that discovery tracks. -/
def discovered (C : Catalog) (o : Oracle) (config : Config) : List String :=
  if config.autoFetch ∧ o 0 .local_ .listTables 0 ≠ .acked then []
  else C.tablesToTrack config

/-- One of the lookups for `t` is acknowledged. -/
def LookedUp (C : Catalog) (o : Oracle) (config : Config) (t : String) : Prop :=
  ∃ j : Nat, (discovered C o config)[j]? = some t ∧ o 0 .local_ (keyQuery t) j = .acked

theorem firstColumn_texts (fnames names : List String) :
    TableTracker.firstColumn (some (tuplesResult fnames (names.map fun n => [some n]))) =
      names := by
  apply List.ext_getElem
  · simp [TableTracker.firstColumn, PQntuples, resultRows, tuplesResult]
  · intro n h₁ h₂
    simp [TableTracker.firstColumn, PQgetvalue, resultRows, tuplesResult, h₂]

private theorem run_listTables (config : Config) (H : HostedDb) :
    (TableTracker.listTables config).run (o.behaviour L).handler (newSession H) =
      (some (discovered C o config), newSession H) := by
  have hserve : serve C L H .local_ .listTables =
      some (tuplesResult ["table_name"] (C.publicTables.map fun n => [some n]), H) := rfl
  unfold TableTracker.listTables discovered Catalog.tablesToTrack
  -- with auto-fetch the list is asked for, otherwise the configured one is taken
  by_cases hauto : config.autoFetch = true
  · rw [if_pos hauto, run_PQexec_bind,
      handler_query o L (retried_of_metric (by simp)) hserve rfl, status_reply]
    by_cases hup : o 0 .local_ .listTables 0 = .acked
    · simp only [if_pos hup, if_true, Prog.run_pure, firstColumn_texts]
      rw [if_neg fun h => h.2 hup, if_pos hauto]
    · simp only [if_neg hup]
      rw [if_neg (by decide), run_log_bind, Prog.run_pure, if_pos ⟨hauto, hup⟩]
      rfl
  · rw [if_neg hauto, if_neg fun h => hauto h.1, if_neg hauto, Prog.run_pure]

/-- One lookup: an acknowledged one records the key columns found. -/
private theorem run_lookupPrimaryKey (keys : String → Option (List String)) (t : String)
    {s : Session} (hs : s.attempt = 0) :
    (TableTracker.lookupPrimaryKey keys t).run (o.behaviour L).handler s =
      (some (if o s.table .local_ (keyQuery t) s.lookups = .acked then
          Function.update keys t (some (C.foundKey t)) else keys),
        { s with lookups := s.lookups + 1 }) := by
  have hserve : serve C L s.hosted .local_ (keyQuery t) =
      some (tuplesResult ["column_name"] ((C.foundKey t).map fun c => [some c]), s.hosted) := rfl
  have hcount : ∀ res : Option PGresult,
      s.count (keyQuery t) res = { s with lookups := s.lookups + 1 } := by
    intro res
    simp [Session.count, keyQuery, hs]
  have hfate : (o.behaviour L).outcome s .local_ (keyQuery t) =
      o s.table .local_ (keyQuery t) s.lookups := rfl
  have hok : PQresultStatus (some (tuplesResult ["column_name"]
      ((C.foundKey t).map fun c => [some c]))) = .tuplesOk := rfl
  have hfailed : ¬ PQresultStatus (some failureResult) = .tuplesOk := by decide
  rw [TableTracker.lookupPrimaryKey, ← keyQuery, run_PQexec_bind]
  simp only [Behaviour.handler, hcount, hfate]
  cases ho : o s.table .local_ (keyQuery t) s.lookups with
  | acked =>
    have hr : respond C ((o.behaviour L).localDb s (keyQuery t)) s.hosted .local_ (keyQuery t)
        .acked = (some (tuplesResult ["column_name"] ((C.foundKey t).map fun c => [some c])),
          s.hosted) := by
      simp only [respond, Oracle.behaviour, hserve]
    rw [hr, if_pos hok, firstColumn_texts, if_pos rfl]
    -- an empty answer is recorded like any other, with a warning in the log
    cases (C.foundKey t).isEmpty with
    | true => rw [if_pos rfl, run_log_bind]; rfl
    | false => rw [if_neg Bool.false_ne_true]; rfl
  | lost =>
    rw [respond, if_neg hfailed, run_log_bind, if_neg (by decide)]
    rfl
  | unacked =>
    have hr : respond C ((o.behaviour L).localDb s (keyQuery t)) s.hosted .local_ (keyQuery t)
        .unacked = (some failureResult, s.hosted) := by
      simp only [respond, Oracle.behaviour, hserve]
    rw [hr, if_neg hfailed, run_log_bind, if_neg (by decide)]
    rfl

/-- The lookup loop: a table has the key columns found for it once one of its lookups was
    acknowledged, and what it had before otherwise. -/
private theorem run_lookupPrimaryKeys (ts : List String)
    (keys : String → Option (List String)) {s : Session} (hs : s.attempt = 0) :
    ∃ keys', (TableTracker.lookupPrimaryKeys keys ts).run (o.behaviour L).handler s =
        (some keys', { s with lookups := s.lookups + ts.length }) ∧
      ∀ t, ((∃ j, ts[j]? = some t ∧ o s.table .local_ (keyQuery t) (s.lookups + j) = .acked) ∧
          keys' t = some (C.foundKey t)) ∨
        ((¬ ∃ j, ts[j]? = some t ∧ o s.table .local_ (keyQuery t) (s.lookups + j) = .acked) ∧
          keys' t = keys t) := by
  induction ts generalizing keys s with
  | nil => exact ⟨keys, rfl, fun t => Or.inr ⟨by simp, rfl⟩⟩
  | cons t₀ ts ih =>
    obtain ⟨keys', hrun, hkeys'⟩ := ih
      (if o s.table .local_ (keyQuery t₀) s.lookups = .acked then
        Function.update keys t₀ (some (C.foundKey t₀)) else keys)
      (s := { s with lookups := s.lookups + 1 }) hs
    refine ⟨keys', ?_, fun t => ?_⟩
    · rw [TableTracker.lookupPrimaryKeys,
        Prog.run_bind_of_some _ _ (run_lookupPrimaryKey o L keys t₀ hs), hrun]
      simp [Nat.add_assoc, Nat.add_comm 1]
    · -- the lookups for `t` are the first one, when `t` is `t₀`, and those of the rest
      have hsplit : (∃ j, (t₀ :: ts)[j]? = some t ∧
          o s.table .local_ (keyQuery t) (s.lookups + j) = .acked) ↔
          (t₀ = t ∧ o s.table .local_ (keyQuery t) s.lookups = .acked) ∨
          ∃ j, ts[j]? = some t ∧
            o s.table .local_ (keyQuery t) (s.lookups + 1 + j) = .acked := by
        constructor
        · rintro ⟨j, hj, hup⟩
          cases j with
          | zero => exact Or.inl ⟨by simpa using hj, hup⟩
          | succ j =>
            refine Or.inr ⟨j, hj, ?_⟩
            rwa [show s.lookups + 1 + j = s.lookups + (j + 1) by omega]
        · rintro (⟨rfl, hup⟩ | ⟨j, hj, hup⟩)
          · exact ⟨0, rfl, hup⟩
          · refine ⟨j + 1, hj, ?_⟩
            rwa [show s.lookups + (j + 1) = s.lookups + 1 + j by omega]
      rw [hsplit]
      rcases hkeys' t with ⟨hup, hk⟩ | ⟨hdown, hk⟩
      · exact Or.inl ⟨Or.inr hup, hk⟩
      · -- no later lookup for `t` arrived: the first one decides, if it was for `t`
        by_cases hfirst : t₀ = t ∧ o s.table .local_ (keyQuery t) s.lookups = .acked
        · obtain ⟨rfl, hup⟩ := hfirst
          refine Or.inl ⟨Or.inl ⟨rfl, hup⟩, ?_⟩
          rw [hk, if_pos hup, Function.update_self]
        · refine Or.inr ⟨fun h => h.elim hfirst hdown, hk.trans ?_⟩
          by_cases hup : o s.table .local_ (keyQuery t₀) s.lookups = .acked
          · rw [if_pos hup, Function.update_of_ne]
            rintro rfl
            exact hfirst ⟨rfl, hup⟩
          · rw [if_neg hup]

/-- The tracker after discovery. -/
structure Discovers (C : Catalog) (o : Oracle) (config : Config) (tracker : TableTracker) :
    Prop where
  tables : tracker.trackedTables = discovered C o config
  found : ∀ t, LookedUp C o config t → tracker.getPrimaryKeys t = C.foundKey t
  notFound : ∀ t, ¬ LookedUp C o config t → tracker.getPrimaryKeys t = []

/-- Discovery tracks the listed tables, each with the key that its lookups found. -/
theorem run_discoverTables (config : Config) (H : HostedDb) :
    ∃ tracker, Discovers C o config tracker ∧
      (TableTracker.discoverTables config).run (o.behaviour L).handler (newSession H) =
        (some tracker,
          { newSession H with lookups := (discovered C o config).length }) := by
  obtain ⟨keys, hrun, hkeys⟩ := run_lookupPrimaryKeys o L (discovered C o config)
    (fun _ => none) (s := newSession H) rfl
  simp only [Nat.zero_add] at hrun hkeys
  refine ⟨{ trackedTables := discovered C o config, tablePrimaryKeys := keys }, ?_, ?_⟩
  · constructor
    · rfl
    · intro t hup
      rcases hkeys t with ⟨-, hk⟩ | ⟨hdown, -⟩
      · simp [TableTracker.getPrimaryKeys, hk]
      · exact absurd hup hdown
    · intro t hdown
      rcases hkeys t with ⟨hup, -⟩ | ⟨-, hk⟩
      · exact absurd hup hdown
      · simp [TableTracker.getPrimaryKeys, hk]
  · rw [TableTracker.discoverTables, Prog.run_bind_of_some _ _ (run_listTables o L config H),
      Prog.run_bind_of_some _ _ hrun, run_log_bind]
    rfl

/-! ## The call -/

/-- Writing the queued changes to the log touches neither database. -/
private theorem run_drainTo (b : Behaviour C) (q : List ChangeEvent) (s : Session) :
    (QueueHandler.drainTo q).run b.handler s = (some [], s) := by
  have hloop : ∀ (q : List ChangeEvent) (n : Nat),
      (QueueHandler.drainLoop q n).run b.handler s = (some (n + q.length), s) := by
    intro q
    induction q with
    | nil => intro n; rfl
    | cons ev q ih =>
      intro n
      rw [QueueHandler.drainLoop, run_log_bind]
      refine (ih (n + 1)).trans ?_
      rw [List.length_cons, Nat.add_assoc, Nat.add_comm 1]
  rw [QueueHandler.drainTo, Prog.run_bind_of_some _ _ (hloop q 0), run_log_bind]
  rfl

variable {o L}

/-- A call whose health check fails changes nothing. -/
theorem run_start_unhealthy (hdown : ¬ Healthy o) (m : ReplicationManager) (H : HostedDb)
    (fuel : Nat) :
    (m.start fuel).run (o.behaviour L).handler (newSession H) = (some m, newSession H) := by
  obtain ⟨st, hoverall, hhealth⟩ := run_healthCheck o L H
  rw [decide_eq_false hdown] at hoverall
  rw [ReplicationManager.start, run_log_bind]
  refine (Prog.run_bind_of_some _ _ hhealth).trans ?_
  rw [hoverall, if_pos (by decide), run_log_bind]
  rfl

/-- What a healthy call does after discovery: the copy, if it is still to be done, and
    the end of the call. -/
private theorem run_start_healthy (hup : Healthy o) (m : ReplicationManager) (H : HostedDb) :
    ∃ tracker, Discovers C o m.config tracker ∧ ∃ m' : ReplicationManager,
      m'.config = m.config ∧ m'.initialSyncDone = true ∧ ∀ fuel w,
        (if !m.initialSyncDone then initialSync fuel tracker else pure ()).run
            (o.behaviour L).handler
            { newSession H with lookups := (discovered C o m.config).length } = (some (), w) →
        (m.start fuel).run (o.behaviour L).handler (newSession H) = (some m', w) := by
  obtain ⟨st, hoverall, hhealth⟩ := run_healthCheck o L H
  rw [decide_eq_true hup] at hoverall
  obtain ⟨tracker, htracker, hdiscover⟩ := run_discoverTables o L m.config H
  refine ⟨tracker, htracker, { m with tracker, queue := [], initialSyncDone := true }, rfl, rfl,
    fun fuel w hcopy => ?_⟩
  rw [ReplicationManager.start, run_log_bind]
  refine (Prog.run_bind_of_some _ _ hhealth).trans ?_
  rw [hoverall, if_neg (by decide), Prog.run_bind_of_some _ _ hdiscover]
  -- both branches of the test continue with the same end of the call
  have hjoin : ∀ f : Unit → Code ReplicationManager,
      (if !m.initialSyncDone then initialSync fuel tracker >>= f else f ()) =
        (if !m.initialSyncDone then initialSync fuel tracker else pure ()) >>= f := by
    intro f
    cases m.initialSyncDone <;> rfl
  refine (congrArg (fun p => Prog.run _ p _) (hjoin _)).trans ?_
  refine (Prog.run_bind_of_some _ _ hcopy).trans ?_
  rw [Prog.run_bind_of_some _ _ (run_drainTo _ _ w), Prog.run_pure]

/-- A call after the copy is recorded as done sends no INSERT. -/
theorem run_start_done (hup : Healthy o) {m : ReplicationManager}
    (hdone : m.initialSyncDone = true) (H : HostedDb) :
    ∃ (m' : ReplicationManager) (w : Session), m'.initialSyncDone = true ∧ w.hosted = H ∧
      Prog.Finishes (o.behaviour L).handler (fun fuel => m.start fuel) (newSession H) m' w := by
  obtain ⟨tracker, -, m', -, hdone', hrun⟩ := run_start_healthy (L := L) hup m H
  refine ⟨m', { newSession H with lookups := (discovered C o m.config).length }, hdone', rfl,
    Filter.Eventually.of_forall fun fuel => hrun fuel _ ?_⟩
  rw [hdone]
  rfl

/-- The first healthy call copies row `r` of `t`: the key of `t` is found, and an
    occurrence of `t` in the discovered list copies `r`. -/
def StartCopies (o : Oracle) (L : LocalDb C.table) (config : Config) (t : String)
    (r : Row) : Prop :=
  LookedUp C o config t ∧ C.foundKey t ≠ [] ∧
    ∃ i : Nat, (discovered C o config)[i]? = some t ∧ ∃ p b, CopiedAt C o L t r i p b

theorem foundKey_sound (C : Catalog) (t : String) :
    C.foundKey t = [] ∨ C.foundKey t = (C.table t).primaryKey := C.keyColumns_sound t

/-- **The first healthy call** records the copy as done, whatever the copy achieved. -/
theorem run_start_copies (hup : Healthy o) {m : ReplicationManager}
    (hdone : m.initialSyncDone = false) (H : HostedDb) :
    ∃ (m' : ReplicationManager) (w : Session), m'.initialSyncDone = true ∧
      Prog.Finishes (o.behaviour L).handler (fun fuel => m.start fuel) (newSession H) m' w ∧
      ∀ t k r, w.hosted t k = some r ↔ H t k = some r ∨
        (H t k = none ∧ (C.table t).keyOf r = k ∧ StartCopies o L m.config t r) := by
  obtain ⟨tracker, htracker, m', -, hdone', hrun⟩ := run_start_healthy (L := L) hup m H
  -- a key that is recorded came from a lookup, and lookups find true keys
  have hkeys : ∀ t, tracker.getPrimaryKeys t ≠ [] →
      tracker.getPrimaryKeys t = (C.table t).primaryKey := by
    intro t hne
    by_cases hlooked : LookedUp C o m.config t
    · rw [htracker.found t hlooked] at hne ⊢
      exact (foundKey_sound C t).resolve_left hne
    · exact absurd (htracker.notFound t hlooked) hne
  have hcopy := run_initialSync (b := o.behaviour L) (E := oracleTransfers o L) tracker
    (s := { newSession H with lookups := (discovered C o m.config).length })
    (fun t _ hne => ⟨hkeys t hne, oracleTransfers_realizes o L t⟩) rfl
  -- what the copy copies, in terms of the outcomes of the call
  have hcopied : ∀ t r, Copied o L tracker t r ↔ StartCopies o L m.config t r := by
    intro t r
    rw [Copied, StartCopies, htracker.tables]
    by_cases hlooked : LookedUp C o m.config t
    · rw [htracker.found t hlooked]
      constructor
      · rintro ⟨i, hi, hne, hat⟩
        exact ⟨hlooked, hne, i, hi, hat⟩
      · rintro ⟨-, hne, i, hi, hat⟩
        exact ⟨i, hi, hne, hat⟩
    · rw [htracker.notFound t hlooked]
      constructor
      · rintro ⟨i, -, hne, -⟩
        exact absurd rfl hne
      · rintro ⟨h, -⟩
        exact absurd h hlooked
  have hpending : ∀ fuel, (if !m.initialSyncDone then initialSync fuel tracker else pure ()) =
      initialSync fuel tracker := by
    intro fuel
    rw [hdone]
    rfl
  refine ⟨m', _, hdone',
    hcopy.mono fun fuel hfuel => hrun fuel _ (by rw [hpending]; exact hfuel),
    fun t k r => ?_⟩
  rw [← hcopied]
  exact copyTables_eq_some (fun _ hpk => hkeys t hpk ▸ hpk) H k r

end SyncLayer.Copy
