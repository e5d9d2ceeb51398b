import SyncLayer.Copy.FailureFree
import SyncLayer.Copy.Interleavings
import SyncLayer.Copy.Paging

/-!
# Crash and Restart

A copy that is interrupted at any point leaves a hosted database between what it found
and what a full copy would have made of it. A full copy absorbs every such state
(`overlay_absorb`), so after any number of interrupted copies it ends where a single
undisturbed copy would have ended (`recovery_converges`).
-/

namespace SyncLayer.Copy

open SyncLayer.Interaction SyncLayer.Model SyncLayer.Database SyncLayer.Chunks
open SyncLayer.PartialMap Relation

variable {C : Catalog}

/-- A copy, started on the hosted database `H` with the flag lost, is cut off at some point
    of its run and leaves `H'`. Its statements fare in any way; nobody changes the local
    database. -/
def Interrupted (L : LocalDb C.table) (tracker : TableTracker) (H H' : HostedDb) : Prop :=
  ∃ fuel p, ReflTransGen (databases C fun _ _ => False).Step
    (initialSync fuel tracker, { hosted := H, localDb := L }) (p, { hosted := H', localDb := L })

/-- What the local database has to offer for the hosted table `t`. -/
def offered (L : LocalDb C.table) (tracker : TableTracker) (t : String) : Key → Option Row :=
  if t ∈ tracker.trackedTables ∧ tracker.getPrimaryKeys t ≠ [] then
    firstWith (C.table t).keyOf (L t).rows
  else fun _ => none

variable {L : LocalDb C.table} {tracker : TableTracker}

theorem offered_eq_some (hkeys : KnowsKeys C tracker) {t : String} {k : Key} {r : Row} :
    offered L tracker t k = some r ↔
      (t ∈ tracker.trackedTables ∧ tracker.getPrimaryKeys t ≠ []) ∧ r ∈ (L t).rows ∧
        (C.table t).keyOf r = k := by
  unfold offered
  by_cases ht : t ∈ tracker.trackedTables ∧ tracker.getPrimaryKeys t ≠ []
  · rw [if_pos ht, and_iff_right ht]
    refine ⟨firstWith_eq_some, ?_⟩
    rintro ⟨hr, rfl⟩
    exact firstWith_of_mem ((L t).key_injective (hkeys.primaryKey_ne_nil ht.1 ht.2)) hr
  · rw [if_neg ht]
    simp [ht]

/-- Without failures the rows of the tracked tables with keys are copied. -/
private theorem copied_allAcked {t : String} {r : Row}
    (hrows : t ∈ tracker.trackedTables → (L t).rows.length ≤ maxRows) :
    Copied Oracle.allAcked L tracker t r ↔
      (t ∈ tracker.trackedTables ∧ tracker.getPrimaryKeys t ≠ []) ∧ r ∈ (L t).rows := by
  constructor
  · rintro ⟨i, hi, hpk, p, b, hat⟩
    exact ⟨⟨List.mem_of_getElem? hi, hpk⟩, hat.mem_rows⟩
  · rintro ⟨⟨ht, hpk⟩, hr⟩
    obtain ⟨i, hi⟩ := List.mem_iff_getElem?.1 ht
    exact ⟨i, hi, hpk, (copiedAt_allAcked (hrows ht) i).2 hr⟩

/-- A copy without failures lays the local rows under the hosted ones. -/
theorem copyTables_allAcked (hkeys : KnowsKeys C tracker)
    (hrows : ∀ t ∈ tracker.trackedTables, (L t).rows.length ≤ maxRows) (H : HostedDb)
    (t : String) :
    (oracleTransfers Oracle.allAcked L).copyTables tracker 0 tracker.trackedTables H t =
      overlay (H t) (offered L tracker t) := by
  funext k
  apply Option.ext
  intro r
  rw [copyTables_eq_some (fun ht hpk => hkeys.primaryKey_ne_nil ht hpk), overlay_eq_some,
    offered_eq_some hkeys, copied_allAcked (hrows t), and_assoc,
    and_comm (a := (C.table t).keyOf r = k)]
  simp only [and_assoc]

/-! ## Interrupted copies -/

/-- Between `H` and what a full copy makes of it. -/
def Between (L : LocalDb C.table) (tracker : TableTracker) (H H' : HostedDb) : Prop :=
  ∀ t, Extends (H t) (H' t) ∧ Extends (H' t) (overlay (H t) (offered L tracker t))

/-- An interrupted copy leaves a database in between. -/
theorem between_of_interrupted (hkeys : KnowsKeys C tracker) {H H' : HostedDb}
    (h : Interrupted L tracker H H') : Between L tracker H H' := by
  obtain ⟨fuel, p, hrun⟩ := h
  -- nobody changes the local database, so its rows are the only versions
  have hchanges : ∀ L₁ L₂ : LocalDb C.table, False →
      Within C (fun t => { r | r ∈ (L t).rows }) L₁ L₂ := fun _ _ h => h.elim
  have hinit : Safe (C := C) H (fun t => { r | r ∈ (L t).rows })
      { t | t ∈ tracker.trackedTables ∧ tracker.getPrimaryKeys t ≠ [] }
      { hosted := H, localDb := L } := by
    constructor
    · exact fun t r hr => hr
    · exact fun t => Extends.refl _
    · exact fun t k r hr => Or.inl hr
  have htables : ∀ t ∈ tracker.trackedTables, tracker.getPrimaryKeys t ≠ [] →
      t ∈ { t | t ∈ tracker.trackedTables ∧ tracker.getPrimaryKeys t ≠ [] } :=
    fun t ht hpk => ⟨ht, hpk⟩
  have hwp := spec_initialSync hchanges fuel htables _ hinit trivial
  have hsafe := Prog.wp_now (Prog.wp_reach hrun hwp)
  intro t
  refine ⟨hsafe.kept t, fun k r hr => ?_⟩
  rw [overlay_eq_some, offered_eq_some hkeys]
  rcases hsafe.gained t k r hr with hold | ⟨ht, hmem, hkey⟩
  · exact Or.inl hold
  · -- a gained row lies under a key that was free, or it was there before
    cases hH : H t k with
    | none => exact Or.inr ⟨rfl, ht, hmem, hkey⟩
    | some r' =>
      have hkept := hsafe.kept t k r' hH
      exact Or.inl (hkept.symm.trans hr)

theorem Between.refl (L : LocalDb C.table) (tracker : TableTracker) (H : HostedDb) :
    Between L tracker H H := fun _ => ⟨Extends.refl _, extends_overlay _ _⟩

/-- The databases in between absorb a further step. -/
theorem Between.trans {H H' H'' : HostedDb} (h : Between L tracker H H')
    (h' : Between L tracker H' H'') : Between L tracker H H'' := by
  intro t
  obtain ⟨hext, hle⟩ := h t
  obtain ⟨hext', hle'⟩ := h' t
  rw [overlay_absorb hext hle] at hle'
  exact ⟨hext.trans hext', hle'⟩

/-- So does any number of interrupted copies. -/
theorem between_of_interruptions (hkeys : KnowsKeys C tracker) {H H' : HostedDb}
    (h : ReflTransGen (Interrupted L tracker) H H') : Between L tracker H H' := by
  induction h with
  | refl => exact Between.refl L tracker H
  | tail _ hlast ih => exact ih.trans (between_of_interrupted hkeys hlast)

/-! ## Convergence -/

/-- The same tables, in any order and any number of times, with the same keys. -/
def SameTables (tracker tracker' : TableTracker) : Prop :=
  (∀ t, t ∈ tracker'.trackedTables ↔ t ∈ tracker.trackedTables) ∧
    tracker'.tablePrimaryKeys = tracker.tablePrimaryKeys

theorem SameTables.getPrimaryKeys {tracker' : TableTracker} (h : SameTables tracker tracker')
    (t : String) : tracker'.getPrimaryKeys t = tracker.getPrimaryKeys t := by
  rw [TableTracker.getPrimaryKeys, h.2]
  rfl

/-- **Crash and restart convergence**: after any interrupted copies a copy in which every
    statement succeeds leaves the hosted database as one undisturbed copy does, however
    often the tables are listed. -/
theorem recovery_converges (L : LocalDb C.table) (tracker : TableTracker) (H : HostedDb)
    (hkeys : KnowsKeys C tracker)
    (hrows : ∀ t ∈ tracker.trackedTables, (L t).rows.length ≤ maxRows) :
    ∃ w : Session,
      Prog.Finishes (Oracle.allAcked.behaviour L).handler
        (fun fuel => initialSync fuel tracker) { hosted := H } () w ∧
      ∀ H' tracker', ReflTransGen (Interrupted L tracker) H H' → SameTables tracker tracker' →
        ∃ w' : Session,
          Prog.Finishes (Oracle.allAcked.behaviour L).handler
            (fun fuel => initialSync fuel tracker') { hosted := H' } () w' ∧
          w'.hosted = w.hosted := by
  refine ⟨_, run_initialSync_oracle _ L hkeys H, fun H' tracker' hinterrupted hsame => ?_⟩
  -- the other list has the same tables with the same keys
  have hkeys' : KnowsKeys C tracker' := by
    intro t ht
    rw [hsame.getPrimaryKeys]
    exact hkeys t ((hsame.1 t).1 ht)
  have hoffered : ∀ t, offered L tracker' t = offered L tracker t := by
    intro t
    simp only [offered, hsame.1, hsame.getPrimaryKeys]
  refine ⟨_, run_initialSync_oracle _ L hkeys' H', ?_⟩
  funext t
  obtain ⟨hext, hle⟩ := between_of_interruptions hkeys hinterrupted t
  calc (oracleTransfers Oracle.allAcked L).copyTables tracker' 0 tracker'.trackedTables H' t
      = overlay (H' t) (offered L tracker' t) :=
        copyTables_allAcked hkeys' (fun t ht => hrows t ((hsame.1 t).1 ht)) H' t
    _ = overlay (H t) (offered L tracker t) := by rw [hoffered, overlay_absorb hext hle]
    _ = (oracleTransfers Oracle.allAcked L).copyTables tracker 0 tracker.trackedTables H t :=
        (copyTables_allAcked hkeys hrows H t).symm

/-! ## A copy that is cut off -/

/-- The two databases in a session over an unchanging local one. -/
def databasesOf (L : LocalDb C.table) (s : Session) : Databases C :=
  { hosted := s.hosted, localDb := L }

theorem step_databasesOf (o : Oracle) (L : LocalDb C.table) (s : Session) (e : Call) :
    (databases C fun _ _ => False).step (databasesOf L s) e ((o.behaviour L).handler e s).1
      (databasesOf L ((o.behaviour L).handler e s).2) := by
  cases e with
  | pqexec conn query => exact ⟨_, rfl, rfl⟩
  | pqescapeLiteral text => exact ⟨rfl, rfl⟩
  | sleepFor milliseconds => rfl
  | log line =>
    show databasesOf L (s.observe line) = databasesOf L s
    cases line <;> rfl

/-- The page loop may be cut off when its first batch is stored. -/
private theorem visits_first_batch {t : String} (hne : (L t).rows ≠ []) (H : HostedDb) :
    (databases C fun _ _ => False).Visits (pageLoop t (C.table t).primaryKey 1 0 0)
      (databasesOf L { hosted := H })
      (databasesOf L { hosted := insertRows (C.table t) t ((L t).rows.take batchSize) H }) := by
  have hstep := step_databasesOf Oracle.allAcked L
  have hpage : pageOf (L t).rows 0 ≠ [] := by simpa [pageOf] using hne
  have hbatch : (pageOf (L t).rows 0).take batchSize = (L t).rows.take batchSize := by
    rw [pageOf, Nat.mul_zero, List.drop_zero, List.take_take]
    rfl
  have hwidth : ∀ r ∈ (L t).rows.take batchSize, r.length = (C.table t).columns.length :=
    fun r hr => (L t).width r (List.mem_of_mem_take hr)
  have hr := respond_pageQuery (L := L) (H := H) (t := t) (p := 0) (by decide)
  have hread := run_executeWithRetry_first (Oracle.allAcked.behaviour L) (s := { hosted := H })
    (retried_selectPage _ _ _ _) (Or.inr rfl) hr
  have hsend := run_sendChunk_acked (Oracle.allAcked.behaviour L) (s := { hosted := H }) hwidth
    rfl rfl
  have hlen : PQntuples (some (tuplesResult (C.table t).columns (pageOf (L t).rows 0))) ≠ 0 :=
    fun h => hpage (List.length_eq_zero_iff.1 h)
  -- the page arrives, and then the first of its batches is sent
  rw [pageLoop]
  apply World.visits_bind (databasesOf L) hstep hread
  rw [if_neg (by simp [PQresultStatus, tuplesResult])]
  dsimp only
  rw [if_neg hlen, rowLoop_eq_sendChunks]
  simp only [resultRows, resultFields, tuplesResult]
  rw [chunks_of_ne_nil (by decide) hpage, List.forM_cons, hbatch]
  exact (World.visits_of_run (databasesOf L) hstep hsend).bind.bind

/-- The copy may be cut off when the first batch of its first table is stored. -/
theorem interrupted_first_batch {t : String} {ts : List String}
    (htables : tracker.trackedTables = t :: ts) (hpk : (C.table t).primaryKey ≠ [])
    (hkey : tracker.getPrimaryKeys t = (C.table t).primaryKey) (hne : (L t).rows ≠ [])
    (H : HostedDb) :
    Interrupted L tracker H (insertRows (C.table t) t ((L t).rows.take batchSize) H) := by
  have hstep := step_databasesOf Oracle.allAcked L
  have hlog : ∀ line, (log line).run (Oracle.allAcked.behaviour L).handler { hosted := H } =
      (some (), Session.observe { hosted := H } line) := fun line => rfl
  have hempty : ¬ (C.table t).primaryKey.isEmpty = true := by simpa using hpk
  -- two log lines stand before the page loop
  have hvisits : (databases C fun _ _ => False).Visits (initialSync 1 tracker)
      (databasesOf L { hosted := H })
      (databasesOf L { hosted := insertRows (C.table t) t ((L t).rows.take batchSize) H }) := by
    rw [initialSync, TableTracker.getTrackedTables, htables]
    apply World.visits_bind (databasesOf L) hstep (hlog _)
    rw [List.forM_cons, syncTable, hkey, if_neg hempty, bind_assoc, bind_assoc]
    apply World.visits_bind (databasesOf L) hstep (hlog _)
    exact (visits_first_batch hne H).bind.bind
  exact ⟨1, hvisits⟩

/-- A table with a second batch. -/
def manyNodes : LocalDb (nodeCatalog ["nodes"]).table :=
  nodesIn ["nodes"] "public.nodes" (letterNodes 0 150)

theorem length_manyNodes (t : String) : (manyNodes t).rows.length ≤ maxRows := by
  by_cases ht : t = "public.nodes"
  · simp [manyNodes, nodesIn, ht, letterNodes, maxRows]
  · simp [manyNodes, nodesIn, ht, TableState.empty]

/-- The hosted nodes when the first batch is stored. -/
def firstBatch : HostedDb :=
  insertRows nodeTable "public.nodes" ((manyNodes "public.nodes").rows.take batchSize)
    HostedDb.empty

theorem firstBatch_eq_some {i : Nat} {r : Row} (hi : i < 150) :
    firstBatch "public.nodes" (nodeTable.keyOf (letterNode i)) = some r ↔
      r = letterNode i ∧ i < 100 := by
  have hkeys := (letterNodes 0 150).key_injective (by decide)
  have hbatch : (letterNodes 0 150).rows.take batchSize = (List.range' 0 100).map letterNode := by
    rw [letterNodes, ← List.map_take]
    rfl
  have hmem : ∀ j, letterNode j ∈ (letterNodes 0 150).rows.take batchSize ↔ j < 100 := by
    intro j
    rw [hbatch, List.mem_map_of_injective letterNode_injective, List.mem_range'_1]
    omega
  have hnode : letterNode i ∈ (letterNodes 0 150).rows :=
    List.mem_map_of_mem (List.mem_range'_1.2 (by omega))
  show insertRows nodeTable "public.nodes" ((letterNodes 0 150).rows.take batchSize)
    HostedDb.empty "public.nodes" _ = some r ↔ _
  rw [insertRows_same, insertAll_eq_some fun a ha b hb =>
    hkeys a (List.mem_of_mem_take ha) b (List.mem_of_mem_take hb)]
  constructor
  · rintro (hold | ⟨-, hr, hkey⟩)
    · cases hold
    · obtain rfl := hkeys r (List.mem_of_mem_take hr) _ hnode hkey
      exact ⟨rfl, (hmem i).1 hr⟩
  · rintro ⟨rfl, hlt⟩
    exact Or.inr ⟨rfl, (hmem i).2 hlt, rfl⟩

/-- Cut off behind the first batch, the copy has stored node 99 and not node 100. The next
    copy, which lists the table twice, makes good for that. -/
theorem recovery_converges_nodes :
    Interrupted manyNodes nodeTracker HostedDb.empty firstBatch ∧
      firstBatch "public.nodes" (nodeTable.keyOf (letterNode 99)) = some (letterNode 99) ∧
      firstBatch "public.nodes" (nodeTable.keyOf (letterNode 100)) = none ∧
      ∃ w w' : Session,
        Prog.Finishes (Oracle.allAcked.behaviour manyNodes).handler
          (fun fuel => initialSync fuel nodeTracker) { hosted := HostedDb.empty } () w ∧
        Prog.Finishes (Oracle.allAcked.behaviour manyNodes).handler
          (fun fuel => initialSync fuel
            { nodeTracker with trackedTables := ["public.nodes", "public.nodes"] })
          { hosted := firstBatch } () w' ∧
        w'.hosted = w.hosted := by
  have hcut : Interrupted manyNodes nodeTracker HostedDb.empty firstBatch :=
    interrupted_first_batch (t := "public.nodes") rfl (by decide) rfl
      (by simp [manyNodes, nodesIn, letterNodes]) HostedDb.empty
  obtain ⟨w, hrun, hall⟩ := recovery_converges manyNodes nodeTracker HostedDb.empty
    (fun _ _ => Or.inr rfl) fun t _ => length_manyNodes t
  obtain ⟨w', hrun', heq⟩ := hall firstBatch
    { nodeTracker with trackedTables := ["public.nodes", "public.nodes"] } (.single hcut)
    ⟨by simp [nodeTracker], rfl⟩
  refine ⟨hcut, (firstBatch_eq_some (by decide)).2 ⟨rfl, by decide⟩, ?_, w, w', hrun, hrun', heq⟩
  rw [Option.eq_none_iff_forall_ne_some]
  intro r hr
  exact absurd ((firstBatch_eq_some (by decide)).1 hr).2 (by decide)

end SyncLayer.Copy
