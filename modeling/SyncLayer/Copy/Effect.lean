import SyncLayer.Copy.Transfers

/-!
# The Exact Effect of the Initial Copy

Where a batch is either inserted as it is or not at all, the fold of the transfers is
one insertion: every hosted table receives the rows that were sent for it, in the order
of the tracked list (`copyTables_eq_insertAll`).

Against an oracle for the attempts this gives the effect of `initialSync` exactly
(`initialSync_effect`): the hosted rows stay, and a local row is added when its key is
free and some occurrence of its table copied it (`Copied`).
-/

namespace SyncLayer.Copy

open SyncLayer.Interaction SyncLayer.Model SyncLayer.Database SyncLayer.Chunks
open SyncLayer.PartialMap

variable {C : Catalog}

/-! ## Batches that are inserted or dropped -/

namespace Transfers

/-- Of every batch the rows that `kept` leaves are inserted. -/
def Inserts (C : Catalog) (E : Transfers) (kept : Nat → String → List Row → List Row) : Prop :=
  ∀ i t rows H, E.store i t rows H = insertRows (C.table t) t (kept i t rows) H

/-- The rows inserted into `t` while the tables from place `i` on are copied. -/
def sent (E : Transfers) (kept : Nat → String → List Row → List Row) (tracker : TableTracker)
    (t : String) : (i : Nat) → List String → List Row
  | _, [] => []
  | i, t' :: ts =>
    (if t' = t ∧ tracker.getPrimaryKeys t ≠ [] then (E.batches i t).flatMap (kept i t) else []) ++
      sent E kept tracker t (i + 1) ts

variable {E : Transfers} {kept : Nat → String → List Row → List Row} {tracker : TableTracker}
  {t : String}

theorem mem_sent {r : Row} {ts : List String} {i : Nat} :
    r ∈ E.sent kept tracker t i ts ↔ ∃ j, ts[j]? = some t ∧ tracker.getPrimaryKeys t ≠ [] ∧
      ∃ rows ∈ E.batches (i + j) t, r ∈ kept (i + j) t rows := by
  induction ts generalizing i with
  | nil => simp [sent]
  | cons t' ts ih =>
    rw [sent, List.mem_append, ih]
    constructor
    · rintro (h | ⟨j, hj, hpk, hr⟩)
      · -- sent for the head of the list, if it is `t`
        by_cases hhead : t' = t ∧ tracker.getPrimaryKeys t ≠ []
        · rw [if_pos hhead] at h
          obtain ⟨rfl, hpk⟩ := hhead
          exact ⟨0, rfl, hpk, List.mem_flatMap.1 h⟩
        · rw [if_neg hhead] at h
          cases h
      · -- sent for the rest, whose places are shifted by one
        refine ⟨j + 1, hj, hpk, ?_⟩
        rwa [show i + (j + 1) = i + 1 + j by omega]
    · rintro ⟨j, hj, hpk, hr⟩
      cases j with
      | zero =>
        obtain rfl : t' = t := by simpa using hj
        rw [if_pos ⟨rfl, hpk⟩]
        exact Or.inl (List.mem_flatMap.2 hr)
      | succ j =>
        refine Or.inr ⟨j, hj, hpk, ?_⟩
        rwa [show i + 1 + j = i + (j + 1) by omega]

theorem storeAll_eq_insertRows (h : E.Inserts C kept) (i : Nat) (t : String)
    (bs : List (List Row)) (H : HostedDb) :
    E.storeAll i t bs H = insertRows (C.table t) t (bs.flatMap (kept i t)) H := by
  unfold storeAll
  induction bs generalizing H with
  | nil => rw [List.flatMap_nil, insertRows_nil]; rfl
  | cons rows bs ih => rw [List.foldl_cons, ih, h, List.flatMap_cons, insertRows_append]

/-- **The tables are filled independently**: each receives what was sent for it. -/
theorem copyTables_eq_insertAll (h : E.Inserts C kept) (ts : List String) (i : Nat)
    (H : HostedDb) (t : String) :
    E.copyTables tracker i ts H t =
      insertAll (C.table t).keyOf (H t) (E.sent kept tracker t i ts) := by
  induction ts generalizing i H with
  | nil => rfl
  | cons t' ts ih =>
    rw [copyTables, ih, sent, insertAll_append]
    congr 1
    by_cases hpk : tracker.getPrimaryKeys t' = []
    · -- the head is skipped
      have hno : ¬ (t' = t ∧ tracker.getPrimaryKeys t ≠ []) := by
        rintro ⟨rfl, hne⟩
        exact hne hpk
      rw [if_pos (by simp [hpk]), if_neg hno, insertAll_nil]
    · rw [if_neg (by simpa using hpk), copyTable, storeAll_eq_insertRows h]
      -- the batches of the head arrive in its own table, in no other
      by_cases ht : t' = t
      · subst ht
        rw [insertRows_same, if_pos ⟨rfl, hpk⟩]
      · rw [insertRows_other (Ne.symm ht), if_neg fun h => ht h.1, insertAll_nil]

end Transfers

/-! ## Pages and batches of a table -/

/-- Page `p` of a listing. -/
def pageOf (rows : List Row) (p : Nat) : List Row := (rows.drop (1000 * p)).take 1000

/-- Batch `b` of a page. -/
def batchOf (page : List Row) (b : Nat) : List Row := (page.drop (100 * b)).take 100

theorem mem_of_mem_pageOf {rows : List Row} {p : Nat} {r : Row} (h : r ∈ pageOf rows p) :
    r ∈ rows := List.mem_of_mem_drop (List.mem_of_mem_take h)

theorem mem_of_mem_batchOf {page : List Row} {b : Nat} {r : Row} (h : r ∈ batchOf page b) :
    r ∈ page := List.mem_of_mem_drop (List.mem_of_mem_take h)

/-- Pages before one with rows have rows. -/
theorem pageOf_ne_nil_of_le {rows : List Row} {p q : Nat} (hq : q ≤ p)
    (h : pageOf rows p ≠ []) : pageOf rows q ≠ [] := by
  have hlen : ∀ p, pageOf rows p ≠ [] ↔ 1000 * p < rows.length := by
    intro p
    simp [pageOf]
  rw [hlen] at h ⊢
  omega

theorem offset_lt {p : Nat} (hp : p < maxPages) : 1000 * p < 2 ^ 31 := by
  unfold maxPages at hp
  omega

/-- The OFFSET of a page in range is what it was computed as. -/
theorem toInt_offset {p : Nat} (hp : p < maxPages) :
    (Int32.ofNat (1000 * p)).toInt = (1000 * p : Nat) :=
  Int32.toInt_ofNat_of_lt (offset_lt hp)

/-- What the SELECT of a page returns. -/
theorem serve_pageQuery {L : LocalDb C.table} {H : HostedDb} {t : String} {p : Nat}
    (hp : p < maxPages) :
    serve C L H .local_ (pageQuery C t p) =
      some (tuplesResult (C.table t).columns (pageOf (L t).rows p), H) := by
  have hlimit : pageSize.toInt.toNat = 1000 := by decide
  rw [pageQuery, serve, toInt_offset hp, if_pos ⟨Int.natCast_nonneg _, rfl⟩, hlimit,
    Int.toNat_natCast]
  rfl

theorem respond_pageQuery {L : LocalDb C.table} {H : HostedDb} {t : String} {p : Nat}
    (hp : p < maxPages) :
    respond C L H .local_ (pageQuery C t p) .acked =
      (some (tuplesResult (C.table t).columns (pageOf (L t).rows p)), H) := by
  simp only [respond, serve_pageQuery hp]

/-! ## The transfers of an oracle -/

/-- Page `p` is read within three attempts. -/
def PageRead (C : Catalog) (o : Oracle) (i : Nat) (t : String) (p : Nat) : Prop :=
  1000 * p < 2 ^ 31 ∧ ∃ a < 3, o i .local_ (pageQuery C t p) a = .acked

/-- One of the up to three attempts at a batch is committed. -/
def BatchStored (C : Catalog) (o : Oracle) (i : Nat) (t : String) (rows : List Row) : Prop :=
  ∃ a < 3, o i .hosted_ (batchInsert C t rows) a ≠ .lost

instance (o : Oracle) (i : Nat) (t : String) (p : Nat) : Decidable (PageRead C o i t p) := by
  unfold PageRead
  infer_instance

instance (o : Oracle) (i : Nat) (t : String) (rows : List Row) :
    Decidable (BatchStored C o i t rows) := by
  unfold BatchStored
  infer_instance

/-- The rows of a batch that reach the hosted database. -/
def keptBatch (C : Catalog) (o : Oracle) (i : Nat) (t : String) (rows : List Row) : List Row :=
  if BatchStored C o i t rows then rows else []

theorem mem_keptBatch {o : Oracle} {i : Nat} {t : String} {rows : List Row} {r : Row} :
    r ∈ keptBatch C o i t rows ↔ BatchStored C o i t rows ∧ r ∈ rows := by
  by_cases h : BatchStored C o i t rows <;> simp [keptBatch, h]

/-- What the statements achieve when attempts fare as an oracle says. -/
def oracleTransfers (o : Oracle) (L : LocalDb C.table) : Transfers where
  read i t p := if PageRead C o i t p then some (pageOf (L t).rows p) else none
  store i t rows H := insertRows (C.table t) t (keptBatch C o i t rows) H

theorem oracleTransfers_inserts (o : Oracle) (L : LocalDb C.table) :
    (oracleTransfers o L).Inserts C (keptBatch C o) := fun _ _ _ _ => rfl

theorem oracleTransfers_realizes (o : Oracle) (L : LocalDb C.table) (t : String) :
    Realizes (o.behaviour L) (oracleTransfers o L) t where
  width i p rows hread r hr := by
    simp only [oracleTransfers, Option.ite_none_right_eq_some, Option.some.injEq] at hread
    obtain ⟨-, rfl⟩ := hread
    exact (L t).width r (mem_of_mem_pageOf hr)
  run_read p hp s hs := by
    -- a SELECT has no effect, so repeating it is harmless
    have hserves : Serves C L .local_ (pageQuery C t p)
        (tuplesResult (C.table t).columns (pageOf (L t).rows p)) id :=
      { retried := retried_selectPage _ _ _ _
        serve_eq := fun H => serve_pageQuery hp
        status := Or.inr rfl
        idem := fun _ => rfl }
    rw [run_executeWithRetry o hserves hs]
    -- a page is only of use when its result arrives
    have hiff : ackedFrom (o s.table .local_ (pageQuery C t p)) 0 3 = true ↔
        PageRead C o s.table t p := by
      rw [ackedFrom_iff, PageRead]
      exact (and_iff_right (offset_lt hp)).symm
    by_cases hread : PageRead C o s.table t p
    · simp [oracleTransfers, hread, hiff.2 hread]
    · simp [oracleTransfers, hread, mt hiff.1 hread]
  run_store rows hw s hs := by
    rw [run_sendChunk o t hw hs]
    -- a batch counts as soon as one attempt is executed
    have hiff : committedFrom (o s.table .hosted_ (batchInsert C t rows)) 0 3 = true ↔
        BatchStored C o s.table t rows := committedFrom_iff
    by_cases hstored : BatchStored C o s.table t rows
    · simp [oracleTransfers, keptBatch, hstored, hiff.2 hstored]
    · simp [oracleTransfers, keptBatch, hstored, mt hiff.1 hstored, insertRows_nil]

/-! ## The rows that are copied -/

/-- Row `r` of table `t` lies in batch `b` of page `p`, the pages up to `p` are read and
    the batch is committed, while the occurrence of `t` at place `i` is copied. -/
structure CopiedAt (C : Catalog) (o : Oracle) (L : LocalDb C.table) (t : String) (r : Row)
    (i p b : Nat) : Prop where
  pages : ∀ q ≤ p, PageRead C o i t q
  stored : BatchStored C o i t (batchOf (pageOf (L t).rows p) b)
  mem : r ∈ batchOf (pageOf (L t).rows p) b

/-- Some occurrence of `t` in the tracked list, which has key columns, copies `r`. -/
def Copied (o : Oracle) (L : LocalDb C.table) (tracker : TableTracker) (t : String)
    (r : Row) : Prop :=
  ∃ i, tracker.trackedTables[i]? = some t ∧ tracker.getPrimaryKeys t ≠ [] ∧
    ∃ p b, CopiedAt C o L t r i p b

variable {o : Oracle} {L : LocalDb C.table} {tracker : TableTracker} {t : String} {r : Row}

theorem CopiedAt.mem_rows {i p b : Nat} (h : CopiedAt C o L t r i p b) : r ∈ (L t).rows :=
  mem_of_mem_pageOf (mem_of_mem_batchOf h.mem)

/-- The rows that one occurrence sends with effect. -/
private theorem mem_kept_batches (o : Oracle) (L : LocalDb C.table) (t : String) (i : Nat)
    (r : Row) :
    (∃ rows ∈ (oracleTransfers o L).batches i t, r ∈ keptBatch C o i t rows) ↔
      ∃ p b, CopiedAt C o L t r i p b := by
  constructor
  · rintro ⟨rows, hrows, hr⟩
    obtain ⟨page, hpage, hchunk⟩ := List.mem_flatMap.1 hrows
    obtain ⟨p, -, hread, hne, hbefore⟩ := mem_pagesFrom.1 hpage
    simp only [Nat.zero_add] at hread hbefore
    simp only [oracleTransfers, Option.ite_none_right_eq_some, Option.some.injEq] at hread
    obtain ⟨hread, rfl⟩ := hread
    obtain ⟨b, rfl, -⟩ := (mem_chunks (by decide)).1 hchunk
    obtain ⟨hstored, hmem⟩ := mem_keptBatch.1 hr
    refine ⟨p, b, ?_, hstored, hmem⟩
    intro q hq
    -- the pages before `p` were read, or the loop would not have reached it
    rcases Nat.lt_or_eq_of_le hq with hlt | rfl
    · obtain ⟨page', hpage', -⟩ := hbefore q hlt
      simp only [oracleTransfers, Option.ite_none_right_eq_some] at hpage'
      exact hpage'.1
    · exact hread
  · rintro ⟨p, b, h⟩
    have hne : pageOf (L t).rows p ≠ [] := List.ne_nil_of_mem (mem_of_mem_batchOf h.mem)
    refine ⟨batchOf (pageOf (L t).rows p) b, List.mem_flatMap.2
      ⟨pageOf (L t).rows p, mem_pagesFrom.2 ⟨p, ?_, ?_, hne, ?_⟩, ?_⟩,
      mem_keptBatch.2 ⟨h.stored, h.mem⟩⟩
    · have := (h.pages p (Nat.le_refl p)).1
      unfold maxPages
      omega
    · simp [oracleTransfers, h.pages p (Nat.le_refl p)]
    · intro q hq
      exact ⟨pageOf (L t).rows q, by simp [oracleTransfers, h.pages q (Nat.le_of_lt hq)],
        pageOf_ne_nil_of_le (Nat.le_of_lt hq) hne⟩
    · exact (mem_chunks (by decide)).2 ⟨b, rfl, List.ne_nil_of_mem h.mem⟩

theorem mem_sent_iff_copied :
    r ∈ (oracleTransfers o L).sent (keptBatch C o) tracker t 0 tracker.trackedTables ↔
      Copied o L tracker t r := by
  rw [Transfers.mem_sent]
  simp only [Nat.zero_add, mem_kept_batches]
  rfl

/-- The contents of a hosted table after the copy. -/
theorem copyTables_eq_some
    (hkeys : t ∈ tracker.trackedTables → tracker.getPrimaryKeys t ≠ [] →
      (C.table t).primaryKey ≠ []) (H : HostedDb) (k : Key) (r : Row) :
    (oracleTransfers o L).copyTables tracker 0 tracker.trackedTables H t k = some r ↔
      H t k = some r ∨
        (H t k = none ∧ (C.table t).keyOf r = k ∧ Copied o L tracker t r) := by
  rw [Transfers.copyTables_eq_insertAll (oracleTransfers_inserts o L), insertAll_eq_some]
  · rw [mem_sent_iff_copied, and_comm (a := Copied o L tracker t r)]
  · -- everything that is sent is a row of the local table, which has a key
    intro r hr r' hr' heq
    rw [mem_sent_iff_copied] at hr hr'
    obtain ⟨i, hi, hpk, p, b, hcopied⟩ := hr
    obtain ⟨i', -, -, p', b', hcopied'⟩ := hr'
    exact (L t).key_injective (hkeys (List.mem_of_getElem? hi) hpk) r hcopied.mem_rows r'
      hcopied'.mem_rows heq

/-- A tracker with the keys of its tables. -/
def KnowsKeys (C : Catalog) (tracker : TableTracker) : Prop :=
  ∀ t ∈ tracker.trackedTables, tracker.getPrimaryKeys t = [] ∨
    tracker.getPrimaryKeys t = (C.table t).primaryKey

theorem KnowsKeys.primaryKey_ne_nil (hkeys : KnowsKeys C tracker)
    (ht : t ∈ tracker.trackedTables) (hpk : tracker.getPrimaryKeys t ≠ []) :
    (C.table t).primaryKey ≠ [] :=
  (hkeys t ht).resolve_left hpk ▸ hpk

/-- The copy against an oracle finishes in the fold of its transfers. -/
theorem run_initialSync_oracle (o : Oracle) (L : LocalDb C.table) (hkeys : KnowsKeys C tracker)
    (H : HostedDb) :
    Prog.Finishes (o.behaviour L).handler (fun fuel => initialSync fuel tracker)
      { hosted := H } ()
      { hosted := (oracleTransfers o L).copyTables tracker 0 tracker.trackedTables H
        table := tracker.trackedTables.length } := by
  have hrun := run_initialSync (b := o.behaviour L) (E := oracleTransfers o L) tracker
    (s := { hosted := H })
    (fun t ht hne => ⟨(hkeys t ht).resolve_left hne, oracleTransfers_realizes o L t⟩) rfl
  simp only [Nat.zero_add] at hrun
  exact hrun

/-- **Exact effect of `initialSync`**: for every tracked list with the tables' keys, every
    local and hosted database and every outcome of every attempt, it finishes; a hosted
    table holds its previous rows, and under free keys the rows that were copied. -/
theorem initialSync_effect (o : Oracle) (L : LocalDb C.table) (tracker : TableTracker)
    (hkeys : KnowsKeys C tracker) (H : HostedDb) :
    ∃ w : Session,
      Prog.Finishes (o.behaviour L).handler (fun fuel => initialSync fuel tracker)
        { hosted := H } () w ∧
      ∀ t k r, w.hosted t k = some r ↔
        H t k = some r ∨
          (H t k = none ∧ (C.table t).keyOf r = k ∧ Copied o L tracker t r) :=
  ⟨_, run_initialSync_oracle o L hkeys H, fun _ k r =>
    copyTables_eq_some (fun ht hpk => hkeys.primaryKey_ne_nil ht hpk) H k r⟩

/-- The effect when every INSERT is executed but reported as failed. -/
theorem initialSync_effect_unacked :
    ∃ w : Session,
      Prog.Finishes
        (Oracle.behaviour (fun _ conn _ _ => if conn = .local_ then .acked else .unacked)
          (nodesIn ["nodes"] "public.nodes"
            (.single nodeTable [some "1", none] rfl))).handler
        (fun fuel => initialSync fuel
          { trackedTables := ["public.nodes"], tablePrimaryKeys := fun _ => some ["id"] })
        { hosted := HostedDb.empty } () w ∧
      ∀ t k r, w.hosted t k = some r ↔
        HostedDb.empty t k = some r ∨
          (HostedDb.empty t k = none ∧ ((nodeCatalog ["nodes"]).table t).keyOf r = k ∧
            Copied (fun _ conn _ _ => if conn = .local_ then .acked else .unacked)
              (nodesIn ["nodes"] "public.nodes"
                (.single nodeTable [some "1", none] rfl))
              { trackedTables := ["public.nodes"], tablePrimaryKeys := fun _ => some ["id"] }
              t r) :=
  initialSync_effect _ _ _ (fun _ _ => Or.inr rfl) _

end SyncLayer.Copy
