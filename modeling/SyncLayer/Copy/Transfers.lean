import SyncLayer.Copy.Statements

/-!
# The Copy as a Fold of Transfers

What `initialSync` does to the hosted database, once it is known what its statements
achieve: which pages can be read, and what sending a batch does (`Transfers`). A table
is copied by storing the batches of its pages, up to the first page that cannot be read
or is empty, and the tables are copied one after the other.

The statements of an environment achieve the transfers `E` when `Realizes b E t` holds
for the tracked tables. Then the loops of the code finish, and they do what the fold
says (`run_syncTable`, `run_initialSync`). The environments of the theory differ only in
their transfers.
-/

namespace SyncLayer.Copy

open SyncLayer.Interaction SyncLayer.Model SyncLayer.Database SyncLayer.Chunks

/-! ## Transfers -/

/-- The pages whose OFFSET is an `int`. -/
def maxPages : Nat := 2147484

/-- What the statements of the copy achieve for the table at place `i` of the tracked
    list, with name `t`: page `p`, if it can be read, and the effect of sending a batch. -/
structure Transfers where
  read : (i : Nat) → (t : String) → (p : Nat) → Option (List Row)
  store : (i : Nat) → (t : String) → List Row → HostedDb → HostedDb

/-- The pages from number `p` on, up to the first that cannot be read or is empty. -/
def pagesFrom (read : Nat → Option (List Row)) : (n p : Nat) → List (List Row)
  | 0, _ => []
  | n + 1, p => match read p with
    | none => []
    | some rows => if rows = [] then [] else rows :: pagesFrom read n (p + 1)

/-- A page is among them when all pages up to it are readable and not empty. -/
theorem mem_pagesFrom {read : Nat → Option (List Row)} {n p : Nat} {page : List Row} :
    page ∈ pagesFrom read n p ↔ ∃ k < n, read (p + k) = some page ∧ page ≠ [] ∧
      ∀ j < k, ∃ rows, read (p + j) = some rows ∧ rows ≠ [] := by
  induction n generalizing p with
  | zero => simp [pagesFrom]
  | succ n ih =>
    have hshift : ∀ k, p + 1 + k = p + (k + 1) := by intro k; omega
    rw [pagesFrom]
    cases hread : read p with
    | none =>
      -- nothing behind an unreadable page is reached
      simp only [List.not_mem_nil, false_iff]
      rintro ⟨k, -, hk, -, hbefore⟩
      cases k with
      | zero => rw [Nat.add_zero, hread] at hk; cases hk
      | succ k =>
        obtain ⟨rows, hrows, -⟩ := hbefore 0 (Nat.succ_pos k)
        rw [Nat.add_zero, hread] at hrows
        cases hrows
    | some rows =>
      by_cases hempty : rows = []
      · -- an empty page ends the list, and is no page of it itself
        subst hempty
        simp only [if_true, List.not_mem_nil, false_iff]
        rintro ⟨k, -, hk, hne, hbefore⟩
        cases k with
        | zero =>
          rw [Nat.add_zero, hread] at hk
          exact hne (Option.some.inj hk).symm
        | succ k =>
          obtain ⟨rows, hrows, hne'⟩ := hbefore 0 (Nat.succ_pos k)
          rw [Nat.add_zero, hread] at hrows
          exact hne' (Option.some.inj hrows).symm
      · -- a page with rows comes first; the others are the pages from `p + 1` on
        simp only [if_neg hempty, List.mem_cons, ih, hshift]
        constructor
        · rintro (rfl | ⟨k, hk, hpage, hne, hbefore⟩)
          · exact ⟨0, Nat.succ_pos n, hread, hempty, by simp⟩
          · refine ⟨k + 1, by omega, hpage, hne, ?_⟩
            intro j hj
            cases j with
            | zero => exact ⟨rows, hread, hempty⟩
            | succ j => exact hbefore j (by omega)
        · rintro ⟨k, hk, hpage, hne, hbefore⟩
          cases k with
          | zero =>
            rw [Nat.add_zero, hread] at hpage
            exact Or.inl (Option.some.inj hpage).symm
          | succ k =>
            exact Or.inr ⟨k, by omega, hpage, hne, fun j hj => hbefore (j + 1) (by omega)⟩

namespace Transfers

variable (E : Transfers)

/-- The batches the copy of a table sends. -/
def batches (i : Nat) (t : String) : List (List Row) :=
  (pagesFrom (E.read i t) maxPages 0).flatMap (chunks batchSize)

/-- Store batches one after the other. -/
def storeAll (i : Nat) (t : String) (bs : List (List Row)) (H : HostedDb) : HostedDb :=
  bs.foldl (fun H rows => E.store i t rows H) H

theorem storeAll_append (i : Nat) (t : String) (bs bs' : List (List Row)) (H : HostedDb) :
    E.storeAll i t (bs ++ bs') H = E.storeAll i t bs' (E.storeAll i t bs H) :=
  List.foldl_append

theorem storeAll_cons (i : Nat) (t : String) (rows : List Row) (bs : List (List Row))
    (H : HostedDb) :
    E.storeAll i t (rows :: bs) H = E.storeAll i t bs (E.store i t rows H) := rfl

/-- The copy of one table. -/
def copyTable (i : Nat) (t : String) (H : HostedDb) : HostedDb :=
  E.storeAll i t (E.batches i t) H

/-- The copy of the tables from place `i` of the tracked list on; those without key
    columns are skipped. -/
def copyTables (tracker : TableTracker) : (i : Nat) → List String → HostedDb → HostedDb
  | _, [], H => H
  | i, t :: ts, H =>
    copyTables tracker (i + 1) ts
      (if (tracker.getPrimaryKeys t).isEmpty then H else E.copyTable i t H)

end Transfers

/-- A table that is not in the list is not touched when stores touch only their table. -/
theorem Transfers.copyTables_other {E : Transfers} {tracker : TableTracker}
    (hE : ∀ i t rows H t', t' ≠ t → E.store i t rows H t' = H t') {t : String}
    {ts : List String} (ht : t ∉ ts) (i : Nat) (H : HostedDb) :
    E.copyTables tracker i ts H t = H t := by
  -- batches of another table leave this one as it is
  have hstores : ∀ i t' bs H, t ≠ t' → E.storeAll i t' bs H t = H t := by
    intro i t' bs
    induction bs with
    | nil => intro H _; rfl
    | cons rows bs ih =>
      intro H hne
      rw [Transfers.storeAll_cons, ih _ hne, hE _ _ _ _ _ hne]
  induction ts generalizing i H with
  | nil => rfl
  | cons t' ts ih =>
    obtain ⟨hne, hts⟩ := List.ne_and_not_mem_of_not_mem_cons ht
    rw [Transfers.copyTables, ih hts]
    split_ifs
    · rfl
    · exact hstores _ _ _ _ hne

/-! ## Environments that realize transfers -/

variable {C : Catalog}

/-- The SELECT of page `p`. -/
def pageQuery (C : Catalog) (t : String) (p : Nat) : Stmt :=
  .selectPage t (C.table t).primaryKey pageSize (Int32.ofNat (1000 * p))

/-- The statements of the copy of `t` achieve the transfers `E`. -/
structure Realizes (b : Behaviour C) (E : Transfers) (t : String) : Prop where
  width : ∀ i p rows, E.read i t p = some rows →
    ∀ r ∈ rows, r.length = (C.table t).columns.length
  run_read : ∀ p < maxPages, ∀ s : Session, s.attempt = 0 →
    (executeWithRetry .local_ (pageQuery C t p)).run b.handler s =
      (some ((E.read s.table t p).map (tuplesResult (C.table t).columns)),
        { s with attempt := if (E.read s.table t p).isSome then 0 else 3 })
  run_store : ∀ rows, (∀ r ∈ rows, r.length = (C.table t).columns.length) →
    ∀ s : Session, s.attempt = 0 →
      (sendChunk t (C.table t).columns rows).run b.handler s =
        (some (), { s with hosted := E.store s.table t rows s.hosted })

variable {b : Behaviour C} {E : Transfers} {t : String}

/-- The batches of one page. -/
private theorem run_rowLoop (hE : Realizes b E t) {rows : List Row}
    (hw : ∀ r ∈ rows, r.length = (C.table t).columns.length) {s : Session}
    (hs : s.attempt = 0) :
    (rowLoop t (C.table t).columns rows []).run b.handler s =
      (some (), { s with hosted := E.storeAll s.table t (chunks batchSize rows) s.hosted }) := by
  -- a loop over chunks that only moves the hosted database is a fold on it
  have hfold : ∀ (bs : List (List Row)) (s : Session),
      bs.foldl (fun s rows => { s with hosted := E.store s.table t rows s.hosted }) s =
        { s with hosted := E.storeAll s.table t bs s.hosted } := by
    intro bs
    induction bs with
    | nil => intro s; rfl
    | cons c bs ih => intro s; exact ih _
  have hrun := Prog.run_forM b.handler (f := sendChunk t (C.table t).columns)
    (g := fun s rows => { s with hosted := E.store s.table t rows s.hosted })
    (P := fun s => s.attempt = 0) (chunks batchSize rows) ?_ hs
  · rw [rowLoop_eq_sendChunks, hrun.1, hfold]
  · -- a chunk is a slice of the page, so its rows have the table's width
    intro c hc w hw0
    obtain ⟨k, rfl, -⟩ := (mem_chunks (by decide)).1 hc
    refine ⟨hE.run_store _ ?_ w hw0, hw0⟩
    exact fun r hr => hw r (List.mem_of_mem_drop (List.mem_of_mem_take hr))

/-- Behind the last page the OFFSET has become negative, and the server rejects it. -/
private theorem run_read_rejected (t : String) {s : Session} (hs : s.attempt = 0) :
    (executeWithRetry .local_ (pageQuery C t maxPages)).run b.handler s =
      (some none, { s with attempt := 3 }) := by
  apply run_executeWithRetry_rejected b .local_ (retried_selectPage _ _ _ _) hs
  intro a
  -- 2147484 * 1000 is above the largest `int`: the OFFSET wraps
  have hneg : ¬ 0 ≤ (Int32.ofNat (1000 * maxPages)).toInt := by decide
  apply respond_of_serve_none
  rw [serve, if_neg fun h => hneg h.1]

/-- A page that cannot be read ends the page loop. -/
private theorem run_pageLoop_failed {pk : List String} {offset : Int32} {s : Session}
    (hread : (executeWithRetry .local_ (.selectPage t pk pageSize offset)).run b.handler s =
      (some none, { s with attempt := 3 })) (fuel : Nat) (totalRows : Int32) :
    (pageLoop t pk (fuel + 1) offset totalRows).run b.handler s =
      (some totalRows, { s with attempt := 0 }) := by
  have hstatus : PQresultStatus none ≠ .tuplesOk := by decide
  rw [pageLoop, Prog.run_bind_of_some _ _ hread, if_pos hstatus, run_log_bind]
  rfl

/-- The page loop from page `p` on, with `n` pages to go before the offset overflows. The
    induction is on `n`. -/
private theorem run_pageLoop (hE : Realizes b E t) (n p : Nat) (hp : n + p = maxPages)
    (fuel : Nat) (hfuel : n < fuel) (totalRows : Int32) {s : Session} (hs : s.attempt = 0) :
    ∃ total, (pageLoop t (C.table t).primaryKey fuel (Int32.ofNat (1000 * p)) totalRows).run
        b.handler s =
      (some total, { s with
        hosted := E.storeAll s.table t
          ((pagesFrom (E.read s.table t) n p).flatMap (chunks batchSize)) s.hosted }) := by
  induction n generalizing p fuel totalRows s with
  | zero =>
    -- no page with a representable OFFSET is left
    obtain ⟨fuel, rfl⟩ := Nat.exists_eq_succ_of_ne_zero (Nat.ne_of_gt hfuel)
    rw [Nat.zero_add] at hp
    subst hp
    refine ⟨totalRows, ?_⟩
    rw [run_pageLoop_failed (run_read_rejected t hs)]
    simp [pagesFrom, Transfers.storeAll, hs]
  | succ n ih =>
    obtain ⟨fuel, rfl⟩ := Nat.exists_eq_succ_of_ne_zero (Nat.ne_of_gt (Nat.zero_lt_of_lt hfuel))
    have hread := hE.run_read p (by omega) s hs
    simp only [pagesFrom]
    cases hrows : E.read s.table t p with
    | none =>
      -- a page that cannot be read: the code breaks out of the loop
      refine ⟨totalRows, ?_⟩
      rw [hrows] at hread
      rw [run_pageLoop_failed hread]
      simp [Transfers.storeAll, hs]
    | some rows =>
      rw [hrows] at hread
      rw [pageLoop, ← pageQuery, Prog.run_bind_of_some _ _ hread]
      by_cases hempty : rows = []
      · -- the table is at its end: `rows == 0` breaks out of the loop
        refine ⟨totalRows, ?_⟩
        subst hempty
        simp [PQresultStatus, tuplesResult, PQntuples, resultRows, hs, Transfers.storeAll]
      · -- the batches of this page, then the pages behind it
        have hstep : Int32.ofNat (1000 * p) + pageSize = Int32.ofNat (1000 * (p + 1)) := by
          rw [Nat.mul_succ, Int32.ofNat_add]
          rfl
        have hlen : rows.length ≠ 0 := fun h => hempty (List.length_eq_zero_iff.1 h)
        have hrow := run_rowLoop hE (hE.width _ _ _ hrows) (s := { s with attempt := 0 }) rfl
        obtain ⟨total, hrest⟩ := ih (p + 1) (by omega) fuel (by omega)
          (totalRows + Int32.ofNat rows.length)
          (s := { s with
            attempt := 0
            hosted := E.storeAll s.table t (chunks batchSize rows) s.hosted }) rfl
        refine ⟨total, ?_⟩
        simp only [Option.map_some, PQresultStatus, tuplesResult, PQntuples, resultRows,
          resultFields, Option.isSome_some, if_true, ne_eq, not_true_eq_false, if_false, hlen]
        rw [Prog.run_bind_of_some _ _ hrow, run_log_bind, hstep]
        refine hrest.trans ?_
        simp [hempty, hs, Transfers.storeAll, List.flatMap_cons]

/-- **The body of the table loop**, for a table with key columns. -/
theorem run_syncTable (hE : Realizes b E t) {tracker : TableTracker}
    (hpk : tracker.getPrimaryKeys t = (C.table t).primaryKey)
    (hne : (C.table t).primaryKey ≠ []) {fuel : Nat} (hfuel : maxPages < fuel) {s : Session}
    (hs : s.attempt = 0) :
    (syncTable fuel tracker t).run b.handler s =
      (some (), { s with table := s.table + 1, hosted := E.copyTable s.table t s.hosted }) := by
  obtain ⟨total, hloop⟩ := run_pageLoop hE maxPages 0 rfl fuel hfuel 0 hs
  have hne' : ¬ (C.table t).primaryKey.isEmpty = true := by simpa using hne
  rw [syncTable, hpk, if_neg hne', run_log_bind]
  refine (Prog.run_bind_of_some _ _ hloop).trans ?_
  rfl

/-- The body of the table loop skips a table without key columns. -/
theorem run_syncTable_skip {tracker : TableTracker} (hpk : tracker.getPrimaryKeys t = [])
    (fuel : Nat) (s : Session) :
    (syncTable fuel tracker t).run b.handler s = (some (), { s with table := s.table + 1 }) := by
  rw [syncTable, hpk]
  rfl

/-- The table loop. -/
private theorem run_tables {tracker : TableTracker} (ts : List String)
    (hE : ∀ t ∈ ts, tracker.getPrimaryKeys t ≠ [] →
      tracker.getPrimaryKeys t = (C.table t).primaryKey ∧ Realizes b E t)
    {fuel : Nat} (hfuel : maxPages < fuel) {s : Session} (hs : s.attempt = 0) :
    (forM ts (syncTable fuel tracker)).run b.handler s =
      (some ⟨⟩, { s with
        table := s.table + ts.length
        hosted := E.copyTables tracker s.table ts s.hosted }) := by
  induction ts generalizing s with
  | nil => rfl
  | cons t ts ih =>
    have hts : ∀ t ∈ ts, tracker.getPrimaryKeys t ≠ [] →
        tracker.getPrimaryKeys t = (C.table t).primaryKey ∧ Realizes b E t :=
      fun t ht => hE t (List.mem_cons_of_mem _ ht)
    rw [List.forM_cons, Transfers.copyTables, List.length_cons, Nat.add_comm ts.length 1,
      ← Nat.add_assoc]
    by_cases hpk : tracker.getPrimaryKeys t = []
    · -- no key columns: skipped with a log line
      rw [Prog.run_bind_of_some _ _ (run_syncTable_skip hpk fuel s)]
      simp only [hpk, List.isEmpty_nil, if_true]
      exact ih hts hs
    · obtain ⟨hkey, hreal⟩ := hE t (List.mem_cons_self ..) hpk
      rw [Prog.run_bind_of_some _ _ (run_syncTable hreal hkey (hkey ▸ hpk) hfuel hs)]
      have hne : ¬ (tracker.getPrimaryKeys t).isEmpty = true := by simpa using hpk
      rw [if_neg hne]
      exact ih hts hs

/-- **`initialSync` copies the tables**: it finishes, and leaves the hosted database that
    the fold of the transfers says. -/
theorem run_initialSync (tracker : TableTracker)
    (hE : ∀ t ∈ tracker.trackedTables, tracker.getPrimaryKeys t ≠ [] →
      tracker.getPrimaryKeys t = (C.table t).primaryKey ∧ Realizes b E t)
    {s : Session} (hs : s.attempt = 0) :
    Prog.Finishes b.handler (fun fuel => initialSync fuel tracker) s ()
      { s with
        table := s.table + tracker.trackedTables.length
        hosted := E.copyTables tracker s.table tracker.trackedTables s.hosted } := by
  filter_upwards [Filter.eventually_gt_atTop maxPages] with fuel hfuel
  rw [initialSync, run_log_bind]
  refine (Prog.run_bind_of_some _ _ (run_tables _ hE hfuel hs)).trans ?_
  rfl

end SyncLayer.Copy
