import SyncLayer.Wire.Nulls

/-!
# The Pages of an Unchanging Table

Over a table that does not change the page loop hands over the pages at offsets 0, 1000,
2000, … until it meets the empty page (`paging_partitions`), whatever becomes of the
INSERTs. The offset is a 32-bit number: behind 2147483000 rows it leaves the range and the
copy stops early (`additions_in_range_iff`).
-/

namespace SyncLayer.Wire

open SyncLayer.Interaction SyncLayer.Model SyncLayer.Chunks

/-! ## The table -/

/-- The page that starts behind `offset` rows. -/
def pageAt (rows : List Row) (offset : Nat) : List Row := (rows.drop offset).take 1000

/-- The answer to a page SELECT that succeeds. -/
def pageResult (fields : List String) (rows : List Row) (offset : Int32) : PGresult :=
  ⟨.tuplesOk, fields, pageAt rows offset.toInt.toNat⟩

/-- The table consists of `rows`, in key order, all the time: every attempt at a page SELECT
    fails or gives the page, and one of three attempts does not fail. -/
structure Surroundings.Serves (E : Surroundings) (table : String) (pk fields : List String)
    (rows : List Row) : Prop where
  answer : ∀ i a (offset : Int32), 0 ≤ offset.toInt →
    Good (E.reply i a .local_ (.selectPage table pk pageSize offset)) →
    E.reply i a .local_ (.selectPage table pk pageSize offset) =
      some (pageResult fields rows offset)
  succeeds : ∀ i (offset : Int32), 0 ≤ offset.toInt →
    ∃ a < 3, Good (E.reply i a .local_ (.selectPage table pk pageSize offset))

/-- The server rejects a negative OFFSET. -/
def Surroundings.RejectsNegative (E : Surroundings) (table : String) (pk : List String) : Prop :=
  ∀ i a (offset : Int32), offset.toInt < 0 →
    ¬ Good (E.reply i a .local_ (.selectPage table pk pageSize offset))

section Select

variable {E : Surroundings} {table : String} {pk fields : List String} {rows : List Row}

theorem Surroundings.Serves.result_eq (hE : E.Serves table pk fields rows) (i : Nat)
    {offset : Int32} (hoffset : 0 ≤ offset.toInt) :
    E.result i .local_ (.selectPage table pk pageSize offset) =
      some (pageResult fields rows offset) := by
  obtain ⟨a, ha, hgood⟩ := hE.succeeds i offset hoffset
  unfold Surroundings.result Surroundings.resultFrom
  cases hfind : (List.range' 0 3).find? fun a =>
      Good (E.reply i a .local_ (.selectPage table pk pageSize offset)) with
  | none =>
    have hmem : a ∈ List.range' 0 3 := List.mem_range'.2 ⟨a, ha, by omega⟩
    -- one of the three attempts is good, so it is found
    have hnone := List.find?_eq_none.1 hfind a hmem
    exact absurd (decide_eq_true hgood) hnone
  | some b =>
    have hb := List.find?_some hfind
    exact hE.answer i b offset hoffset (of_decide_eq_true hb)

theorem Surroundings.RejectsNegative.result_eq (hE : E.RejectsNegative table pk) (i : Nat)
    {offset : Int32} (hoffset : offset.toInt < 0) :
    E.result i .local_ (.selectPage table pk pageSize offset) = none := by
  have hnone : ((List.range' 0 3).find? fun a =>
      Good (E.reply i a .local_ (.selectPage table pk pageSize offset))) = none := by
    rw [List.find?_eq_none]
    intro a _ hgood
    exact hE i a offset hoffset (of_decide_eq_true hgood)
  unfold Surroundings.result Surroundings.resultFrom
  rw [hnone]
  rfl

end Select

/-- The surroundings in which every statement succeeds over the table of `rows`, except a page
    SELECT with a negative OFFSET. -/
def steady (fields : List String) (rows : List Row) : Surroundings where
  reply _ _ conn query :=
    match conn, query with
    | .local_, .selectPage _ _ _ offset =>
        if 0 ≤ offset.toInt then some (pageResult fields rows offset) else none
    | _, _ => some ⟨.commandOk, [], []⟩
  escapes _ := true

theorem steady_serves (table : String) (pk fields : List String) (rows : List Row) :
    (steady fields rows).Serves table pk fields rows where
  answer _ _ _ hoffset _ := if_pos hoffset
  succeeds i offset hoffset := by
    refine ⟨0, by decide, ?_⟩
    have hreply : (steady fields rows).reply i 0 .local_ (.selectPage table pk pageSize offset) =
        some (pageResult fields rows offset) := if_pos hoffset
    rw [hreply]
    exact .inr rfl

theorem steady_rejectsNegative (table : String) (pk fields : List String) (rows : List Row) :
    (steady fields rows).RejectsNegative table pk := by
  intro i a offset hoffset hgood
  have hreply : (steady fields rows).reply i a .local_ (.selectPage table pk pageSize offset) =
      none := if_neg (by omega)
  rw [hreply] at hgood
  exact absurd hgood (by decide)

/-- A table of numbers. -/
def numbers (n : Nat) : List Row := (List.range n).map fun i => [some (toString i)]

/-! ## The additions of the loop -/

/-- `pageLoop`, which also returns the operands of its additions, in order. -/
def countingLoop (table : String) (pk : List String) :
    (fuel : Nat) → (offset totalRows : Int32) → (additions : List (Int32 × Int32)) →
    Code (Int32 × List (Int32 × Int32))
  | 0, _, _, _ => .cut
  | fuel + 1, offset, totalRows, additions => do
    let res ← executeWithRetry .local_ (.selectPage table pk pageSize offset)
    if PQresultStatus res ≠ .tuplesOk then
      log (.selectFailed table)
      return (totalRows, additions)
    let nRows := PQntuples res
    if nRows = 0 then
      return (totalRows, additions)
    rowLoop table (resultFields res) (resultRows res) []
    -- the operands of the two additions that follow
    let additions := additions ++ [(totalRows, Int32.ofNat nRows), (offset, pageSize)]
    let totalRows := totalRows + Int32.ofNat nRows
    let offset := offset + pageSize
    log (.syncedRows (Int32.ofNat nRows) table offset)
    countingLoop table pk fuel offset totalRows additions

/-- Without the operands it is the loop of the program. -/
theorem pageLoop_eq (table : String) (pk : List String) (fuel : Nat) (offset totalRows : Int32)
    (additions : List (Int32 × Int32)) :
    pageLoop table pk fuel offset totalRows =
      countingLoop table pk fuel offset totalRows additions >>= fun r => pure r.1 := by
  induction fuel generalizing offset totalRows additions with
  | zero => rfl
  | succ fuel ih =>
    rw [pageLoop, countingLoop, bind_assoc]
    -- both loops make the same call and then the same case distinction
    congr 1
    funext res
    split
    · simp [-bind_pure_comp]
    · dsimp only
      split
      · rfl
      · simp only [bind_assoc]
        congr 1
        funext _
        congr 1
        funext _
        exact ih ..

/-! ## One pass of the loop -/

section Pass

variable (E : Surroundings) {table : String} {pk fields : List String} {rows : List Row}
  {w : Traffic} {offset : Int32}

/-- The record after a page. -/
def Traffic.page (w : Traffic) (E : Surroundings) (table : String) (pk fields : List String)
    (offset : Int32) (page : List Row) : Traffic :=
  { w with
    reads := w.reads ++ [.selectPage table pk pageSize offset]
    inserts := w.inserts ++
      (chunks batchSize (E.encodeRows w.escapeCalls page)).map (.insert table fields)
    escapeCalls := w.escapeCalls + textsOf page
    rowsRead := w.rowsRead ++ page }

/-- A page with rows leads to the next pass. -/
theorem run_countingLoop_page (hw : w.attempt = 0)
    (hres : E.result (w.handedOver + 1) .local_ (.selectPage table pk pageSize offset) =
      some (pageResult fields rows offset))
    (hpage : pageAt rows offset.toInt.toNat ≠ []) (fuel : Nat) (totalRows : Int32)
    (additions : List (Int32 × Int32)) :
    (countingLoop table pk (fuel + 1) offset totalRows additions).run E.handler w =
      (countingLoop table pk fuel (offset + pageSize)
        (totalRows + Int32.ofNat (pageAt rows offset.toInt.toNat).length)
        (additions ++ [(totalRows, Int32.ofNat (pageAt rows offset.toInt.toNat).length),
          (offset, pageSize)])).run E.handler
        (w.page E table pk fields offset (pageAt rows offset.toInt.toNat)) := by
  have hstatus : ¬ PQresultStatus (some (pageResult fields rows offset)) ≠ .tuplesOk :=
    fun h => h rfl
  have hrows : ¬ PQntuples (some (pageResult fields rows offset)) = 0 :=
    fun h => hpage (List.length_eq_zero_iff.1 h)
  have hreceive : (w.handOver .local_ (.selectPage table pk pageSize offset)).receive .local_
      (some (pageResult fields rows offset)) =
      { w with
        reads := w.reads ++ [.selectPage table pk pageSize offset]
        rowsRead := w.rowsRead ++ pageAt rows offset.toInt.toNat } := if_pos ⟨rfl, rfl⟩
  rw [countingLoop, Prog.run_bind_of_some _ _ (run_executeWithRetry E hw _ _), hres,
    if_neg hstatus]
  dsimp only
  rw [if_neg hrows, hreceive, Prog.run_bind_of_some _ _ (run_rowLoop E _ _ _ (by exact hw)),
    run_log_bind]
  rfl

/-- A page SELECT that fails, or finds no rows, ends the loop. -/
theorem run_countingLoop_end (hw : w.attempt = 0)
    (hres : PQresultStatus
        (E.result (w.handedOver + 1) .local_ (.selectPage table pk pageSize offset)) = .tuplesOk →
      resultRows (E.result (w.handedOver + 1) .local_ (.selectPage table pk pageSize offset)) = [])
    (fuel : Nat) (totalRows : Int32) (additions : List (Int32 × Int32)) :
    (countingLoop table pk (fuel + 1) offset totalRows additions).run E.handler w =
      (some (totalRows, additions),
        { w with reads := w.reads ++ [.selectPage table pk pageSize offset] }) := by
  rw [countingLoop, Prog.run_bind_of_some _ _ (run_executeWithRetry E hw _ _), receive_no_rows hres]
  by_cases hstatus : PQresultStatus
      (E.result (w.handedOver + 1) .local_ (.selectPage table pk pageSize offset)) = .tuplesOk
  · have hempty : PQntuples
        (E.result (w.handedOver + 1) .local_ (.selectPage table pk pageSize offset)) = 0 := by
      rw [PQntuples, hres hstatus]
      rfl
    rw [if_neg (fun h => h hstatus)]
    dsimp only
    rw [if_pos hempty]
    rfl
  · rw [if_pos hstatus]
    rfl

end Pass

/-! ## The pages up to the end -/

section Pages

variable (E : Surroundings) (table : String) (pk fields : List String) (rows : List Row)

/-- The record after the first `k` pages. -/
def afterPages (k : Nat) : Traffic where
  reads := (List.range k).map fun p => .selectPage table pk pageSize (Int32.ofNat (1000 * p))
  inserts := (chunks batchSize (E.encodeRows 0 (rows.take (1000 * k)))).map (.insert table fields)
  escapeCalls := textsOf (rows.take (1000 * k))
  rowsRead := rows.take (1000 * k)

/-- The additions for the first `k` pages. -/
def additionsFor (k : Nat) : List (Int32 × Int32) :=
  (List.range k).flatMap fun p =>
    [(Int32.ofNat (1000 * p), Int32.ofNat (pageAt rows (1000 * p)).length),
      (Int32.ofNat (1000 * p), pageSize)]

/-- The last offset in range is that of page 2147483. -/
theorem toInt_offset {p : Nat} (hp : p < 2147484) : (Int32.ofNat (1000 * p)).toInt = 1000 * p := by
  rw [Int32.toInt_ofNat_of_lt (by omega)]
  omega

theorem length_pageAt (offset : Nat) :
    (pageAt rows offset).length = min 1000 (rows.length - offset) := by
  rw [pageAt, List.length_take, List.length_drop]

theorem take_pages (k : Nat) :
    rows.take (1000 * (k + 1)) = rows.take (1000 * k) ++ pageAt rows (1000 * k) := by
  rw [pageAt, ← List.take_add, Nat.mul_succ]

/-- A page is added to the record of those before it. -/
theorem afterPages_succ {k : Nat} (hk : 1000 * k < rows.length) :
    (afterPages E table pk fields rows k).page E table pk fields (Int32.ofNat (1000 * k))
        (pageAt rows (1000 * k)) =
      afterPages E table pk fields rows (k + 1) := by
  -- the pages before are full, so no batch ends inside the next one
  have hbatches : batchSize ∣ (E.encodeRows 0 (rows.take (1000 * k))).length := by
    have hlen : (rows.take (1000 * k)).length = 1000 * k := List.length_take_of_le (by omega)
    rw [length_encodeRows, hlen]
    exact Nat.dvd_mul_right_of_dvd (by decide) k
  unfold Traffic.page afterPages
  rw [take_pages, encodeRows_append, chunks_append_of_dvd (by decide) _ hbatches, textsOf_append,
    Nat.zero_add, List.range_succ, List.map_append, List.map_append]
  rfl

/-- The first `k` pages, all with rows. The induction is on `k`. -/
theorem run_pages (hE : E.Serves table pk fields rows) {k : Nat} (hk : k ≤ 2147484)
    (hrows : ∀ p < k, 1000 * p < rows.length) (fuel : Nat) :
    (countingLoop table pk (k + fuel) 0 0 []).run E.handler {} =
      (countingLoop table pk fuel (Int32.ofNat (1000 * k))
        (Int32.ofNat (min (1000 * k) rows.length)) (additionsFor rows k)).run E.handler
        (afterPages E table pk fields rows k) := by
  induction k generalizing fuel with
  | zero =>
    have hstart : afterPages E table pk fields rows 0 = {} := by
      simp [afterPages, Surroundings.encodeRows, textsOf]
    rw [hstart, Nat.zero_add, Nat.mul_zero, Nat.zero_min]
    rfl
  | succ k ih =>
    have hlast : 1000 * k < rows.length := hrows k (Nat.lt_succ_self k)
    have hoffset : (Int32.ofNat (1000 * k)).toInt = 1000 * k := toInt_offset (by omega)
    have hnat : (Int32.ofNat (1000 * k)).toInt.toNat = 1000 * k := by omega
    have hpage : pageAt rows (1000 * k) ≠ [] := by
      rw [← List.length_pos_iff, length_pageAt]
      omega
    -- the operands and the sums, as numbers of rows
    have htotal : Int32.ofNat (1000 * k) + Int32.ofNat (pageAt rows (1000 * k)).length =
        Int32.ofNat (min (1000 * (k + 1)) rows.length) := by
      rw [← Int32.ofNat_add, length_pageAt]
      congr 1
      omega
    have hnext : Int32.ofNat (1000 * k) + pageSize = Int32.ofNat (1000 * (k + 1)) := by
      rw [Nat.mul_succ, Int32.ofNat_add]
      rfl
    have hadditions : additionsFor rows k ++
        [(Int32.ofNat (1000 * k), Int32.ofNat (pageAt rows (1000 * k)).length),
          (Int32.ofNat (1000 * k), pageSize)] = additionsFor rows (k + 1) := by
      rw [additionsFor, additionsFor, List.range_succ, List.flatMap_append]
      simp
    have hnonneg : 0 ≤ (Int32.ofNat (1000 * k)).toInt := by omega
    have hattempt : (afterPages E table pk fields rows k).attempt = 0 := rfl
    have hpass := run_countingLoop_page E hattempt (hE.result_eq _ hnonneg) (by rwa [hnat]) fuel
      (Int32.ofNat (1000 * k)) (additionsFor rows k)
    rw [hnat, htotal, hnext, hadditions, afterPages_succ E table pk fields rows hlast] at hpass
    rw [Nat.add_assoc, Nat.add_comm 1, ih (by omega) (fun p hp => hrows p (by omega)),
      Nat.min_eq_left (by omega), hpass]

/-- The pages with rows. -/
def pageCount (n : Nat) : Nat := (n + 999) / 1000

/-- A table in range is read to its end. -/
theorem run_countingLoop_whole (hE : E.Serves table pk fields rows)
    (hn : rows.length ≤ 2147483000) (fuel : Nat) :
    (countingLoop table pk (pageCount rows.length + (fuel + 1)) 0 0 []).run E.handler {} =
      (some (Int32.ofNat rows.length, additionsFor rows (pageCount rows.length)),
        { reads := (List.range (pageCount rows.length + 1)).map fun p =>
            .selectPage table pk pageSize (Int32.ofNat (1000 * p))
          inserts := (chunks batchSize (E.encodeRows 0 rows)).map (.insert table fields)
          escapeCalls := textsOf rows
          rowsRead := rows }) := by
  have hcount : pageCount rows.length = (rows.length + 999) / 1000 := rfl
  have hall : rows.length ≤ 1000 * pageCount rows.length := by omega
  have hrows : ∀ p < pageCount rows.length, 1000 * p < rows.length := by
    intro p hp
    omega
  have hoffset : (Int32.ofNat (1000 * pageCount rows.length)).toInt =
      1000 * pageCount rows.length := toInt_offset (by omega)
  have hnonneg : 0 ≤ (Int32.ofNat (1000 * pageCount rows.length)).toInt := by omega
  -- the page behind the last row is empty and ends the loop
  have hempty : pageAt rows (Int32.ofNat (1000 * pageCount rows.length)).toInt.toNat = [] := by
    rw [← List.length_eq_zero_iff, length_pageAt]
    omega
  have htake : rows.take (1000 * pageCount rows.length) = rows := List.take_of_length_le hall
  rw [run_pages E table pk fields rows hE (by omega) hrows,
    run_countingLoop_end E rfl (by rw [hE.result_eq _ hnonneg]; exact fun _ => hempty),
    Nat.min_eq_right hall]
  simp [afterPages, htake, List.range_succ]

/-- Behind the last offset in range the offset is negative. -/
theorem run_countingLoop_cut (hE : E.Serves table pk fields rows)
    (hneg : E.RejectsNegative table pk) (hn : 2147483000 < rows.length) (fuel : Nat) :
    (countingLoop table pk (2147484 + (fuel + 1)) 0 0 []).run E.handler {} =
      (some (Int32.ofNat (min (1000 * 2147484) rows.length), additionsFor rows 2147484),
        { afterPages E table pk fields rows 2147484 with
          reads := (afterPages E table pk fields rows 2147484).reads ++
            [.selectPage table pk pageSize (-2147483296)] }) := by
  have hoffset : Int32.ofNat (1000 * 2147484) = -2147483296 := by decide
  have hnegative : (-2147483296 : Int32).toInt < 0 := by decide
  have hattempt : (afterPages E table pk fields rows 2147484).attempt = 0 := rfl
  have hrows : ∀ p < 2147484, 1000 * p < rows.length := by
    intro p hp
    omega
  -- the SELECT with the wrapped offset fails and ends the loop
  rw [run_pages E table pk fields rows hE (by omega) hrows, hoffset]
  apply run_countingLoop_end E hattempt
  rw [hneg.result_eq _ hnegative]
  exact fun _ => rfl

end Pages

/-! ## The law of the loop -/

section Law

variable {E : Surroundings} {table : String} {pk fields : List String} {rows : List Row}

/-- Large budgets finish when one pass count with one more pass does. -/
theorem finishes_countingLoop {r : Int32 × List (Int32 × Int32)} {w : Traffic} {k : Nat}
    (h : ∀ fuel, (countingLoop table pk (k + (fuel + 1)) 0 0 []).run E.handler {} = (some r, w)) :
    Prog.Finishes E.handler (fun fuel => countingLoop table pk fuel 0 0 []) {} r w := by
  filter_upwards [Filter.eventually_ge_atTop (k + 1)] with fuel hfuel
  have hk : fuel = k + (fuel - (k + 1) + 1) := by omega
  rw [hk]
  exact h _

theorem finishes_pageLoop {r : Int32 × List (Int32 × Int32)} {w : Traffic}
    (h : Prog.Finishes E.handler (fun fuel => countingLoop table pk fuel 0 0 []) {} r w) :
    Prog.Finishes E.handler (fun fuel => pageLoop table pk fuel 0 0) {} r.1 w := by
  refine h.mono fun fuel hrun => ?_
  dsimp only at hrun ⊢
  rw [pageLoop_eq table pk fuel 0 0 [], Prog.run_bind_of_some _ _ hrun]
  rfl

/-- The page loop has read the table page by page and handed it over batch by batch. -/
structure Partitioned (E : Surroundings) (table : String) (pk fields : List String)
    (rows : List Row) (totalRows : Int32) (w : Traffic) : Prop where
  total : totalRows.toInt = rows.length
  /-- The offsets are 0, 1000, 2000, …, up to the one of the empty page. -/
  reads : ∃ offsets : List Int32, w.reads = offsets.map (.selectPage table pk pageSize) ∧
    offsets.map Int32.toInt =
      (List.range ((rows.length + 999) / 1000 + 1)).map fun p : Nat => 1000 * (p : Int)
  batchCount : w.inserts.length = (rows.length + 99) / 100
  batches : ∀ q ∈ w.inserts, ∃ values, q = .insert table fields values ∧ 1 ≤ values.length ∧
    values.length ≤ 100
  full : ∀ q ∈ w.inserts.dropLast, (valuesOf q).length = 100
  /-- Put together, the batches are the table, row by row as the escape calls encode it. -/
  sent : w.sentRows = E.encodeRows 0 rows
  verbatim : (∀ k < textsOf rows, E.escapes k = true) →
    List.Forall₂ (List.Forall₂ StandsFor) w.sentRows rows

/-- **The pages and the batches partition the table**, whatever becomes of the INSERTs, and
    the loop ends. -/
theorem paging_partitions (hE : E.Serves table pk fields rows) (hn : rows.length ≤ 2147483000) :
    ∃ totalRows w,
      Prog.Finishes E.handler (fun fuel => pageLoop table pk fuel 0 0) {} totalRows w ∧
      Partitioned E table pk fields rows totalRows w := by
  have hpos : 0 < batchSize := by decide
  have hfinishes := finishes_countingLoop (run_countingLoop_whole E table pk fields rows hE hn)
  have hsent : ((chunks batchSize (E.encodeRows 0 rows)).map (Stmt.insert table fields)).flatMap
      valuesOf = E.encodeRows 0 rows := by
    rw [flatMap_valuesOf, flatten_chunks hpos]
  refine ⟨_, _, finishes_pageLoop hfinishes, ?_⟩
  constructor
  case total => exact Int32.toInt_ofNat_of_lt (by omega)
  case reads =>
    refine ⟨(List.range (pageCount rows.length + 1)).map fun p => Int32.ofNat (1000 * p), ?_, ?_⟩
    · rw [List.map_map]
      rfl
    · have hcount : pageCount rows.length = (rows.length + 999) / 1000 := rfl
      rw [List.map_map, ← hcount]
      apply List.map_congr_left
      intro p hp
      rw [List.mem_range] at hp
      exact toInt_offset (by omega)
  case batchCount =>
    rw [List.length_map, length_chunks hpos, length_encodeRows]
    rfl
  case batches =>
    intro q hq
    obtain ⟨values, hvalues, rfl⟩ := List.mem_map.1 hq
    exact ⟨values, rfl, length_of_mem_chunks hpos hvalues⟩
  case full =>
    intro q hq
    rw [← List.map_dropLast] at hq
    obtain ⟨values, hvalues, rfl⟩ := List.mem_map.1 hq
    exact length_of_mem_dropLast_chunks hpos hvalues
  case sent => exact hsent
  case verbatim =>
    intro hescapes
    unfold Traffic.sentRows
    rw [hsent, encodeRows_iff E notices_standsFor]
    intro k hk
    rw [Nat.zero_add]
    exact hescapes k hk

/-- A table with a second page, and with a remainder in it. -/
theorem paging_partitions_numbers :
    ∃ totalRows w,
      Prog.Finishes (steady ["id"] (numbers 1150)).handler
        (fun fuel => pageLoop "public.numbers" ["id"] fuel 0 0) {} totalRows w ∧
      Partitioned (steady ["id"] (numbers 1150)) "public.numbers" ["id"] ["id"] (numbers 1150)
        totalRows w :=
  paging_partitions (steady_serves ..) (by simp [numbers])

/-- The sum of the operands is a 32-bit number. -/
def InRange (x : Int32 × Int32) : Prop := (x.1 + x.2).toInt = x.1.toInt + x.2.toInt

/-- The OFFSET of a page SELECT. -/
def offsetOf : Stmt → Int
  | .selectPage _ _ _ offset => offset.toInt
  | _ => 0

/-- Up to page 2147482 all additions are in range. -/
theorem additionsFor_inRange {k : Nat} (hk : k ≤ 2147483) :
    ∀ x ∈ additionsFor rows k, InRange x := by
  intro x hx
  obtain ⟨p, hp, hx⟩ := List.mem_flatMap.1 hx
  rw [List.mem_range] at hp
  have hpage := length_pageAt rows (1000 * p)
  have hsum : ∀ a b : Nat, a + b ≤ 2147483000 → InRange (Int32.ofNat a, Int32.ofNat b) := by
    intro a b hab
    rw [InRange, ← Int32.ofNat_add, Int32.toInt_ofNat_of_lt (by omega),
      Int32.toInt_ofNat_of_lt (by omega), Int32.toInt_ofNat_of_lt (by omega)]
    omega
  -- `totalRows += nRows`, then `offset += pageSize`
  rcases List.mem_pair.1 hx with rfl | rfl
  · exact hsum _ _ (by omega)
  · exact hsum (1000 * p) 1000 (by omega)

/-- The next offset is not. -/
theorem additionsFor_not_inRange (rows : List Row) :
    ∃ x ∈ additionsFor rows 2147484, ¬ InRange x := by
  have hout : ¬ InRange (Int32.ofNat (1000 * 2147483), pageSize) := by
    unfold InRange
    decide
  refine ⟨(Int32.ofNat (1000 * 2147483), pageSize), ?_, hout⟩
  refine List.mem_flatMap.2 ⟨2147483, List.mem_range.2 (by omega), ?_⟩
  exact List.mem_cons_of_mem _ (List.mem_singleton.2 rfl)

/-- **No addition overflows**, every OFFSET is one, and every row is read, exactly for
    tables of up to 2147483000 rows. -/
theorem additions_in_range_iff (hE : E.Serves table pk fields rows)
    (hneg : E.RejectsNegative table pk) :
    ∃ totalRows additions w,
      Prog.Finishes E.handler (fun fuel => pageLoop table pk fuel 0 0) {} totalRows w ∧
      Prog.Finishes E.handler (fun fuel => countingLoop table pk fuel 0 0 []) {}
        (totalRows, additions) w ∧
      (((∀ x ∈ additions, InRange x) ∧ (∀ q ∈ w.reads, 0 ≤ offsetOf q) ∧ w.rowsRead = rows) ↔
        rows.length ≤ 2147483000) := by
  by_cases hn : rows.length ≤ 2147483000
  · have hfinishes := finishes_countingLoop (run_countingLoop_whole E table pk fields rows hE hn)
    refine ⟨_, _, _, finishes_pageLoop hfinishes, hfinishes, iff_of_true ⟨?_, ?_, rfl⟩ hn⟩
    · have hcount : pageCount rows.length = (rows.length + 999) / 1000 := rfl
      exact additionsFor_inRange (by omega)
    · intro q hq
      have hcount : pageCount rows.length = (rows.length + 999) / 1000 := rfl
      obtain ⟨p, hp, rfl⟩ := List.mem_map.1 hq
      rw [List.mem_range] at hp
      have hoffset := toInt_offset (show p < 2147484 by omega)
      show 0 ≤ (Int32.ofNat (1000 * p)).toInt
      omega
  · have hfinishes := finishes_countingLoop
      (run_countingLoop_cut E table pk fields rows hE hneg (by omega))
    refine ⟨_, _, _, finishes_pageLoop hfinishes, hfinishes, iff_of_false ?_ hn⟩
    rintro ⟨hinRange, -⟩
    obtain ⟨x, hx, hout⟩ := additionsFor_not_inRange rows
    exact hout (hinRange x hx)

theorem additions_in_range_numbers :
    ∃ totalRows additions w,
      Prog.Finishes (steady ["id"] (numbers 1150)).handler
        (fun fuel => pageLoop "public.numbers" ["id"] fuel 0 0) {} totalRows w ∧
      Prog.Finishes (steady ["id"] (numbers 1150)).handler
        (fun fuel => countingLoop "public.numbers" ["id"] fuel 0 0 []) {} (totalRows, additions) w ∧
      (((∀ x ∈ additions, InRange x) ∧ (∀ q ∈ w.reads, 0 ≤ offsetOf q) ∧
          w.rowsRead = numbers 1150) ↔
        (numbers 1150).length ≤ 2147483000) :=
  additions_in_range_iff (steady_serves ..)
    (steady_rejectsNegative "public.numbers" ["id"] ["id"] (numbers 1150))

/-- A table of 2147484001 rows: an offset overflows, a negative OFFSET is sent, and the last
    row is not read. -/
theorem additions_overflow_numbers :
    ∃ totalRows additions w,
      Prog.Finishes (steady ["id"] (numbers 2147484001)).handler
        (fun fuel => pageLoop "public.numbers" ["id"] fuel 0 0) {} totalRows w ∧
      Prog.Finishes (steady ["id"] (numbers 2147484001)).handler
        (fun fuel => countingLoop "public.numbers" ["id"] fuel 0 0 []) {} (totalRows, additions) w ∧
      (∃ x ∈ additions, ¬ InRange x) ∧ (∃ q ∈ w.reads, offsetOf q < 0) ∧
      w.rowsRead ≠ numbers 2147484001 := by
  have hlength : (numbers 2147484001).length = 2147484001 := by
    rw [numbers, List.length_map, List.length_range]
  -- only the length of the table matters, so the table is never evaluated
  generalize numbers 2147484001 = rows at hlength
  have hfinishes := finishes_countingLoop (run_countingLoop_cut (steady ["id"] rows)
    "public.numbers" ["id"] ["id"] rows (steady_serves ..)
    (steady_rejectsNegative "public.numbers" ["id"] ["id"] rows) (by omega))
  refine ⟨_, _, _, finishes_pageLoop hfinishes, hfinishes, additionsFor_not_inRange rows,
    ⟨.selectPage "public.numbers" ["id"] pageSize (-2147483296), by simp, by decide⟩, ?_⟩
  intro heq
  have hread : (rows.take (1000 * 2147484)).length = rows.length := congrArg List.length heq
  rw [List.length_take] at hread
  omega

end Law

end SyncLayer.Wire
