import Mathlib.Data.String.Basic
import SyncLayer.Copy.Flag

/-!
# Paging Over a Changing Table

Each page SELECT sees the table as it is at that moment, and OFFSET counts rows of that
snapshot. `Paging` is one pass of the table loop over a table that other clients change
between the SELECTs. Every statement succeeds.

A row that stays in the table throughout is copied exactly when some page, read in its
own snapshot, contains it (`stable_rows_copied_iff`). Deletes in front of a row can move
it over a page boundary that the offset has already passed.
-/

namespace SyncLayer.Copy

open SyncLayer.Interaction SyncLayer.Model SyncLayer.Database SyncLayer.Chunks
open SyncLayer.PartialMap

variable {C : Catalog} {t : String}

/-! ## A pass over a changing table -/

/-- The pass over table `t` in which the SELECT of page `p` sees `snapshot p`. Page `last`
    is the one that comes back empty. -/
structure Paging (C : Catalog) (t : String) where
  snapshot : Nat → LocalDb C.table
  last : Nat
  last_lt : last < maxPages
  last_empty : (snapshot last t).rows.length ≤ 1000 * last
  nonempty : ∀ p < last, 1000 * p < (snapshot p t).rows.length
  /-- The rows that are in the table, with the same key and values, from before the first
      page is read until after the last page is read. -/
  stable : Set Row
  stable_mem : ∀ r ∈ stable, ∀ p ≤ last, r ∈ (snapshot p t).rows

namespace Paging

variable (P : Paging C t)

/-- The environment of the pass. -/
def behaviour : Behaviour C where
  localDb _ query := match query with
    | .selectPage _ _ _ offset => P.snapshot (offset.toInt.toNat / 1000)
    | _ => P.snapshot 0
  outcome _ _ _ := .acked

/-- Page `p` as the pass reads it. -/
def page (p : Nat) : List Row := pageOf (P.snapshot p t).rows p

/-- What the statements achieve during the pass. -/
def transfers : Transfers where
  read _ _ p := some (P.page p)
  store _ t rows H := insertRows (C.table t) t rows H

theorem transfers_inserts : P.transfers.Inserts C fun _ _ rows => rows := fun _ _ _ _ => rfl

theorem transfers_realizes : Realizes P.behaviour P.transfers t where
  width i p rows hread r hr := by
    obtain rfl : P.page p = rows := Option.some.inj hread
    exact (P.snapshot p t).width r (mem_of_mem_pageOf hr)
  run_read p hp s hs := by
    -- the OFFSET of the statement tells which snapshot answers it
    have hdb : P.behaviour.localDb s (pageQuery C t p) = P.snapshot p := by
      show P.snapshot ((Int32.ofNat (1000 * p)).toInt.toNat / 1000) = P.snapshot p
      rw [toInt_offset hp, Int.toNat_natCast, Nat.mul_div_cancel_left p (by decide)]
    have hr : respond C (P.behaviour.localDb s (pageQuery C t p)) s.hosted .local_
        (pageQuery C t p) (P.behaviour.outcome s .local_ (pageQuery C t p)) =
        (some (tuplesResult (C.table t).columns (P.page p)), s.hosted) := by
      rw [hdb]
      exact respond_pageQuery hp
    exact run_executeWithRetry_first P.behaviour (retried_selectPage _ _ _ _) (Or.inr rfl) hr
  run_store rows hw s hs := run_sendChunk_acked P.behaviour hw hs rfl

/-- The pages of the pass are those before the empty one. -/
theorem mem_pages {page : List Row} :
    page ∈ pagesFrom (P.transfers.read 0 t) maxPages 0 ↔ ∃ p < P.last, page = P.page p := by
  -- the page numbered `last` is the first empty one
  have hempty : P.page P.last = [] := by
    have := P.last_empty
    simpa [Paging.page, pageOf] using this
  have hne : ∀ p < P.last, P.page p ≠ [] := by
    intro p hp
    have := P.nonempty p hp
    simpa [Paging.page, pageOf] using this
  rw [mem_pagesFrom]
  constructor
  · rintro ⟨p, -, hread, hpage, hbefore⟩
    rw [Nat.zero_add] at hread
    obtain rfl : P.page p = page := Option.some.inj hread
    refine ⟨p, ?_, rfl⟩
    -- the pass does not get past the empty page
    rcases Nat.lt_trichotomy p P.last with hlt | rfl | hgt
    · exact hlt
    · exact absurd hempty hpage
    · obtain ⟨rows, hrows, hrows'⟩ := hbefore P.last hgt
      rw [Nat.zero_add] at hrows
      obtain rfl : P.page P.last = rows := Option.some.inj hrows
      exact absurd hempty hrows'
  · rintro ⟨p, hp, rfl⟩
    refine ⟨p, hp.trans P.last_lt, ?_, hne p hp, ?_⟩
    · rw [Nat.zero_add]
      rfl
    · intro q hq
      refine ⟨P.page q, ?_, hne q (hq.trans hp)⟩
      rw [Nat.zero_add]
      rfl

/-- The rows that the pass sends. -/
def sentRows : List Row := (P.transfers.batches 0 t).flatMap fun rows => rows

theorem mem_sentRows {r : Row} : r ∈ P.sentRows ↔ ∃ p < P.last, r ∈ P.page p := by
  -- batching a page neither adds nor drops a row
  have hchunks : ∀ page : List Row, (∃ c ∈ chunks batchSize page, r ∈ c) ↔ r ∈ page := by
    intro page
    rw [← List.mem_flatten, flatten_chunks (by decide)]
  simp only [sentRows, Transfers.batches, List.mem_flatMap, P.mem_pages]
  constructor
  · rintro ⟨rows, ⟨page, ⟨p, hp, rfl⟩, hrows⟩, hr⟩
    exact ⟨p, hp, (hchunks _).1 ⟨rows, hrows, hr⟩⟩
  · rintro ⟨p, hp, hr⟩
    obtain ⟨rows, hrows, hr'⟩ := (hchunks _).2 hr
    exact ⟨rows, ⟨_, ⟨p, hp, rfl⟩, hrows⟩, hr'⟩

/-- Under the key of a stable row nothing else is sent. -/
theorem eq_of_mem_sentRows (hpk : (C.table t).primaryKey ≠ []) {r r' : Row}
    (hr : r ∈ P.stable) (hr' : r' ∈ P.sentRows)
    (hkey : (C.table t).keyOf r' = (C.table t).keyOf r) : r' = r := by
  -- both rows are in the snapshot of the page that was sent, which has unique keys
  obtain ⟨p, hp, hmem⟩ := P.mem_sentRows.1 hr'
  exact (P.snapshot p t).key_injective hpk r' (mem_of_mem_pageOf hmem) r
    (P.stable_mem r hr p (Nat.le_of_lt hp)) hkey

/-- The hosted database after the pass. -/
def result (H : HostedDb) : HostedDb := P.transfers.copyTable 0 t H

theorem result_eq_insertAll (H : HostedDb) :
    P.result H t = insertAll (C.table t).keyOf (H t) P.sentRows := by
  rw [result, Transfers.copyTable, Transfers.storeAll_eq_insertRows P.transfers_inserts,
    insertRows_same]
  rfl

/-- The pass finishes. -/
theorem run_syncTable_paging (hpk : (C.table t).primaryKey ≠ []) (tracker : TableTracker)
    (hkey : tracker.getPrimaryKeys t = (C.table t).primaryKey) (H : HostedDb) :
    Prog.Finishes P.behaviour.handler (fun fuel => syncTable fuel tracker t) (newSession H) ()
      { newSession H with table := 1, hosted := P.result H } := by
  filter_upwards [Filter.eventually_gt_atTop maxPages] with fuel hfuel
  exact run_syncTable P.transfers_realizes hkey hpk hfuel rfl

/-- Which stable rows are present after the pass. -/
theorem present_result_iff (a : Agreement) (hpk : (C.table t).primaryKey ≠ []) (H : HostedDb)
    {r : Row} (hr : r ∈ P.stable) :
    Present C a (P.result H) t r ↔ Present C a H t r ∨
      (H t ((C.table t).keyOf r) = none ∧ ∃ p < P.last, r ∈ P.page p) := by
  rw [← P.mem_sentRows]
  simp only [Present, P.result_eq_insertAll, insertAll_eq_overlay, overlay_eq_some]
  constructor
  · rintro ⟨r', hold | ⟨hfree, hnew⟩, hagree⟩
    · exact Or.inl ⟨r', hold, hagree⟩
    · -- whatever was added under the key of `r` is `r`
      obtain ⟨hmem, hkey⟩ := firstWith_eq_some hnew
      obtain rfl := P.eq_of_mem_sentRows hpk hr hmem hkey
      exact Or.inr ⟨hfree, hmem⟩
  · rintro (⟨r', hold, hagree⟩ | ⟨hfree, hmem⟩)
    · exact ⟨r', Or.inl hold, hagree⟩
    · refine ⟨r, Or.inr ⟨hfree, ?_⟩, a.refl r⟩
      -- the first row sent under this key is the stable one
      cases hfirst : firstWith (C.table t).keyOf P.sentRows ((C.table t).keyOf r) with
      | none => simpa using List.find?_eq_none.1 hfirst r hmem
      | some r' =>
        obtain ⟨hmem', hkey⟩ := firstWith_eq_some hfirst
        rw [P.eq_of_mem_sentRows hpk hr hmem' hkey]

end Paging

/-- **When paging loses no stable row**: the pass over a changing table finishes, and every
    stable row is present afterwards exactly when each was present before, or had a free
    key and lies in one of the pages, counted in the snapshot of that page. The hosted table
    has no constraint but its primary key, and the texts can be escaped. -/
theorem stable_rows_copied_iff (P : Paging C t) (a : Agreement)
    (hpk : (C.table t).primaryKey ≠ []) (tracker : TableTracker)
    (hkey : tracker.getPrimaryKeys t = (C.table t).primaryKey) (H : HostedDb) :
    ∃ w : Session,
      Prog.Finishes P.behaviour.handler (fun fuel => syncTable fuel tracker t) (newSession H)
        () w ∧
      ((∀ r ∈ P.stable, Present C a w.hosted t r) ↔
        ∀ r ∈ P.stable, Present C a H t r ∨ (H t ((C.table t).keyOf r) = none ∧
          ∃ p < P.last, r ∈ pageOf (P.snapshot p t).rows p)) :=
  ⟨_, P.run_syncTable_paging hpk tracker hkey H,
    forall_congr' fun _ => forall_congr' fun hr => P.present_result_iff a hpk H hr⟩

/-! ## A lost row -/

/-- The node whose id is `i` times the letter a. -/
def letterNode (i : Nat) : Row := [some (String.ofList (List.replicate i 'a')), none]

private theorem keyLt_letterNode {i j : Nat} (h : i < j) :
    nodeTable.keyLt (nodeTable.keyOf (letterNode i)) (nodeTable.keyOf (letterNode j)) := by
  have hletters : List.replicate i 'a' < List.replicate j 'a' := by
    induction j generalizing i with
    | zero => omega
    | succ j ih =>
      cases i with
      | zero => exact List.Lex.nil
      | succ i => exact List.Lex.cons (ih (by omega))
  show ([String.ofList (List.replicate i 'a')] : List String) <
    [String.ofList (List.replicate j 'a')]
  apply List.Lex.rel
  rw [String.lt_iff_toList_lt, String.toList_ofList, String.toList_ofList]
  exact hletters

theorem letterNode_injective : Function.Injective letterNode := by
  intro i j h
  have hid : String.ofList (List.replicate i 'a') = String.ofList (List.replicate j 'a') :=
    Option.some.inj (List.cons.inj h).1
  have hlen := congrArg List.length (String.ofList_injective hid)
  rwa [List.length_replicate, List.length_replicate] at hlen

/-- The nodes from number `first` on, `n` of them. -/
def letterNodes (first n : Nat) : TableState nodeTable where
  rows := (List.range' first n).map letterNode
  width := by
    intro r hr
    obtain ⟨i, -, rfl⟩ := List.mem_map.1 hr
    rfl
  inKeyOrder _ := by
    rw [List.pairwise_map]
    exact (List.pairwise_lt_range' 1).imp keyLt_letterNode

/-- Between the two pages of a table of 1001 nodes the first node is deleted. The last node
    is in the table all the time. -/
def deletedFirst : Paging (nodeCatalog ["nodes"]) "public.nodes" where
  snapshot p := nodesIn ["nodes"] "public.nodes"
    (if p = 0 then letterNodes 0 1001 else letterNodes 1 1000)
  last := 1
  last_lt := by decide
  last_empty := by simp [nodesIn, letterNodes]
  nonempty p hp := by
    obtain rfl : p = 0 := by omega
    simp [nodesIn, letterNodes]
  stable := {letterNode 1000}
  stable_mem := by
    rintro r rfl p -
    by_cases hp : p = 0
    · simp only [nodesIn, if_pos hp, letterNodes]
      exact List.mem_map_of_mem (List.mem_range'.2 ⟨1000, by decide, rfl⟩)
    · simp only [nodesIn, if_neg hp, letterNodes]
      exact List.mem_map_of_mem (List.mem_range'.2 ⟨999, by decide, rfl⟩)

/-- The tracker that knows the key of the node table. -/
def nodeTracker : TableTracker where
  trackedTables := ["public.nodes"]
  tablePrimaryKeys _ := some ["id"]

/-- The pass during which the first node is deleted. -/
theorem stable_rows_copied_iff_deletedFirst :
    ∃ w : Session,
      Prog.Finishes deletedFirst.behaviour.handler
        (fun fuel => syncTable fuel nodeTracker "public.nodes") (newSession HostedDb.empty)
        () w ∧
      ((∀ r ∈ deletedFirst.stable,
          Present (nodeCatalog ["nodes"]) .row w.hosted "public.nodes" r) ↔
        ∀ r ∈ deletedFirst.stable,
          Present (nodeCatalog ["nodes"]) .row HostedDb.empty "public.nodes" r ∨
          (HostedDb.empty "public.nodes" (nodeTable.keyOf r) = none ∧
            ∃ p < deletedFirst.last,
              r ∈ pageOf (deletedFirst.snapshot p "public.nodes").rows p)) :=
  stable_rows_copied_iff deletedFirst .row (by decide) nodeTracker rfl HostedDb.empty

/-- Its last node, never touched by anybody, is missing afterwards: it moved from page 1 to
    page 0 when page 0 had been read. -/
theorem deletedFirst_loses_stable_row :
    ∃ w : Session,
      Prog.Finishes deletedFirst.behaviour.handler
        (fun fuel => syncTable fuel nodeTracker "public.nodes") (newSession HostedDb.empty)
        () w ∧
      ¬ ∀ r ∈ deletedFirst.stable,
        Present (nodeCatalog ["nodes"]) .key w.hosted "public.nodes" r := by
  have hpk : ((nodeCatalog ["nodes"]).table "public.nodes").primaryKey ≠ [] := by decide
  refine ⟨_, deletedFirst.run_syncTable_paging hpk nodeTracker rfl _, fun h => ?_⟩
  rcases (deletedFirst.present_result_iff .key hpk _ rfl).1 (h _ rfl) with
    ⟨r', hr', -⟩ | ⟨-, p, hp, hmem⟩
  · cases hr'
  · obtain rfl : p = 0 := by
      have : p < 1 := hp
      omega
    -- page 0 ends just before the last node, and page 1 is empty
    have hpage : deletedFirst.page 0 = (List.range' 0 1000).map letterNode := by
      show pageOf ((List.range' 0 1001).map letterNode) 0 = _
      rw [pageOf, Nat.mul_zero, List.drop_zero, ← List.map_take, List.take_range'_of_length_ge]
      decide
    rw [hpage] at hmem
    obtain ⟨i, hi, heq⟩ := List.mem_map.1 hmem
    obtain rfl := letterNode_injective heq
    simp [List.mem_range'] at hi

end SyncLayer.Copy
