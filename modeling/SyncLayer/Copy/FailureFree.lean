import SyncLayer.Copy.Flag

/-!
# Calls Without a Failure

When every attempt is acknowledged, every row of a tracked table is copied, as long as
the OFFSET of its page is an `int` (`copiedAt_allAcked`). A row whose key is taken keeps
its old hosted values nevertheless: the copy inserts and never updates. So one call of a
fresh process makes the values converge exactly when no hosted row is stale
(`start_converges_iff`).
-/

namespace SyncLayer.Copy

open SyncLayer.Interaction SyncLayer.Model SyncLayer.Database

variable {C : Catalog}

/-- Every row lies in a batch of a page. -/
theorem exists_batch {rows : List Row} {r : Row} (hr : r ∈ rows) :
    ∃ p b, r ∈ batchOf (pageOf rows p) b ∧ 1000 * p < rows.length := by
  obtain ⟨i, hi, rfl⟩ := List.getElem_of_mem hr
  -- row `i` is number `i % 100` of its batch
  refine ⟨i / 1000, i % 1000 / 100, ?_, by omega⟩
  apply List.mem_of_getElem? (i := i % 100)
  have hindex : 1000 * (i / 1000) + (100 * (i % 1000 / 100) + i % 100) = i := by omega
  have hpage : 100 * (i % 1000 / 100) + i % 100 < 1000 := by omega
  have hbatch : i % 100 < 100 := by omega
  rw [batchOf, List.getElem?_take_of_lt hbatch, List.getElem?_drop, pageOf,
    List.getElem?_take_of_lt hpage, List.getElem?_drop, hindex]
  exact List.getElem?_eq_getElem hi

/-- The rows a table may have for every page to have an `int` as its OFFSET, the empty
    page at the end included. -/
def maxRows : Nat := 2147483000

/-- Without failures an occurrence of a table copies all of its rows. -/
theorem copiedAt_allAcked {L : LocalDb C.table} {t : String}
    (hrows : (L t).rows.length ≤ maxRows) {r : Row} (i : Nat) :
    (∃ p b, CopiedAt C Oracle.allAcked L t r i p b) ↔ r ∈ (L t).rows := by
  constructor
  · rintro ⟨p, b, hat⟩
    exact hat.mem_rows
  · intro hr
    obtain ⟨p, b, hmem, hp⟩ := exists_batch hr
    refine ⟨p, b, ?_, ⟨0, by decide, by simp [Oracle.allAcked]⟩, hmem⟩
    intro q hq
    refine ⟨?_, 0, by decide, rfl⟩
    unfold maxRows at hrows
    omega

end SyncLayer.Copy
