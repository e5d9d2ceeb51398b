import SyncLayer.Library.Chunks
import SyncLayer.Model.ReplicationManager

/-!
# The Row Loop Sends the Chunks of a Page

The row loop collects rows one by one, flushes at `batchSize`, and flushes the
remainder in a second copy of the INSERT code. `rowLoop_eq_sendChunks` says that as a
program, so for every environment, it is the loop over the chunks of the page: encode
the rows of a chunk, then send them.
-/

namespace SyncLayer.Copy

open SyncLayer.Interaction SyncLayer.Model SyncLayer.Chunks

/-- Encode the rows of a batch and send them. -/
def sendChunk (table : String) (fields : List String) (rows : List Row) : Code Unit := do
  let inserts ← rows.mapM encodeRow
  sendBatch table fields inserts

/-- What follows a `mapM` only sees lists of the length of its input. -/
private theorem mapM_bind_congr {α β γ : Type} (f : α → Code β) (l : List α)
    {g g' : List β → Code γ} (hg : ∀ bs : List β, bs.length = l.length → g bs = g' bs) :
    (l.mapM f >>= g) = l.mapM f >>= g' := by
  induction l generalizing g g' with
  | nil =>
    rw [List.mapM_nil]
    exact hg [] rfl
  | cons a l ih =>
    simp only [List.mapM_cons, bind_assoc, pure_bind]
    congr 1
    funext b
    apply ih
    intro bs hbs
    exact hg (b :: bs) (by simp [hbs])

/-- The row loop up to its first flush. -/
private theorem rowLoop_step (table : String) (fields : List String) (rows : List Row)
    (inserts : List (List SqlValue)) (hlen : inserts.length < batchSize) :
    rowLoop table fields rows inserts =
      ((rows.take (batchSize - inserts.length)).mapM encodeRow >>= fun more =>
        if (inserts ++ more).length ≥ batchSize then
          sendBatch table fields (inserts ++ more) >>= fun _ =>
            rowLoop table fields (rows.drop (batchSize - inserts.length)) []
        else if !(inserts ++ more).isEmpty then sendBatch table fields (inserts ++ more)
        else pure ()) := by
  induction rows generalizing inserts with
  | nil =>
    -- the page ends before the batch is full
    have hnot : ¬ inserts.length ≥ batchSize := by omega
    simp only [List.take_nil, List.mapM_nil, pure_bind, List.append_nil, if_neg hnot]
    rfl
  | cons row rows ih =>
    obtain ⟨k, hk⟩ : ∃ k, batchSize - inserts.length = k + 1 :=
      ⟨batchSize - inserts.length - 1, by omega⟩
    rw [hk, List.take_succ_cons, List.mapM_cons, List.drop_succ_cons]
    simp only [rowLoop, bind_assoc, pure_bind]
    congr 1
    funext values
    have hlen' : (inserts ++ [values]).length = inserts.length + 1 := by simp
    by_cases hfull : (inserts ++ [values]).length ≥ batchSize
    · -- this row fills the batch: nothing more is taken
      obtain rfl : k = 0 := by omega
      simp only [List.take_zero, List.mapM_nil, pure_bind, List.drop_zero, if_pos hfull]
    · have hk' : batchSize - (inserts ++ [values]).length = k := by omega
      rw [if_neg hfull, ih _ (by omega), hk']
      simp only [List.append_assoc, List.singleton_append]

/-- **The row loop sends the chunks of the page**, in order, each after encoding it. -/
theorem rowLoop_eq_sendChunks (table : String) (fields : List String) (rows : List Row) :
    rowLoop table fields rows [] =
      forM (chunks batchSize rows) (sendChunk table fields) := by
  have hpos : 0 < batchSize := by decide
  induction rows using chunks.induct batchSize with
  | case1 rows h =>
    obtain rfl := h.resolve_right (by decide)
    rw [chunks_nil]
    rfl
  | case2 rows h ih =>
    have hne : rows ≠ [] := fun hnil => h (Or.inl hnil)
    rw [chunks_of_ne_nil hpos hne, List.forM_cons, rowLoop_step table fields rows [] hpos,
      sendChunk, bind_assoc, ← ih]
    apply mapM_bind_congr
    intro more hmore
    rw [List.length_take, List.length_nil, Nat.sub_zero] at hmore
    have hrows : 0 < rows.length := List.length_pos_iff.2 hne
    by_cases hfull : more.length ≥ batchSize
    · simp only [List.nil_append, if_pos hfull, List.length_nil, Nat.sub_zero]
    · -- the last, short batch: the second copy of the INSERT code sends it
      have hdrop : rows.drop batchSize = [] := List.drop_of_length_le (by omega)
      have hmore' : more ≠ [] := by
        intro hnil
        rw [hnil, List.length_nil] at hmore
        omega
      simp only [List.nil_append, if_neg hfull, hdrop, rowLoop, List.isEmpty_nil,
        Bool.not_true, Bool.false_eq_true, if_false]
      rw [if_pos (by simpa using hmore')]
      exact (bind_pure _).symm

end SyncLayer.Copy
