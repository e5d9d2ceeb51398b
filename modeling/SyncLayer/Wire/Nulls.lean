import Mathlib.Data.List.Forall2
import SyncLayer.Wire.Record

/-!
# NULL in Place of a Text

A text that cannot be escaped is sent as NULL. The rows that a run sends are the rows it
reads, encoded with the outcomes of its escape calls (`Accounted`), so they agree with what
was read exactly when every one of these calls gives a buffer (`sent_as_read_iff`).
-/

namespace SyncLayer.Wire

open SyncLayer.Interaction SyncLayer.Model SyncLayer.Chunks

/-! ## One row -/

/-- A relation between sent values and cells that notices a lost text. -/
structure Notices (R : SqlValue → Cell → Prop) : Prop where
  null : R .null none
  literal : ∀ s, R (.literal s) (some s)
  lost : ∀ s, ¬ R .null (some s)

/-- NULL is sent only for NULL. -/
def NullForNull (v : SqlValue) (c : Cell) : Prop := v = .null → c = none

/-- The value stands for the cell. -/
def StandsFor (v : SqlValue) (c : Cell) : Prop := v = .ofCell c

theorem notices_nullForNull : Notices NullForNull where
  null _ := rfl
  literal _ h := nomatch h
  lost _ h := nomatch h rfl

theorem notices_standsFor : Notices StandsFor where
  null := rfl
  literal _ := rfl
  lost _ h := nomatch h

section Encoding

variable (E : Surroundings) {R : SqlValue → Cell → Prop}

theorem forall_lt_add {P : Nat → Prop} {a b : Nat} :
    (∀ i < a + b, P i) ↔ (∀ i < a, P i) ∧ ∀ i < b, P (a + i) := by
  constructor
  · exact fun h => ⟨fun i hi => h i (by omega), fun i hi => h (a + i) (by omega)⟩
  · rintro ⟨hleft, hright⟩ i hi
    by_cases hia : i < a
    · exact hleft i hia
    · have hrest := hright (i - a) (by omega)
      rwa [Nat.add_sub_cancel' (by omega)] at hrest

/-- A row is sent as it is exactly when all its texts are escaped. -/
theorem encodeCells_iff (hR : Notices R) (k : Nat) (row : Row) :
    List.Forall₂ R (E.encodeCells k row) row ↔ ∀ i < texts row, E.escapes (k + i) = true := by
  induction row generalizing k with
  | nil => simp [Surroundings.encodeCells, texts]
  | cons cell row ih =>
    cases cell with
    | none => simp [Surroundings.encodeCells, texts, ih, hR.null]
    | some s =>
      -- the first call is for this text, the others are for the rest
      have hsplit : (∀ i < texts row + 1, E.escapes (k + i) = true) ↔
          E.escapes k = true ∧ ∀ i < texts row, E.escapes (k + 1 + i) = true := by
        have hshift : ∀ i, k + 1 + i = k + (i + 1) := by omega
        rw [Nat.forall_lt_succ_left, Nat.add_zero]
        simp only [hshift]
      rw [Surroundings.encodeCells, texts, List.forall₂_cons, ih (k + 1), hsplit]
      by_cases hescape : E.escapes k = true
      · simp [hescape, hR.literal]
      · simp [hescape, hR.lost]

theorem encodeRows_iff (hR : Notices R) (k : Nat) (rows : List Row) :
    List.Forall₂ (List.Forall₂ R) (E.encodeRows k rows) rows ↔
      ∀ i < textsOf rows, E.escapes (k + i) = true := by
  induction rows generalizing k with
  | nil => simp [Surroundings.encodeRows, textsOf]
  | cons row rows ih =>
    simp [Surroundings.encodeRows, textsOf, encodeCells_iff E hR, ih, forall_lt_add, Nat.add_assoc]

end Encoding

/-! ## A run -/

/-- The rows that a run has put into INSERT statements. -/
def Traffic.sentRows (w : Traffic) : List (List SqlValue) := w.inserts.flatMap valuesOf

/-- Between two statements of a run, everything read has been sent. -/
structure Accounted (E : Surroundings) (w : Traffic) : Prop where
  attempt : w.attempt = 0
  sent : w.sentRows = E.encodeRows 0 w.rowsRead
  calls : w.escapeCalls = textsOf w.rowsRead

section Run

variable {E : Surroundings} {w : Traffic}

/-- A page SELECT that fails, or finds no rows, leaves nothing to send. -/
theorem Accounted.no_rows (hw : Accounted E w) (query : Stmt) {res : Option PGresult}
    (hres : PQresultStatus res = .tuplesOk → resultRows res = []) :
    Accounted E ((w.handOver .local_ query).receive .local_ res) := by
  rw [receive_no_rows hres]
  exact ⟨hw.attempt, hw.sent, hw.calls⟩

/-- A page is read and sent. -/
theorem Accounted.page (hw : Accounted E w) (query : Stmt) (table : String) {res : Option PGresult}
    (hres : PQresultStatus res = .tuplesOk) :
    ∃ w', (rowLoop table (resultFields res) (resultRows res) []).run E.handler
        ((w.handOver .local_ query).receive .local_ res) = (some (), w') ∧ Accounted E w' := by
  have hreceive : (w.handOver .local_ query).receive .local_ res =
      { w with reads := w.reads ++ [query], rowsRead := w.rowsRead ++ resultRows res } :=
    if_pos ⟨rfl, hres⟩
  have hpos : 0 < batchSize := by decide
  -- the batches, put together, are the rows of the page
  rw [hreceive, run_rowLoop E table _ _ (by exact hw.attempt)]
  refine ⟨_, rfl, hw.attempt, ?_, ?_⟩
  · have hsent := hw.sent
    unfold Traffic.sentRows at hsent ⊢
    rw [List.flatMap_append, hsent, flatMap_valuesOf, flatten_chunks hpos, encodeRows_append,
      Nat.zero_add, hw.calls]
  · simp [textsOf_append, hw.calls]

theorem Accounted.pageLoop (hw : Accounted E w) (table : String) (pk : List String) (fuel : Nat)
    (offset totalRows : Int32) :
    Accounted E ((pageLoop table pk fuel offset totalRows).run E.handler w).2 := by
  induction fuel generalizing w offset totalRows with
  | zero => exact hw
  | succ fuel ih =>
    rw [Model.pageLoop, Prog.run_bind_of_some _ _ (run_executeWithRetry E hw.attempt _ _)]
    split
    · next hfailed => exact hw.no_rows _ fun hok => absurd hok hfailed
    · next hok =>
      -- the page is empty, which ends the loop, or its rows are sent
      have hstatus := Decidable.not_not.1 hok
      dsimp only
      by_cases hempty : PQntuples (E.result (w.handedOver + 1) .local_
          (.selectPage table pk pageSize offset)) = 0
      · rw [if_pos hempty]
        exact hw.no_rows _ fun _ => List.length_eq_zero_iff.1 hempty
      · obtain ⟨w', hrun, hw'⟩ := hw.page (.selectPage table pk pageSize offset) table hstatus
        rw [if_neg hempty, Prog.run_bind_of_some _ _ hrun, run_log_bind]
        exact ih hw' _ _

theorem Accounted.syncTable (hw : Accounted E w) (fuel : Nat) (tracker : TableTracker)
    (table : String) : Accounted E ((syncTable fuel tracker table).run E.handler w).2 := by
  unfold Model.syncTable
  dsimp only
  split
  · exact hw
  · rw [run_log_bind]
    apply Prog.run_bind_keeps
    · exact Accounted.pageLoop hw ..
    · intro totalRows w' hw'
      exact hw'

/-- The record of a whole copy, or of the part of it that a budget of pages allows. -/
def copyTraffic (E : Surroundings) (fuel : Nat) (tracker : TableTracker) : Traffic :=
  ((initialSync fuel tracker).run E.handler {}).2

theorem accounted_copyTraffic (E : Surroundings) (fuel : Nat) (tracker : TableTracker) :
    Accounted E (copyTraffic E fuel tracker) := by
  unfold copyTraffic initialSync
  rw [run_log_bind]
  apply Prog.run_bind_keeps
  · apply Prog.run_forM_keeps
    · intro table w hw
      exact hw.syncTable fuel tracker table
    · exact ⟨rfl, rfl, rfl⟩
  · intro u w hw
    exact hw

end Run

/-- **What is sent is what was read** in a run of the copy, with NULL only for NULL and with
    every value, exactly when every text that was read was escaped. -/
theorem sent_as_read_iff (E : Surroundings) (fuel : Nat) (tracker : TableTracker) :
    (List.Forall₂ (List.Forall₂ NullForNull) (copyTraffic E fuel tracker).sentRows
        (copyTraffic E fuel tracker).rowsRead ↔
      ∀ k < textsOf (copyTraffic E fuel tracker).rowsRead, E.escapes k = true) ∧
    (List.Forall₂ (List.Forall₂ StandsFor) (copyTraffic E fuel tracker).sentRows
        (copyTraffic E fuel tracker).rowsRead ↔
      ∀ k < textsOf (copyTraffic E fuel tracker).rowsRead, E.escapes k = true) := by
  have hsent := (accounted_copyTraffic E fuel tracker).sent
  rw [hsent, encodeRows_iff E notices_nullForNull, encodeRows_iff E notices_standsFor]
  simp

/-- A table with one row, whose second text the escape function rejects. -/
def unescapable : Surroundings where
  reply _ _ conn query :=
    match conn, query with
    | .local_, .selectPage _ _ _ offset =>
        some ⟨.tuplesOk, ["id", "note"], if offset = 0 then [[some "1", some "note"]] else []⟩
    | _, _ => some ⟨.commandOk, [], []⟩
  escapes k := k ≠ 1

/-- The row is sent with NULL for its text. -/
theorem sent_otherwise_unescapable :
    (copyTraffic unescapable 2 ⟨["public.notes"], fun _ => some ["id"]⟩).sentRows =
        [[.literal "1", .null]] ∧
      (copyTraffic unescapable 2 ⟨["public.notes"], fun _ => some ["id"]⟩).rowsRead =
        [[some "1", some "note"]] ∧
      ¬ List.Forall₂ (List.Forall₂ NullForNull)
        (copyTraffic unescapable 2 ⟨["public.notes"], fun _ => some ["id"]⟩).sentRows
        (copyTraffic unescapable 2 ⟨["public.notes"], fun _ => some ["id"]⟩).rowsRead := by
  have hrows : (copyTraffic unescapable 2 ⟨["public.notes"], fun _ => some ["id"]⟩).sentRows =
        [[.literal "1", .null]] ∧
      (copyTraffic unescapable 2 ⟨["public.notes"], fun _ => some ["id"]⟩).rowsRead =
        [[some "1", some "note"]] := by
    decide +kernel
  refine ⟨hrows.1, hrows.2, ?_⟩
  rw [hrows.1, hrows.2]
  simp [NullForNull]

end SyncLayer.Wire
