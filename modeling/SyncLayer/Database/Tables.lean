import Mathlib.Data.List.Lex
import Mathlib.Data.List.Nodup
import Mathlib.Data.String.Basic
import SyncLayer.Library.PartialMap
import SyncLayer.Model.Libpq

/-!
# Tables

A table has named columns, a primary key and an order on key values. The local
database is a table state for every table name: its rows, listed in key order when
there is a key. The hosted database is looked at as a map from key to row for every
table name.

A `TableState` carries the facts PostgreSQL guarantees of a table (every row has a cell
for each column, keys are strictly increasing along the listing, hence distinct).
-/

namespace SyncLayer.Database

open SyncLayer.Model SyncLayer.PartialMap

/-- The cells of the key columns of a row. -/
abbrev Key := List Cell

/-- A table's columns, primary key and key order. -/
structure TableDef where
  columns : List String
  /-- The key columns in key order; empty for a table without a primary key. -/
  primaryKey : List String
  /-- The order of key values, by the types and collations of the key columns. -/
  keyLt : Key → Key → Prop
  columns_nodup : columns.Nodup
  keyLt_irrefl : ∀ k, ¬ keyLt k k
  keyLt_trans : ∀ {k₁ k₂ k₃}, keyLt k₁ k₂ → keyLt k₂ k₃ → keyLt k₁ k₃

namespace TableDef

/-- The cell of a named column. -/
def cellOf (columns : List String) (r : Row) (c : String) : Cell :=
  ((columns.zip r).lookup c).getD none

/-- The key of a row. -/
def keyOf (d : TableDef) (r : Row) : Key := d.primaryKey.map (cellOf d.columns r)

/-- A table whose key columns are compared as texts, character by character. -/
def ofTexts (columns primaryKey : List String) (hnodup : columns.Nodup) : TableDef where
  columns := columns
  primaryKey := primaryKey
  keyLt k k' := k.map (·.getD "") < k'.map (·.getD "")
  columns_nodup := hnodup
  keyLt_irrefl _ := lt_irrefl _
  keyLt_trans := lt_trans

end TableDef

/-- The rows of a table at some moment. -/
structure TableState (d : TableDef) where
  rows : List Row
  width : ∀ r ∈ rows, r.length = d.columns.length
  inKeyOrder : d.primaryKey ≠ [] → rows.Pairwise fun r r' => d.keyLt (d.keyOf r) (d.keyOf r')

namespace TableState

variable {d : TableDef} (t : TableState d)

/-- A table without rows. -/
def empty (d : TableDef) : TableState d where
  rows := []
  width := by simp
  inKeyOrder _ := .nil

/-- A table with one row. -/
def single (d : TableDef) (r : Row) (hr : r.length = d.columns.length) : TableState d where
  rows := [r]
  width := by simpa using hr
  inKeyOrder _ := List.pairwise_singleton _ _

/-- In a table with a primary key no two rows have the same key. -/
theorem keys_nodup (hpk : d.primaryKey ≠ []) : (t.rows.map d.keyOf).Nodup := by
  apply List.pairwise_map.2
  apply (t.inKeyOrder hpk).imp
  intro a b hlt h
  rw [h] at hlt
  exact d.keyLt_irrefl _ hlt

theorem key_injective (hpk : d.primaryKey ≠ []) :
    ∀ r ∈ t.rows, ∀ r' ∈ t.rows, d.keyOf r = d.keyOf r' → r = r' :=
  fun _ hr _ hr' heq => List.inj_on_of_nodup_map (t.keys_nodup hpk) hr hr' heq

end TableState

/-! ## Rows of an INSERT -/

/-- The row an INSERT with a column list stores: NULL in the columns it does not list. -/
def TableDef.rowOf (d : TableDef) (columns : List String) (values : List SqlValue) : Row :=
  d.columns.map fun c => (((columns.zip values).lookup c).map SqlValue.toCell).getD none

/-- Looking every column up in its own row gives the row back. -/
private theorem map_lookup_zip {β γ : Type} (f : Option β → γ) (g : β → γ)
    (hfg : ∀ b, f (some b) = g b) (cs : List String) (hnodup : cs.Nodup) (vs : List β)
    (hlen : vs.length = cs.length) :
    (cs.map fun c => f ((cs.zip vs).lookup c)) = vs.map g := by
  induction cs generalizing vs with
  | nil =>
    rw [List.length_nil, List.length_eq_zero_iff] at hlen
    rw [hlen]
    rfl
  | cons c cs ih =>
    cases vs with
    | nil => simp at hlen
    | cons v vs =>
      obtain ⟨hc, hcs⟩ := List.nodup_cons.1 hnodup
      -- the other columns do not see the first one: the names are distinct
      have htail : (cs.map fun x => f (((c :: cs).zip (v :: vs)).lookup x)) =
          cs.map fun x => f ((cs.zip vs).lookup x) := by
        apply List.map_congr_left
        intro x hx
        have hne : (x == c) = false := beq_eq_false_iff_ne.2 fun h => hc (h ▸ hx)
        rw [List.zip_cons_cons, List.lookup_cons, hne]
      rw [List.map_cons, htail, ih hcs vs (by simpa using hlen), List.map_cons]
      simp [hfg]

/-- A row sent under the table's own column list is stored as it is. -/
theorem TableDef.rowOf_columns (d : TableDef) {r : Row} (hlen : r.length = d.columns.length) :
    d.rowOf d.columns (r.map SqlValue.ofCell) = r := by
  have h := map_lookup_zip (fun o : Option SqlValue => (o.map SqlValue.toCell).getD none)
    SqlValue.toCell (fun _ => rfl) d.columns d.columns_nodup (r.map SqlValue.ofCell)
    (by simpa using hlen)
  rw [TableDef.rowOf, h, List.map_map]
  exact List.map_id'' SqlValue.toCell_ofCell r

/-! ## The two databases -/

/-- A local database over the given table definitions. -/
abbrev LocalDb (table : String → TableDef) := (t : String) → TableState (table t)

/-- The hosted database: for every table a map from key to row. -/
abbrev HostedDb := String → Key → Option Row

/-- `INSERT ... ON CONFLICT DO NOTHING` of the given rows into `t`. -/
def insertRows (d : TableDef) (t : String) (rows : List Row) (H : HostedDb) : HostedDb :=
  Function.update H t (insertAll d.keyOf (H t) rows)

section InsertRows

variable {d : TableDef} {t : String} {rows rows' : List Row} {H : HostedDb}

theorem insertRows_same : insertRows d t rows H t = insertAll d.keyOf (H t) rows := by
  simp [insertRows]

theorem insertRows_other {t' : String} (h : t' ≠ t) : insertRows d t rows H t' = H t' := by
  simp [insertRows, h]

theorem insertRows_nil : insertRows d t [] H = H := by
  simp [insertRows, insertAll_nil]

theorem insertRows_append :
    insertRows d t (rows ++ rows') H = insertRows d t rows' (insertRows d t rows H) := by
  simp [insertRows, insertAll_append]

/-- Sending the same INSERT twice is sending it once. -/
theorem insertRows_idem :
    insertRows d t rows (insertRows d t rows H) = insertRows d t rows H := by
  simp [insertRows, insertAll_idem]

/-- An entry after an INSERT was there before, or is one of its rows under its key. -/
theorem insertRows_eq_some {t' : String} {k : Key} {r : Row}
    (h : insertRows d t rows H t' k = some r) :
    H t' k = some r ∨ (t' = t ∧ r ∈ rows ∧ d.keyOf r = k) := by
  by_cases ht : t' = t
  · subst ht
    rw [insertRows_same, insertAll_eq_overlay, overlay_eq_some] at h
    rcases h with hold | ⟨-, hnew⟩
    · exact Or.inl hold
    · exact Or.inr ⟨rfl, firstWith_eq_some hnew⟩
  · rw [insertRows_other ht] at h
    exact Or.inl h

theorem extends_insertRows (t' : String) : Extends (H t') (insertRows d t rows H t') := by
  by_cases h : t' = t
  · subst h
    rw [insertRows_same]
    exact extends_insertAll _ _
  · rw [insertRows_other h]
    exact Extends.refl _

end InsertRows

end SyncLayer.Database
